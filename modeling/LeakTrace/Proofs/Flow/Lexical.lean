import LeakTrace.Proofs.Tree.Proper
import LeakTrace.Script.Program

namespace LeakTrace

open List Pass Scopes Option

variable {outer scope : ScopeId} {seen : List NodeId} {node : NodeId} {binding : Binding} {blocks : Bool}
  {limits : Limits} {scopes other : Scopes} {inner : ScopeId}

namespace Scopes

/-- The first scope is the second one or lies somewhere inside it. -/
def Inside (scopes : Scopes) : ScopeId → ScopeId → Prop :=
  Relation.ReflTransGen fun inner outer => scopes.parent? inner = some outer

theorem isWithin_iff : scopes.isWithin inner outer = true ↔ scopes.Inside inner outer := by
  constructor
  · intro within
    fun_induction isWithin scopes inner outer with
    | case1 => exact .refl
    | case2 inner _ next link ih => exact .head link (ih within)
    | case3 => cases within
  · intro inside
    induction inside using Relation.ReflTransGen.head_induction_on with
    | refl => rw [isWithin, if_pos rfl]
    | @head inner next link _ ih =>
      rw [isWithin]
      split
      · rfl
      split
      · rename_i found
        cases link.symm.trans found
        exact ih
      · rename_i absent
        cases link.symm.trans absent

theorem Inside.mono (inside : scopes.Inside inner outer)
    (keeps : ∀ first second, scopes.parent? first = some second → other.parent? first = some second) :
    other.Inside inner outer :=
  Relation.ReflTransGen.mono keeps inner outer inside

theorem Inside.le (inside : scopes.Inside inner outer) : outer ≤ inner := by
  induction inside with
  | refl => exact Nat.le_refl _
  | tail _ link ih => exact Nat.le_trans (Nat.le_of_lt (lt_of_parent? link)) ih

theorem exists_of_lookup {name : String} {binding : BindingId}
    (found : scopes.lookup scope name = some binding) :
    ∃ outer record, scopes.Inside scope outer ∧ scopes.scopes[outer]? = some record ∧
      record.current[name]? = some binding := by
  fun_induction lookup scopes scope name with
  | case1 scope _ named =>
    cases found
    obtain ⟨record, atScope, atName⟩ := bind_eq_some_iff.1 named
    exact ⟨scope, record, .refl, atScope, atName⟩
  | case2 scope _ next link ih =>
    obtain ⟨outer, record, inside, atScope, atName⟩ := ih found
    exact ⟨outer, record, .head link inside, atScope, atName⟩
  | case3 => cases found

theorem parent?_declare (scopes : Scopes) (binding : Binding) (id : ScopeId) :
    (scopes.declare binding).parent? id = scopes.parent? id := by
  rw [parent?, parent?, declare, Array.getElem?_modify]
  split
  · cases scopes.scopes[id]? <;> rfl
  · rfl

theorem parent?_openScope (scopes : Scopes) (kind : ScopeKind) (node : NodeId) (id : ScopeId) :
    (scopes.openScope outer kind node).parent? id =
      if id = scopes.scopes.size then if outer < scopes.scopes.size then some outer else none
      else scopes.parent? id := by
  rw [parent?, openScope, Array.getElem?_push]
  split <;> rfl

/-- A resolution that is not what the name at the node says. The node is at the root of a path that is
written to, its name is an alias in view there, and the path for which that stands hangs off a name that
nothing declares: the write has bound this other name in the program, and the node refers to it. -/
structure Redirected (tree : Tree) (scopes : Scopes) (InView : ScopeId → Prop) (node : NodeId)
    (binding : Binding) : Prop where
  kind : binding.kind = .implicit
  scope : binding.scope = root
  pathless : binding.path = none
  written : ∃ target, tree.child? binding.node .left = some target ∧
    tree.rootIdentifier? target = some node
  meaning : ∃ id other path, scopes.binding? id = some other ∧ tree.text node = some other.name ∧
    InView other.scope ∧ other.path = some path ∧ path.root = .undeclared binding.name

theorem Redirected.mono {tree : Tree} {InView Also : ScopeId → Prop}
    (redirected : Redirected tree scopes InView node binding)
    (bindings : ∀ id found, scopes.binding? id = some found → other.binding? id = some found)
    (views : ∀ scope, InView scope → Also scope) : Redirected tree other Also node binding := by
  obtain ⟨id, found, path, atId, text, inView, stands, hangs⟩ := redirected.meaning
  exact { redirected with
    meaning := ⟨id, found, path, bindings id found atId, text, views _ inView, stands, hangs⟩ }

end Scopes

namespace Pass

variable {tree : Tree} {Region : NodeId → Prop} {later trace : List NodeId} {before pass after : Pass}

/-- Where the pass came to the node: at its mark, or for the name of a declaration, which has none, at
the mark of its parent. -/
def Placed (tree : Tree) (seen : List NodeId) (pass : Pass) (node : NodeId) (mark : Mark) : Prop :=
  node ∈ seen ∧ (pass.marks[node]? = some mark ∨ pass.marks[node]? = none ∧
    ∃ owner ∈ seen, tree.parent node = some owner ∧ pass.marks[owner]? = some mark)

/-- The scope is the one of the node or lies around it. -/
def InView (tree : Tree) (seen : List NodeId) (pass : Pass) (node : NodeId) (scope : ScopeId) : Prop :=
  scope = root ∨ ∃ mark, Placed tree seen pass node mark ∧ pass.scopes.Inside mark.scope scope

/-- The node refers to a binding in view, which has its name unless the reference was redirected. -/
def Resolved (tree : Tree) (seen : List NodeId) (pass : Pass) (node : NodeId) (id : BindingId) : Prop :=
  ∃ binding, pass.scopes.binding? id = some binding ∧ InView tree seen pass node binding.scope ∧
    (tree.text node = some binding.name ∨
      pass.scopes.Redirected tree (InView tree seen pass node) node binding)

/-- The scopes form a tree, the names of a scope lead to its own bindings, only nodes that were seen
have marks, and references resolve to what is in view. -/
structure Lexical (tree : Tree) (seen : List NodeId) (pass : Pass) : Prop where
  current : pass.current < pass.scopes.scopes.size
  rooted : ∀ id < pass.scopes.scopes.size, pass.scopes.Inside id root
  names : ∀ (id : ScopeId) (scope : Scope), pass.scopes.scopes[id]? = some scope →
    ∀ (name : String) (binding : BindingId), scope.current[name]? = some binding →
      ∃ found, pass.scopes.binding? binding = some found ∧ found.name = name ∧ found.scope = id
  marks : ∀ (node : NodeId) (mark : Mark), pass.marks[node]? = some mark →
    node ∈ seen ∧ mark.scope < pass.scopes.scopes.size
  references : ∀ node id, pass.scopes.resolution? node = some (.bound id) →
    Resolved tree seen pass node id

/-- Scopes stay where they are, bindings stay what they are, and no node that was seen gets another
mark. -/
structure Keeps (seen : List NodeId) (before after : Pass) : Prop where
  parents : ∀ inner outer, before.scopes.parent? inner = some outer →
    after.scopes.parent? inner = some outer
  bindings : ∀ id binding, before.scopes.binding? id = some binding →
    after.scopes.binding? id = some binding
  marks : ∀ node ∈ seen, after.marks[node]? = before.marks[node]?

theorem InView.keep (inView : InView tree seen before node scope)
    (keeps : Keeps seen before after) (more : seen ⊆ later) : InView tree later after node scope := by
  rcases inView with root | ⟨mark, ⟨old, marked⟩, inside⟩
  · exact .inl root
  refine .inr ⟨mark, ⟨more old, ?_⟩, inside.mono keeps.parents⟩
  rw [keeps.marks node old]
  refine marked.imp_right ?_
  rintro ⟨unmarked, owner, oldOwner, link, atOwner⟩
  exact ⟨unmarked, owner, more oldOwner, link, (keeps.marks owner oldOwner).trans atOwner⟩

theorem Resolved.keep {id : BindingId} (resolved : Resolved tree seen before node id)
    (keeps : Keeps seen before after) (more : seen ⊆ later) : Resolved tree later after node id := by
  obtain ⟨binding, atId, inView, name⟩ := resolved
  refine ⟨binding, keeps.bindings id binding atId, inView.keep keeps more, name.imp_right ?_⟩
  exact fun redirected => redirected.mono keeps.bindings fun _ inView => inView.keep keeps more

theorem lexical_start (tree : Tree) : Lexical tree [] start where
  current := Nat.zero_lt_one
  rooted := fun id inside => by
    cases Nat.lt_one_iff.1 inside
    exact .refl
  names := by
    intro id scope found name binding named
    have record := mem_singleton.1 (Array.mem_toList_iff.2 (Array.mem_of_getElem? found))
    rw [record] at named
    cases Std.TreeMap.getElem?_emptyc.symm.trans named
  marks := fun _ _ marked => nomatch Std.TreeMap.getElem?_emptyc.symm.trans marked
  references := fun _ _ found => nomatch Std.TreeMap.getElem?_emptyc.symm.trans found

section

variable (lexical : Lexical tree seen pass)
include lexical

theorem Lexical.weaken (more : seen ⊆ later) : Lexical tree later pass :=
  { lexical with
    marks := fun node mark marked => (lexical.marks node mark marked).imp_left fun old => more old
    references := fun node id found => (lexical.references node id found).keep
      ⟨fun _ _ link => link, fun _ _ found => found, fun _ _ => rfl⟩ more }

theorem Lexical.mark (fresh : node ∉ seen) : Lexical tree (seen ++ [node]) (pass.mark node) := by
  have more : seen ⊆ seen ++ [node] := subset_append_left _ _
  have keeps : Keeps seen pass (pass.mark node) := by
    refine ⟨fun _ _ link => link, fun _ _ found => found, fun other old => ?_⟩
    exact getElem?_insert_of_ne fun same => fresh (same ▸ old)
  refine { lexical with
    marks := fun other mark marked => ?_
    references := fun other id found => (lexical.references other id found).keep keeps more }
  rcases eq_or_of_getElem?_insert marked with ⟨rfl, rfl⟩ | marked
  · exact ⟨mem_append_right _ mem_cons_self, lexical.current⟩
  · exact (lexical.marks other mark marked).imp_left fun old => more old

theorem Lexical.record {resolution : Resolution}
    (resolved : ∀ id, resolution = .bound id → Resolved tree seen pass node id) :
    Lexical tree seen (pass.record node resolution) := by
  have keeps : Keeps seen pass (pass.record node resolution) :=
    ⟨fun _ _ link => link, fun _ _ found => found, fun _ _ => rfl⟩
  refine { lexical with references := fun other id found => ?_ }
  rcases eq_or_of_getElem?_insert found with ⟨rfl, same⟩ | found
  · exact (resolved id same).keep keeps (Subset.refl _)
  · exact (lexical.references other id found).keep keeps (Subset.refl _)

end

theorem keeps_declare (seen : List NodeId) (pass : Pass) (binding : Binding) :
    Keeps seen pass (pass.declare binding).2 := by
  refine ⟨fun inner outer link => (parent?_declare _ _ _).trans link, fun id old found => ?_,
    fun _ _ => rfl⟩
  obtain ⟨inside, _⟩ := Array.getElem?_eq_some_iff.1 found
  exact Array.getElem?_push.trans ((if_neg (Nat.ne_of_lt inside)).trans found)

theorem binding?_declare (pass : Pass) (binding : Binding) :
    (pass.declare binding).2.scopes.binding? (pass.declare binding).1 = some binding :=
  Array.getElem?_push_size

theorem size_declare (pass : Pass) (binding : Binding) :
    (pass.declare binding).2.scopes.scopes.size = pass.scopes.scopes.size :=
  Array.size_modify

namespace Lexical

variable (lexical : Lexical tree seen pass)
include lexical

theorem declare (binding : Binding) : Lexical tree seen (pass.declare binding).2 := by
  have keeps := keeps_declare seen pass binding
  have size := size_declare pass binding
  refine ⟨?_, fun id inside => ?_, ?_, fun node mark marked => ?_, fun node id found => ?_⟩
  · rw [size]
    exact lexical.current
  · rw [size] at inside
    exact (lexical.rooted id inside).mono keeps.parents
  · have kept {id : ScopeId} {scope : Scope} (old : pass.scopes.scopes[id]? = some scope)
        {name : String} {other : BindingId} (named : scope.current[name]? = some other) :
        ∃ found, (pass.declare binding).2.scopes.binding? other = some found ∧ found.name = name ∧
          found.scope = id := by
      obtain ⟨found, atOther, facts⟩ := lexical.names id scope old name other named
      exact ⟨found, keeps.bindings other found atOther, facts⟩
    intro id scope found name other named
    rw [Pass.declare, Scopes.declare, Array.getElem?_modify] at found
    split at found
    · rename_i here
      obtain ⟨old, atId, rfl⟩ := map_eq_some_iff.1 found
      rw [Std.TreeMap.getElem?_insert] at named
      split at named
      · rename_i same
        rw [Std.compare_eq_iff_eq] at same
        cases named
        exact ⟨binding, binding?_declare pass binding, same, here⟩
      · exact kept atId named
    · exact kept found named
  · rw [size]
    exact lexical.marks node mark marked
  · exact (lexical.references node id found).keep keeps (Subset.refl _)

/-- A new binding that is in view at the node which refers to it. -/
theorem introduce (inView : InView tree seen pass node binding.scope)
    (name : tree.text node = some binding.name ∨ pass.scopes.Redirected tree (InView tree seen pass node) node
      binding) : Lexical tree seen (pass.introduce node binding) := by
  have keeps := keeps_declare seen pass binding
  have views (scope : ScopeId) (old : InView tree seen pass node scope) :=
    old.keep keeps (Subset.refl seen)
  refine (lexical.declare binding).record fun id same => ?_
  cases same
  refine ⟨binding, binding?_declare pass binding, views _ inView, name.imp_right ?_⟩
  exact fun redirected => redirected.mono keeps.bindings views

theorem inView_of_here (here : Here pass node)
    (inside : pass.scopes.Inside pass.current scope) : InView tree seen pass node scope := by
  obtain ⟨mark, marked, current⟩ := here
  exact .inr ⟨mark, ⟨(lexical.marks node mark marked).1, .inl marked⟩, current ▸ inside⟩

theorem reference (here : Here pass node) : Lexical tree seen (pass.reference tree node) := by
  unfold Pass.reference
  split
  · exact lexical
  rename_i name text
  refine lexical.record fun id same => ?_
  split at same
  · rename_i found
    cases same
    obtain ⟨outer, scope, inside, atOuter, named⟩ := exists_of_lookup found
    obtain ⟨binding, atId, rfl, rfl⟩ := lexical.names outer scope atOuter name id named
    exact ⟨binding, atId, lexical.inView_of_here here inside, .inl text⟩
  · cases same

theorem bind (here : Here pass node) (named : Named tree pass node binding) :
    Lexical tree seen (pass.introduce node binding) := by
  refine lexical.introduce ?_ (.inl named.text)
  rw [named.scope]
  exact lexical.inView_of_here here .refl

/-- A path that is written to hangs off the name at its root, or off one that this name stands for. -/
theorem imply (implied : Implied tree pass node binding) :
    Lexical tree seen (pass.introduce node binding) := by
  refine lexical.introduce (.inl implied.scope) ?_
  obtain ⟨target, chain, left, atRoot, found, root⟩ := implied.written
  obtain ⟨identifier, alsoAtRoot, origin⟩ := root_undeclared found root
  cases atRoot.symm.trans alsoAtRoot
  refine origin.imp_right ?_
  rintro ⟨id, other, path, bound, atId, stands, hangs⟩
  obtain ⟨same, atSame, inView, name⟩ := lexical.references node id bound
  cases atId.symm.trans atSame
  -- An alias has a path, and what a reference was redirected to has none.
  have text : tree.text node = some other.name := name.resolve_right fun redirected => by
    rw [redirected.pathless] at stands
    cases stands
  exact ⟨implied.kind, implied.scope, implied.pathless, ⟨target, left, atRoot⟩,
    ⟨id, other, path, atId, text, inView, stands, hangs⟩⟩

theorem name (proper : tree.Proper) {owner : NodeId} (child : node ∈ tree.children owner)
    (here : Here pass owner) (fresh : node ∉ seen) (named : Named tree pass node binding) :
    Lexical tree (seen ++ [node]) (pass.introduce node binding) := by
  have more : seen ⊆ seen ++ [node] := subset_append_left _ _
  -- The name has no mark and gets none, so that its place stays that of the declaration.
  have unmarked : pass.marks[node]? = none := by
    refine eq_none_iff_forall_ne_some.2 fun mark marked => ?_
    exact fresh (lexical.marks node mark marked).1
  obtain ⟨mark, atOwner, current⟩ := here
  have placed : Placed tree (seen ++ [node]) pass node mark :=
    ⟨mem_append_right _ mem_cons_self, .inr ⟨unmarked, owner,
      more (lexical.marks owner mark atOwner).1, proper.parent owner node child, atOwner⟩⟩
  refine (lexical.weaken more).introduce (.inr ⟨mark, placed, ?_⟩) (.inl named.text)
  rw [named.scope, current]
  exact .refl

end Lexical

theorem size_enter (pass : Pass) (kind : ScopeKind) (site : NodeId) :
    (pass.enter kind site).scopes.scopes.size = pass.scopes.scopes.size + 1 :=
  Array.size_push _

theorem Lexical.enter (lexical : Lexical tree seen pass) (kind : ScopeKind) (site : NodeId) :
    Lexical tree seen (pass.enter kind site) := by
  have link : (pass.enter kind site).scopes.parent? pass.scopes.scopes.size = some pass.current := by
    rw [Pass.enter, parent?_openScope, if_pos rfl, if_pos lexical.current]
  have keeps : Keeps seen pass (pass.enter kind site) := by
    refine ⟨fun inner outer link => ?_, fun _ _ found => found, fun _ _ => rfl⟩
    obtain ⟨scope, found, _⟩ := bind_eq_some_iff.1 link
    have old := (Array.getElem?_eq_some_iff.1 found).1
    rw [Pass.enter, parent?_openScope, if_neg (Nat.ne_of_lt old), link]
  refine ⟨?_, fun id inside => ?_, fun id scope found name binding named => ?_,
    fun node mark marked => ?_, fun node id found => ?_⟩
  · rw [size_enter]
    exact Nat.lt_succ_self _
  · rw [size_enter] at inside
    rcases Nat.lt_succ_iff_lt_or_eq.1 inside with old | rfl
    · exact (lexical.rooted id old).mono keeps.parents
    · exact .head link ((lexical.rooted _ lexical.current).mono keeps.parents)
  · rw [Pass.enter, openScope, Array.getElem?_push] at found
    split at found
    · cases found
      cases Std.TreeMap.getElem?_emptyc.symm.trans named
    · exact lexical.names id scope found name binding named
  · rw [size_enter]
    exact (lexical.marks node mark marked).imp_right Nat.lt_succ_of_lt
  · exact (lexical.references node id found).keep keeps (Subset.refl _)

theorem Lexical.leave (lexical : Lexical tree seen pass)
    (held : outer < pass.scopes.scopes.size) : Lexical tree seen { pass with current := outer } :=
  { lexical with current := held }

theorem Move.lexical (step : Move tree Region before after) (lexical : Lexical tree seen before) :
    Lexical tree seen after := by
  cases step with
  | refer _ here => exact lexical.reference here
  | bind _ here named => exact lexical.bind here named
  | imply _ implied => exact lexical.imply implied
  | _ => exact { lexical with }

theorem Move.scopes_eq (step : Move tree Region before after) :
    after.scopes.scopes.size = before.scopes.scopes.size := by
  cases step with
  | refer =>
    unfold reference
    split <;> rfl
  | bind | imply => exact size_declare _ _
  | _ => rfl

theorem Course.scopes_le (course : Course tree Region before trace after) :
    before.scopes.scopes.size ≤ after.scopes.scopes.size := by
  induction course with
  | start => exact Nat.le_refl _
  | mark _ _ ih => exact ih
  | name _ _ _ _ _ ih => exact Nat.le_trans ih (Nat.le_of_eq (size_declare _ _).symm)
  | move _ step ih => exact Nat.le_trans ih (Nat.le_of_eq step.scopes_eq.symm)
  | @scope before pass last _ _ kind node _ _ ih ihInner =>
    calc before.scopes.scopes.size
      _ ≤ pass.scopes.scopes.size := ih
      _ ≤ (pass.enter kind node).scopes.scopes.size := by rw [size_enter]; exact Nat.le_succ _
      _ ≤ last.scopes.scopes.size := ihInner

/-- References stay lexical as long as the pass comes to no node twice. -/
theorem Course.lexical (course : Course tree Region before trace after) (proper : tree.Proper)
    (lexical : Lexical tree seen before) (distinct : (seen ++ trace).Nodup) :
    Lexical tree (seen ++ trace) after := by
  induction course generalizing seen with
  | start => rwa [append_nil]
  | mark _ _ ih =>
    rw [← append_assoc] at distinct ⊢
    obtain ⟨apart, _, fresh⟩ := nodup_append.1 distinct
    exact (ih lexical apart).mark fun old => fresh _ old _ (.head _) rfl
  | name _ _ child here named ih =>
    rw [← append_assoc] at distinct ⊢
    obtain ⟨apart, _, fresh⟩ := nodup_append.1 distinct
    exact (ih lexical apart).name proper child here
      (fun old => fresh _ old _ (.head _) rfl) named
  | move _ step ih => exact step.lexical (ih lexical distinct)
  | @scope before pass last trace inner kind node _ rest ih ihInner =>
    rw [← append_assoc] at distinct ⊢
    have outer := ih lexical (nodup_append.1 distinct).1
    have grown := rest.scopes_le
    rw [size_enter] at grown
    exact (ihInner (outer.enter kind node) distinct).leave
      (Nat.lt_of_lt_of_le (Nat.lt_succ_of_lt outer.current) grown)

theorem lexical_run (proper : tree.Proper)
    (run : run tree blocks limits = .ok pass) : ∃ seen, Lexical tree seen pass := by
  obtain ⟨trace, course, listed, same, inside⟩ := within_run run
  have distinct : trace.Nodup :=
    same.nodup_iff.1 ((proper.nodup_subtree tree.root).sublist inside)
  exact ⟨trace, course.lexical proper (lexical_start tree) distinct⟩

end Pass

namespace Model

variable {tree : Tree} {model : Model} {pass : Pass} {id : BindingId}

theorem scopeOf_of_placed {mark : Mark} (placed : pass.Placed tree seen node mark) :
    (pass.model tree).scopeOf node = mark.scope := by
  suffices found : (pass.model tree).markOf? node = some mark by rw [scopeOf, found]
  rw [markOf?, findSome?_cons]
  rcases placed.2 with marked | ⟨unmarked, owner, _, link, marked⟩
  · simp only [model_marks, marked]
  · simp only [model_marks, model_tree, unmarked, Tree.ancestors_of_some link,
      findSome?_cons, marked]

theorem scopeOf_inside (lexical : pass.Lexical tree seen) (node : NodeId) :
    pass.scopes.Inside ((pass.model tree).scopeOf node) root := by
  unfold scopeOf
  split
  · rename_i mark found
    obtain ⟨marked, _, atMarked⟩ := exists_of_findSome?_eq_some found
    exact lexical.rooted mark.scope (lexical.marks marked mark atMarked).2
  · exact .refl

theorem isWithin_of_inView (lexical : pass.Lexical tree seen) (inView : pass.InView tree seen node scope) :
    pass.scopes.isWithin ((pass.model tree).scopeOf node) scope = true := by
  rw [isWithin_iff]
  rcases inView with rfl | ⟨mark, placed, inside⟩
  · exact scopeOf_inside lexical node
  · rw [scopeOf_of_placed placed]
    exact inside

/-- References resolve lexically. A node that refers to a binding stands in its scope or inside it, and
has its name. There is one exception, where a path is written to through an alias of something that
nothing declares: then the name at the root of the path refers to what the write binds, and no longer to
the alias. -/
theorem resolution_lexical (proper : tree.Proper) (analysed : Model.ofTree tree blocks limits = .ok model)
    (bound : model.resolution node = .bound id) :
    ∃ binding, model.scopes.binding? id = some binding ∧
      model.scopes.isWithin (model.scopeOf node) binding.scope = true ∧
      (tree.text node = some binding.name ∨ model.scopes.Redirected tree
        (fun scope => model.scopes.isWithin (model.scopeOf node) scope = true) node binding) := by
  obtain ⟨pass, run, rfl⟩ := Model.ofTree_eq_ok.1 analysed
  obtain ⟨seen, lexical⟩ := lexical_run proper run
  have recorded : pass.scopes.resolution? node = some (.bound id) := by
    unfold resolution at bound
    cases found : pass.scopes.resolution? node with
    | none =>
      rw [model_scopes, found] at bound
      cases bound
    | some resolution =>
      rw [model_scopes, found] at bound
      exact congrArg some bound
  obtain ⟨binding, atId, inView, name⟩ := lexical.references node id recorded
  refine ⟨binding, atId, isWithin_of_inView lexical inView, name.imp_right fun redirected => ?_⟩
  exact redirected.mono (fun _ _ found => found) fun _ inView => isWithin_of_inView lexical inView

/-- In `const a = b.c; a.d = 1;` the second `a` refers to a binding named `b`. -/
theorem resolution_lexical_alias :
    let tree := Script.tree "alias.js" "const a = b.c;\na.d = 1;\n"
    ∃ model binding, tree.Proper ∧ Model.ofTree tree false {} = .ok model ∧
      model.tree.kind 6 = .identifier ∧ model.tree.text 6 = some "a" ∧
      model.resolution 6 = .bound 1 ∧ model.scopes.binding? 1 = some binding ∧ binding.name = "b" ∧
      model.scopes.isWithin (model.scopeOf 6) binding.scope = true ∧
      model.scopes.Redirected model.tree
        (fun scope => model.scopes.isWithin (model.scopeOf 6) scope = true) 6 binding := by
  intro tree
  have proper : tree.Proper := Outline.proper_toTree _ _ _ _
  obtain ⟨kind, text, model, analysed, bound, named⟩ : tree.kind 6 = .identifier ∧ tree.text 6 = some "a" ∧
      ∃ model, Model.ofTree tree false {} = .ok model ∧ model.resolution 6 = .bound 1 ∧
      ∀ binding ∈ model.scopes.binding? 1, binding.name = "b" := by
    decide +kernel
  obtain ⟨binding, atId, within, name⟩ := resolution_lexical proper analysed bound
  have b := named binding atId
  have redirected := name.resolve_left fun same => by
    rw [text, b] at same
    exact absurd same (by decide)
  refine ⟨model, binding, proper, analysed, ?_⟩
  rw [tree_of_ofTree analysed]
  exact ⟨kind, text, bound, atId, b, within, redirected⟩

end Model

end LeakTrace
