import LeakTrace.Proofs.Flow.Continued
import LeakTrace.Proofs.Flow.Evaluation
import LeakTrace.Proofs.Flow.Lexical

namespace LeakTrace

open Option Pass Chain

variable {node : NodeId} {unknown blocks : Bool} {name : String} {limits : Limits}

namespace Tree

/-- The key by which a member access or an index goes on. An index that is no literal goes on by an unknown
one. -/
def accessKey? (tree : Tree) (node : NodeId) : Option (Option Key) :=
  match tree.kind node with
  | .member => ((tree.child? node .property).bind tree.text).map fun name => some (.name name)
  | .index => (tree.child? node .index).map tree.indexKey?
  | _ => none

/-- The access path at a node hangs off an identifier by these keys. They end where a key is unknown. -/
inductive Hangs (tree : Tree) (identifier : NodeId) : List Key → (unknown : Bool) → NodeId → Prop
  | name : tree.kind identifier = .identifier → Hangs tree identifier [] false identifier
  | known {keys : List Key} {key : Key} {object node : NodeId} : Hangs tree identifier keys false object →
      tree.child? node .object = some object → tree.accessKey? node = some (some key) →
      Hangs tree identifier (keys ++ [key]) false node
  | unknown {keys : List Key} {object node : NodeId} : Hangs tree identifier keys false object →
      tree.child? node .object = some object → tree.accessKey? node = some none →
      Hangs tree identifier keys true node
  | beyond {keys : List Key} {key : Option Key} {object node : NodeId} :
      Hangs tree identifier keys true object → tree.child? node .object = some object →
      tree.accessKey? node = some key → Hangs tree identifier keys true node

end Tree

namespace Chain

variable {tree : Tree} {scopes other : Scopes} {object : NodeId} {identifier : NodeId} {keys : List Key}

/-- A longer access path goes on from the shorter one. -/
theorem written?_of_accessKey? {key : Option Key} (found : tree.child? node .object = some object)
    (access : tree.accessKey? node = some key) :
    written? tree scopes node = (written? tree scopes object).map (·.step key) := by
  rw [written?_eq]
  unfold Tree.accessKey? at access
  split at access
  · rename_i kind
    obtain ⟨name, text, rfl⟩ := map_eq_some_iff.1 access
    simp only [kind, text, found, bind_some]
  · rename_i kind
    obtain ⟨index, atIndex, rfl⟩ := map_eq_some_iff.1 access
    simp only [kind, atIndex, found, bind_some]
  · cases access

theorem written?_of_hangs {id : BindingId}
    (hangs : tree.Hangs identifier keys unknown node) (text : tree.text identifier = some name)
    (bound : scopes.resolution? identifier = some (.bound id)) : written? tree scopes node =
      some { root := .binding id name, segments := keys, unknownTail := unknown } := by
  induction hangs with
  | name kind => simp [written?_eq, kind, text, bound]
  | known _ found access ih =>
    rw [written?_of_accessKey? found access, ih]
    rfl
  | unknown _ found access ih =>
    rw [written?_of_accessKey? found access, ih]
    rfl
  | beyond _ found access ih =>
    rw [written?_of_accessKey? found access, ih]
    rfl

theorem isAccess_of_hangs (hangs : tree.Hangs identifier keys unknown node) :
    (tree.kind node).isAccess = true := by
  have keyed {node : NodeId} {key : Option Key} (access : tree.accessKey? node = some key) :
      (tree.kind node).isAccess = true := by
    unfold Tree.accessKey? at access
    split at access
    · rename_i kind
      rw [kind]
      rfl
    · rename_i kind
      rw [kind]
      rfl
    · cases access
  cases hangs with
  | name kind =>
    rw [kind]
    rfl
  | known _ _ access => exact keyed access
  | unknown _ _ access => exact keyed access
  | beyond _ _ access => exact keyed access

/-- The path at a node depends on what the identifier at its root refers to. -/
theorem written?_congr
    (same : ∀ identifier ∈ tree.rootIdentifier? node,
      other.resolution? identifier = scopes.resolution? identifier) :
    written? tree other node = written? tree scopes node := by
  induction node using Nat.strongRecOn with | ind node ih
  rw [Tree.rootIdentifier?_eq] at same
  rw [written?_eq, written?_eq]
  cases kind : tree.kind node
  case identifier =>
    rw [kind] at same
    simp only [same node rfl]
  case member | index =>
    rw [kind] at same
    refine bind_congr fun _ _ => bind_congr fun object found => ?_
    rw [ih object (Tree.lt_of_child? found) fun identifier root =>
      same identifier (bind_eq_some_iff.2 ⟨object, found, root⟩)]
  all_goals rfl

end Chain

namespace Pass

variable {tree : Tree} {Region : NodeId → Prop} {before after final : Pass} {epoch : Nat} {limit : Nat}
  {path : Option Chain} {reference : NodeId} {id : BindingId}

theorem Extends.chain?_eq (extend : Extends Region epoch before after) (sound : before.Sound)
    (outside : ∀ identifier ∈ tree.rootIdentifier? node, ¬Region identifier) :
    after.chain? tree node = before.chain? tree node := by
  have same : written? tree after.scopes node = written? tree before.scopes node :=
    written?_congr fun identifier root => extend.references identifier (outside identifier root)
  rw [chain?, chain?, resolve?_eq, resolve?_eq, same]
  split
  · cases written : written? tree before.scopes node with
    | none => rfl
    | some chain =>
      exact congrArg some (extend.expandAlias fun id name root => sound.written? written root)
  · rfl

theorem bindIdentifier_eq {pattern site : NodeId} {shape : Option ShapeId} {kind : BindingKind}
    (text : tree.text pattern = some name) :
    ∃ middle binding, before.bindIdentifier tree pattern shape path kind site =
      introduce middle pattern binding ∧ binding.name = name ∧ binding.path = path := by
  unfold bindIdentifier
  rw [text]
  dsimp only
  split <;> exact ⟨_, _, rfl, rfl, rfl⟩

/-- A name in a pattern is bound to the path that it took apart, if this has keys and hangs off a name. -/
theorem Taken.exists_binding (taken : Taken tree blocks limit final path node)
    (identifier : tree.kind node = .identifier) (text : tree.text node = some name) :
    ∃ id binding, final.scopes.resolution? node = some (.bound id) ∧
      final.scopes.binding? id = some binding ∧ binding.name = name ∧
      binding.path = path.filter fun chain => !chain.segments.isEmpty && !chain.isUnnamed := by
  obtain ⟨room, subject, first, last, run, _, _, rfl, extend⟩ := taken.exists_body
  simp only [bindBody, identifier] at run
  obtain ⟨middle, binding, same, named, stands⟩ := bindIdentifier_eq text
  have bound : last = introduce middle node binding := (Except.ok.inj run).symm.trans same
  refine ⟨middle.scopes.bindings.size, binding, ?_, ?_, named, stands⟩
  · rw [extend.references node fun outside => outside (tree.mem_subtree_self node), bound]
    exact Std.TreeMap.getElem?_insert_self
  · refine extend.bindings _ _ ?_
    rw [bound]
    exact Array.getElem?_push_size

/-- What hangs off a name that stands for a path goes on from the path. -/
theorem chain?_of_hangs {pass : Pass} {access : NodeId} {binding : Binding} {path : Chain} {own : List Key}
    (text : tree.text reference = some name) (bound : pass.scopes.resolution? reference = some (.bound id))
    (atId : pass.scopes.binding? id = some binding) (stands : binding.path = some path)
    (hangs : tree.Hangs reference own unknown access) : pass.chain? tree access = some
      { root := path.root
        segments := path.segments ++ own
        unknownTail := path.unknownTail || unknown } := by
  rw [chain?, resolve?_eq, if_pos (isAccess_of_hangs hangs),
    written?_of_hangs hangs text bound]
  simp only [map_some, Scopes.expandAlias, atId, bind_some, stands]

theorem exists_text (proper : tree.Proper) (run : run tree blocks limits = .ok final)
    (bound : final.scopes.resolution? reference = some (.bound id)) :
    ∃ name, tree.text reference = some name := by
  obtain ⟨seen, lexical⟩ := lexical_run proper run
  obtain ⟨binding, _, _, named | redirected⟩ := lexical.references reference id bound
  · exact ⟨_, named⟩
  · obtain ⟨_, other, _, _, named, _⟩ := redirected.meaning
    exact ⟨_, named⟩

end Pass

namespace Model

variable {tree : Tree} {model : Model}

theorem resolution?_of_bound {id : BindingId} (bound : model.resolution node = .bound id) :
    model.scopes.resolution? node = some (.bound id) := by
  unfold resolution at bound
  cases found : model.scopes.resolution? node with
  | none =>
    rw [found] at bound
    cases bound
  | some resolution =>
    rw [found] at bound
    exact congrArg some bound

/-- Taking a value apart gives names to the paths of its parts. Wherever a declaration, an assignment or a
parameter is evaluated that takes apart a value with a path, each name in the pattern has a binding. If the
keys on the way to the name are known, the binding stands for the path of the value followed by these keys,
and every access path that hangs off a reference to the binding goes on from there. If the way passes
through an array, a rest or a key that is not static, the binding stands for no path. -/
theorem destructuring_aliases {site top value node : NodeId} {chain : Chain} {keys : Option (List Key)}
    {name : String} (proper : tree.Proper) (analysed : Model.ofTree tree blocks limits = .ok model)
    (evaluated : tree.Evaluated site) (takes : tree.pattern? site = some top)
    (source : tree.source? site = some value) (resolved : model.chain? value = some chain)
    (named : chain.isUnnamed = false) (certain : chain.unknownTail = false)
    (reaches : tree.Reaches top keys node) (identifier : tree.kind node = .identifier)
    (text : tree.text node = some name) :
    ∃ id binding, model.resolution node = .bound id ∧ model.scopes.binding? id = some binding ∧
      binding.name = name ∧ (keys = none → binding.path = none) ∧
      ∀ path, keys = some path → path ≠ [] →
        binding.path = some { chain with segments := chain.segments ++ path } ∧
        ∀ reference own unknown access, model.resolution reference = .bound id →
          tree.Hangs reference own unknown access →
          model.chain? access = some
            { root := chain.root, segments := chain.segments ++ path ++ own, unknownTail := unknown } := by
  obtain ⟨final, run, rfl⟩ := Model.ofTree_eq_ok.1 analysed
  obtain ⟨shaped, sound, taken, kept⟩ :=
    (visited_of_evaluated proper run evaluated).pattern proper takes
  have same : final.chain? tree value = shaped.chain? tree value :=
    (kept value source).chain?_eq sound fun identifier root outside =>
      outside (mem_subtree_rootIdentifier? root)
  have whole : (tree.source? site).bind (shaped.patternChain? tree) = some chain := by
    have found : shaped.chain? tree value = some chain := same.symm.trans resolved
    simp [source, patternChain?, found, certain]
  rw [whole] at taken
  obtain ⟨id, binding, bound, atId, isNamed, stands⟩ :=
    (taken.reaches proper reaches).exists_binding identifier text
  have resolution : (final.model tree).resolution node = .bound id := by
    rw [Model.resolution, model_scopes, bound]
    rfl
  refine ⟨id, binding, resolution, atId, isNamed, fun unknown => ?_, fun path known keyed => ?_⟩
  · rw [stands, unknown]
    rfl
  · have expanded : binding.path = some { chain with segments := chain.segments ++ path } := by
      have unnamed : ({ chain with segments := chain.segments ++ path } : Chain).isUnnamed = false := named
      rw [stands, known]
      simp [along, unnamed, keyed]
    refine ⟨expanded, fun reference own unknown access refers hangs => ?_⟩
    have recorded := resolution?_of_bound refers
    obtain ⟨text, written⟩ := exists_text proper run recorded
    have goes := chain?_of_hangs written recorded atId expanded hangs
    rw [certain, Bool.false_or] at goes
    exact goes

/-- In `const { a: { c = 1 }, ...r } = b.e; c.d;` the name `c` stands for `b.e.a.c`, the path at the end is
`b.e.a.c.d`, and `r` stands for no path. -/
theorem destructuring_aliases_nested :
    let tree := Script.tree "parts.js" "const \x7b a: \x7b c = 1 \x7d, ...r \x7d = b.e;\nc.d;\n"
    ∃ model c r, Model.ofTree tree false {} = .ok model ∧ tree.Evaluated 14 ∧
      tree.pattern? 14 = some 10 ∧ tree.source? 14 = some 13 ∧
      model.chain? 13 = some { root := .undeclared "b", segments := [.name "e"] } ∧
      tree.Reaches 10 (some [.name "a", .name "c"]) 2 ∧ tree.Reaches 10 none 8 ∧
      model.scopes.binding? 0 = some c ∧
      c.path = some { root := .undeclared "b", segments := [.name "e", .name "a", .name "c"] } ∧
      model.chain? 18 =
        some { root := .undeclared "b", segments := [.name "e", .name "a", .name "c", .name "d"] } ∧
      model.scopes.binding? 1 = some r ∧ r.path = none := by
  intro tree
  have proper : tree.Proper := Outline.proper_toTree _ _ _ _
  obtain ⟨model, analysed, atC, atR, atReference, resolved⟩ : ∃ model, Model.ofTree tree false {} = .ok model ∧
      model.resolution 2 = .bound 0 ∧ model.resolution 8 = .bound 1 ∧ model.resolution 16 = .bound 0 ∧
      model.chain? 13 = some { root := .undeclared "b", segments := [.name "e"] } := by
    decide +kernel
  obtain ⟨statement, declaration, takes, source⟩ : 15 ∈ tree.operands tree.root ∧
      14 ∈ tree.operands 15 ∧ tree.pattern? 14 = some 10 ∧ tree.source? 14 = some 13 := by
    decide +kernel
  have evaluated : tree.Evaluated 14 := .operand (.operand .root statement) declaration
  obtain ⟨outer, pair, spread, inner, rest⟩ : tree.kind 10 = .objectPattern ∧
      7 ∈ tree.codeChildren 10 ∧ 9 ∈ tree.codeChildren 10 ∧ tree.kind 9 = .spread ∧
      8 ∈ tree.codeChildren 9 := by
    decide +kernel
  have reachesA : tree.Reaches 10 (some [.name "a"]) 6 := by
    obtain ⟨kind, value, key⟩ : tree.kind 7 = .pair ∧ tree.child? 7 .value = some 6 ∧
        (tree.child? 7 .key).bind tree.entryKey? = some (.name "a") := by
      decide +kernel
    have way : tree.Reaches 10 _ 6 := .pair .top outer pair kind value
    rwa [key] at way
  have reachesC : tree.Reaches 10 (some [.name "a", .name "c"]) 2 := by
    obtain ⟨object, member, kind, value, key, wrapper, left⟩ : tree.kind 6 = .objectPattern ∧
        5 ∈ tree.codeChildren 6 ∧ tree.kind 5 = .pair ∧ tree.child? 5 .value = some 4 ∧
        (tree.child? 5 .key).bind tree.entryKey? = some (.name "c") ∧ tree.kind 4 = .assignment ∧
        tree.child? 4 .left = some 2 := by
      decide +kernel
    have way : tree.Reaches 10 _ 4 := .pair reachesA object member kind value
    rw [key] at way
    exact .default way wrapper left
  have reachesR : tree.Reaches 10 none 8 := by
    refine .other .top outer spread ?_ ?_ rest
    all_goals
      rw [inner]
      decide
  obtain ⟨kindC, textC, kindR, textR⟩ : tree.kind 2 = .identifier ∧ tree.text 2 = some "c" ∧
      tree.kind 8 = .identifier ∧ tree.text 8 = some "r" := by
    decide +kernel
  obtain ⟨first, c, boundC, atFirst, _, _, aliased⟩ := destructuring_aliases proper analysed evaluated takes
    source resolved rfl rfl reachesC kindC textC
  obtain ⟨second, r, boundR, atSecond, _, pathless, _⟩ := destructuring_aliases proper analysed evaluated
    takes source resolved rfl rfl reachesR kindR textR
  cases Resolution.bound.inj (atC.symm.trans boundC)
  cases Resolution.bound.inj (atR.symm.trans boundR)
  obtain ⟨stands, goes⟩ := aliased _ rfl (by simp)
  obtain ⟨reference, object, access⟩ : tree.kind 16 = .identifier ∧
      tree.child? 18 .object = some 16 ∧ tree.accessKey? 18 = some (some (.name "d")) := by
    decide +kernel
  have hangs : tree.Hangs 16 [.name "d"] false 18 := .known (.name reference) object access
  exact ⟨model, c, r, analysed, evaluated, takes, source, resolved, reachesC, reachesR, atFirst, stands,
    goes 16 _ false 18 atReference hangs, atSecond, pathless rfl⟩

end Model

end LeakTrace
