import LeakTrace.Proofs.Flow.Chart
import LeakTrace.Script.Program

namespace LeakTrace

open List LeakTrace.Tree Pass Layout Std.TreeMap

variable {tree : Tree} {blocks : Bool} {limits : Limits} {pass : Pass} {node : NodeId}

/-- The scope that a node opened. -/
def Scopes.openedBy? (scopes : Scopes) (node : NodeId) : Option ScopeId :=
  scopes.scopes.findIdx? fun scope => scope.node == some node

namespace Pass

theorem opener?_layout (pass : Pass) (node : NodeId) :
    pass.layout.opener? node = pass.scopes.openedBy? node := by
  simp only [opener?, layout, Array.findIdx?_map, Scopes.openedBy?, Function.comp_def, Scope.frame]

theorem frames_layout (pass : Pass) (id : ScopeId) :
    pass.layout.frames[id]? = pass.scopes.scopes[id]?.map Scope.frame :=
  Array.getElem?_map

theorem opened_run (done : run tree blocks limits = .ok pass) :
    pass.layout.Opened node ↔ tree.Evaluated node ∧ (tree.opens? blocks node).isSome := by
  have none : ¬start.layout.Opened node :=
    (nested_start tree blocks).not_opened (not_mem_marks_start node)
  rw [(layout_of_run done).2.2, opened_walk, or_iff_right none, leadsTo_visit_iff]

theorem ready_start (tree : Tree) (node : NodeId) : Ready tree start.layout node := by
  have closed (other : NodeId) : start.layout.opener? other = none :=
    opener?_eq_none.2 ((nested_start tree false).not_opened (not_mem_marks_start other))
  have outermost (nodes : List NodeId) : start.layout.nearest nodes = Scopes.root := by
    induction nodes with
    | nil => rfl
    | cons other rest ih => rw [nearest_cons_of_none (closed other), ih]
  refine ⟨fun other marked => absurd marked (not_mem_marks_start other), fun above _ other one two found => ?_,
    ?_, ?_⟩
  · exact absurd (mem_marks_of_getElem? found) (not_mem_marks_start above)
  · rw [outermost]
    rfl
  · rw [outermost]
    rfl

/-- The layout of a whole pass mirrors the syntax, and all that is marked lies below the root. -/
theorem charted_run (proper : tree.ProperBelow tree.root) (done : run tree blocks limits = .ok pass) :
    Charted tree blocks pass.layout ∧ ∀ node ∈ pass.marks, tree.root ∈ tree.lineage node := by
  have below : tree.ProperBelow (Task.visit tree.root).node := proper
  obtain ⟨charted, grown⟩ := (charted_start tree blocks).walk below (ready_start tree _)
  have layout := (layout_of_run done).2.2
  rw [← layout] at charted grown
  refine ⟨charted, fun node marked => ?_⟩
  obtain ⟨mark, found⟩ := exists_of_mem_marks (show node ∈ pass.layout.marks from marked)
  exact (grown.marks node mark found).resolve_right fun old =>
    not_mem_marks_start node (mem_marks_of_getElem? old)

theorem size_marks_le (rooted : tree.root < tree.size)
    (below : ∀ node ∈ pass.marks, tree.root ∈ tree.lineage node) : pass.marks.size ≤ tree.size := by
  have distinct : pass.marks.keys.Nodup :=
    distinct_keys.imp fun different same => different (Std.compare_eq_iff_eq.2 same)
  have inside : pass.marks.keys ⊆ range tree.size := by
    intro node mem
    have upper := le_of_mem_ancestors (below node (mem_keys.1 mem))
    exact mem_range.2 (Nat.lt_of_le_of_lt upper rooted)
  have bound := (distinct.subperm inside).length_le
  rwa [length_keys, length_range] at bound

end Pass

namespace Model

variable {model : Model} {parent child : NodeId} {mark : Mark}

theorem scopeOf_of_marked (marked : model.marks[node]? = some mark) :
    model.scopeOf node = mark.scope := by
  rw [scopeOf, markOf?_of_marked marked]

theorem epochOf_lt_of_marked (numbered : Numbered tree pass.layout)
    (link : tree.parent child = some parent) (marked : pass.marks[child]? = some mark) :
    (pass.model tree).epochOf parent < (pass.model tree).epochOf child := by
  have atChild : (pass.model tree).markOf? child = some mark := markOf?_of_marked marked
  rw [epochOf, epochOf, atChild]
  split
  · rename_i above found
    obtain ⟨place, mem, atPlace⟩ := exists_of_findSome?_eq_some found
    refine numbered.order place child above mark atPlace marked ?_
    rw [ancestors_of_some link]
    exact mem
  · exact (numbered.epoch child mark marked).1

/-- Epochs number the marked nodes from one on, without a gap or a repetition, so that no node is marked
twice. There are no more of them than nodes. A node never has a later epoch than its children, and an
earlier one than each child that is marked. -/
theorem epochs_order_pass (proper : tree.Proper) (rooted : tree.root < tree.size)
    (done : run tree blocks limits = .ok pass) :
    pass.marks.size = pass.epoch ∧ pass.epoch ≤ tree.size ∧ tree.size ≤ limits.maxNodes ∧
    (∀ (node : NodeId) (mark : Mark), pass.marks[node]? = some mark →
      0 < mark.epoch ∧ mark.epoch ≤ pass.epoch) ∧
    (∀ (first second : NodeId) (one two : Mark), pass.marks[first]? = some one →
      pass.marks[second]? = some two → one.epoch = two.epoch → first = second) ∧
    ∀ parent, ∀ child ∈ tree.children parent,
      (pass.model tree).epochOf parent ≤ (pass.model tree).epochOf child ∧
      (child ∈ pass.marks → (pass.model tree).epochOf parent < (pass.model tree).epochOf child) := by
  obtain ⟨charted, below⟩ := charted_run (proper.properBelow _) done
  have size := size_marks_le rooted below
  have count : pass.marks.size = pass.epoch := charted.count
  refine ⟨count, count ▸ size, (layout_of_run done).1, charted.epoch, charted.distinct, ?_⟩
  intro parent child member
  have link := proper.parent parent child member
  cases marked : pass.marks[child]? with
  | none =>
    have same : (pass.model tree).markOf? child = (pass.model tree).markOf? parent :=
      markOf?_of_parent marked link
    refine ⟨Nat.le_of_eq (by rw [epochOf, epochOf, same]), fun seen => ?_⟩
    rw [mem_iff_isSome_getElem?, marked] at seen
    cases seen
  | some mark =>
    have later := epochOf_lt_of_marked charted.toNumbered link marked
    exact ⟨Nat.le_of_lt later, fun _ => later⟩

/-- Of the parts of a pair in a pattern, the key gets no mark and the pattern under it gets one. -/
theorem epochs_order_pass_pair :
    let tree := Script.tree "pair.js" "const { a: [b] } = f(x.y);"
    ∃ pass, tree.Proper ∧ tree.root < tree.size ∧ run tree false {} = .ok pass ∧
      pass.marks.size = pass.epoch ∧ pass.epoch = 12 ∧ pass.marks[0]? = none ∧
      (pass.model tree).epochOf 3 ≤ (pass.model tree).epochOf 0 ∧
      (pass.model tree).epochOf 3 < (pass.model tree).epochOf 2 := by
  intro tree
  have proper : tree.Proper := Outline.proper_toTree _ _ _ _
  obtain ⟨rooted, children, pass, done, epoch, unmarked, marked⟩ : tree.root < tree.size ∧
      tree.children 3 = [0, 2] ∧ ∃ pass, run tree false {} = .ok pass ∧ pass.epoch = 12 ∧
      pass.marks[0]? = none ∧ 2 ∈ pass.marks := by
    decide +kernel
  obtain ⟨count, _, _, _, _, order⟩ := epochs_order_pass proper rooted done
  have key := order 3 0 (children ▸ mem_cons_self)
  have value := order 3 2 (children ▸ mem_cons_of_mem _ mem_cons_self)
  exact ⟨pass, proper, rooted, done, count, epoch, unmarked, key.1,
    value.2 marked⟩

/-- The scopes mirror the syntax. The first one is that of the program. The others are, one to one, those of
the functions that are evaluated and, where blocks have scopes, of the evaluated blocks that are no bodies of
functions, and each lies inside the scope that its node is in. A marked node is in the scope of the nearest
node around it that opened one. -/
theorem scopes_mirror_syntax (proper : tree.Proper) (analysed : Model.ofTree tree blocks limits = .ok model) :
    model.scopes.scopes[Scopes.root]?.map Scope.frame = some ⟨.program, none, none⟩ ∧
    (∀ (id : ScopeId) (scope : Scope), model.scopes.scopes[id]? = some scope → id ≠ Scopes.root →
      ∃ node, scope.node = some node ∧ tree.Evaluated node ∧
        tree.opens? blocks node = some scope.kind ∧ scope.parent = some (model.scopeOf node)) ∧
    (∀ node, tree.Evaluated node → (tree.opens? blocks node).isSome →
      ∃! id : ScopeId, model.scopes.scopes[id]?.bind Scope.node = some node) ∧
    ∀ node ∈ model.marks,
      model.scopeOf node = ((tree.around node).findSome? model.scopes.openedBy?).getD Scopes.root := by
  obtain ⟨pass, done, rfl⟩ := Model.ofTree_eq_ok.1 analysed
  have charted := (charted_run (proper.properBelow _) done).1
  have frame (id : ScopeId) := pass.frames_layout id
  refine ⟨(frame Scopes.root).symm.trans charted.program, ?_, ?_, ?_⟩
  · intro id scope found inner
    have atId : pass.layout.frames[id]? = some scope.frame := by
      rw [frame]
      exact congrArg (Option.map Scope.frame) found
    obtain ⟨node, mark, opened, marked, outer, opens⟩ := charted.frame id _ atId inner
    have evaluated := ((opened_run done).1 ⟨_, Array.mem_of_getElem? atId, opened⟩).1
    exact ⟨node, opened, evaluated, opens, outer.trans (congrArg some (scopeOf_of_marked marked).symm)⟩
  · intro node evaluated opens
    obtain ⟨first, member, opened⟩ := (opened_run done).2 ⟨evaluated, opens⟩
    obtain ⟨id, atId⟩ := Array.mem_iff_getElem?.1 member
    have opener (id : ScopeId) : pass.scopes.scopes[id]?.bind Scope.node =
        pass.layout.frames[id]?.bind Frame.node := by
      rw [frame, Option.bind_map]
      rfl
    refine ⟨id, ?_, fun other alsoOpened => ?_⟩
    · exact (opener id).trans (Option.bind_eq_some_iff.2 ⟨first, atId, opened⟩)
    · obtain ⟨second, atOther, same⟩ := Option.bind_eq_some_iff.1 ((opener other).symm.trans alsoOpened)
      exact charted.once other id second first atOther atId (same.trans opened.symm)
  · intro node seen
    obtain ⟨mark, marked⟩ := Option.isSome_iff_exists.1 (mem_iff_isSome_getElem?.1 seen)
    have same : pass.layout.opener? = pass.scopes.openedBy? := funext pass.opener?_layout
    rw [scopeOf_of_marked marked, charted.scope node mark marked, nearest, same]
    rfl

/-- A function inside a function has a scope in that of the outer one. The name of the outer one is in the
scope around it, and the body of the inner one in the scope of that. -/
theorem scopes_mirror_syntax_function :
    let tree := Script.tree "nested.js" "function f(a) { function h() { g(a); } }"
    ∃ model scope, tree.Proper ∧ Model.ofTree tree false {} = .ok model ∧
      model.scopes.scopes[2]? = some scope ∧ scope.kind = .function ∧ scope.node = some 10 ∧
      scope.parent = some (model.scopeOf 10) ∧ model.scopeOf 10 = 1 ∧
      (∃! id : ScopeId, model.scopes.scopes[id]?.bind Scope.node = some 10) ∧ tree.around 0 = [13] ∧
      model.scopeOf 0 = ([13].findSome? model.scopes.openedBy?).getD Scopes.root ∧
      tree.around 9 = [10, 11, 12, 13] ∧
      model.scopeOf 9 = ([10, 11, 12, 13].findSome? model.scopes.openedBy?).getD Scopes.root := by
  intro tree
  have proper : tree.Proper := Outline.proper_toTree _ _ _ _
  obtain ⟨model, analysed, inner, outer, name, body⟩ : ∃ model, Model.ofTree tree false {} = .ok model ∧
      model.scopes.scopes[2]?.map Scope.frame = some ⟨.function, some 1, some 10⟩ ∧ model.scopeOf 10 = 1 ∧
      0 ∈ model.marks ∧ 9 ∈ model.marks := by
    decide +kernel
  obtain ⟨aroundName, aroundBody, opens⟩ : tree.around 0 = [13] ∧ tree.around 9 = [10, 11, 12, 13] ∧
      tree.opens? false 10 = some .function := by
    decide +kernel
  obtain ⟨_, mirrored, opened, nearest⟩ := scopes_mirror_syntax proper analysed
  obtain ⟨scope, found, frame⟩ := Option.map_eq_some_iff.1 inner
  obtain ⟨node, atNode, evaluated, _, parent⟩ := mirrored 2 scope found (by decide)
  obtain rfl : node = 10 := Option.some.inj (atNode.symm.trans (congrArg Frame.node frame))
  have once := opened 10 evaluated (by rw [opens]; rfl)
  have nameScope := nearest 0 name
  have bodyScope := nearest 9 body
  rw [aroundName] at nameScope
  rw [aroundBody] at bodyScope
  exact ⟨model, scope, proper, analysed, found, congrArg Frame.kind frame, atNode, parent, outer, once,
    aroundName, nameScope, aroundBody, bodyScope⟩

end Model

end LeakTrace
