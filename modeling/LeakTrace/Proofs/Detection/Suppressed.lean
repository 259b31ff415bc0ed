import LeakTrace.Proofs.Detection.Continuation

namespace LeakTrace

open LeakTrace.Tree

namespace Tree

/-- The node stands directly in a program or a block. -/
def Stands (tree : Tree) (node : NodeId) : Prop :=
  ∃ parent, tree.parent node = some parent ∧
    (tree.kind parent = .program ∨ tree.kind parent = .block)

/-- The statement around the node: of the node and those above it the first that stands in a program
or a block, and the topmost one if none does. All others that stand so lie around it. -/
structure Innermost (tree : Tree) (node statement : NodeId) : Prop where
  around : statement ∈ node :: tree.ancestors node
  stands : tree.Stands statement ∨ tree.parent statement = none
  first : ∀ other ∈ node :: tree.ancestors node, tree.Stands other →
    other ∈ statement :: tree.ancestors statement

variable {tree : Tree} {node parent statement : NodeId}

theorem innermost_self (stands : tree.Stands node ∨ tree.parent node = none) :
    tree.Innermost node node :=
  ⟨.head _, stands, fun _ mem _ => mem⟩

theorem not_stands (link : tree.parent node = some parent)
    (inside : ¬(tree.kind parent = .program ∨ tree.kind parent = .block)) : ¬tree.Stands node := by
  rintro ⟨_, found, outer⟩
  rw [link] at found
  cases found
  exact inside outer

theorem Innermost.below (inner : tree.Innermost parent statement) (link : tree.parent node = some parent)
    (inside : ¬tree.Stands node) : tree.Innermost node statement where
  around := by
    rw [ancestors_of_some link]
    exact .tail _ inner.around
  stands := inner.stands
  first := by
    intro other mem stands
    rw [ancestors_of_some link] at mem
    rcases List.mem_cons.1 mem with rfl | above
    · exact absurd stands inside
    · exact inner.first other above stands

theorem Innermost.above (inner : tree.Innermost node statement) (link : tree.parent node = some parent)
    (inside : ¬tree.Stands node) : tree.Innermost parent statement where
  around := by
    have around := inner.around
    rw [ancestors_of_some link] at around
    rcases List.mem_cons.1 around with rfl | above
    · have top := inner.stands.resolve_left inside
      rw [link] at top
      cases top
    · exact above
  stands := inner.stands
  first := by
    intro other mem stands
    refine inner.first other ?_ stands
    rw [ancestors_of_some link]
    exact .tail _ mem

theorem Innermost.eq_of_stands (inner : tree.Innermost node statement) (stands : tree.Stands node) :
    node = statement :=
  Nat.le_antisymm (le_of_mem_ancestors inner.around)
    (le_of_mem_ancestors (inner.first node (.head _) stands))

end Tree

namespace Model

theorem innermost_statementOf (model : Model) (node : NodeId) :
    model.tree.Innermost node (model.statementOf node) := by
  fun_induction statementOf model node with
  | case1 node top => exact innermost_self (.inr top)
  | case2 node parent link program => exact innermost_self (.inl ⟨parent, link, .inl program⟩)
  | case3 node parent link block => exact innermost_self (.inl ⟨parent, link, .inr block⟩)
  | case4 node parent link program block ih =>
    exact ih.below link (not_stands link (not_or.2 ⟨program, block⟩))

theorem statementOf_of_innermost (model : Model) {node statement : NodeId}
    (inner : model.tree.Innermost node statement) : model.statementOf node = statement := by
  fun_induction statementOf model node with
  | case1 node top =>
    have around := inner.around
    rw [ancestors_of_none top] at around
    exact (List.mem_singleton.1 around).symm
  | case2 node parent link program => exact inner.eq_of_stands ⟨parent, link, .inl program⟩
  | case3 node parent link block => exact inner.eq_of_stands ⟨parent, link, .inr block⟩
  | case4 node parent link program block ih =>
    exact ih (inner.above link (not_stands link (not_or.2 ⟨program, block⟩)))

/-- A comment switches a rule off for a node exactly if it stands above the innermost statement around
the node. A comment above a statement further out does not reach the node. -/
theorem suppressed_by_innermost {tree : Tree} {blocks : Bool} {limits : Limits} {model : Model}
    (analysed : ofTree tree blocks limits = .ok model) (node : NodeId) :
    (∃! statement, tree.Innermost node statement) ∧
      ∀ statement, tree.Innermost node statement → ∀ rule,
        (model.isSuppressed node rule = true ↔
          (Suppressions.ofSource tree.source).covers (tree.span statement).line rule = true) := by
  obtain ⟨pass, _, rfl⟩ := ofTree_eq_ok.1 analysed
  refine ⟨⟨_, innermost_statementOf (pass.model tree) node, ?_⟩, ?_⟩
  · intro statement inner
    exact (statementOf_of_innermost (pass.model tree) inner).symm
  · intro statement inner rule
    rw [isSuppressed, statementOf_of_innermost (pass.model tree) inner]
    rfl

/-- A call inside a function that is an argument of the statement below the comment. -/
def callback : Tree :=
  Script.tree "call.js" "// sentinel:disable r\nusers.forEach(function (u) \x7b\n  sink(u);\n\x7d);\n"

/-- The comment covers the outer statement, in which the call `sink(u)` lies, but not the call. -/
theorem suppressed_by_innermost_callback :
    ∃ model, ofTree callback false {} = .ok model ∧
      callback.content 9 = "sink(u)" ∧ 15 ∈ callback.ancestors 9 ∧ callback.Stands 15 ∧
      (Suppressions.ofSource callback.source).covers (callback.span 15).line "r" = true ∧
      callback.Innermost 9 10 ∧
      (Suppressions.ofSource callback.source).covers (callback.span 10).line "r" = false ∧
      model.isSuppressed 9 "r" = false := by
  obtain ⟨model, analysed, statement⟩ : ∃ model, ofTree callback false {} = .ok model ∧
    model.statementOf 9 = 10 := by
    decide +kernel
  obtain ⟨content, above, link, program, covered, bare⟩ : callback.content 9 = "sink(u)" ∧
      15 ∈ callback.ancestors 9 ∧ callback.parent 15 = some 16 ∧ callback.kind 16 = .program ∧
      (Suppressions.ofSource callback.source).covers (callback.span 15).line "r" = true ∧
      (Suppressions.ofSource callback.source).covers (callback.span 10).line "r" = false := by
    decide +kernel
  have inner : callback.Innermost 9 10 := by
    rw [← statement, ← tree_of_ofTree analysed]
    exact innermost_statementOf model 9
  have reached := (suppressed_by_innermost analysed 9).2 10 inner "r"
  rw [bare] at reached
  exact ⟨model, analysed, content, above, ⟨16, link, .inl program⟩, covered, inner, bare,
    by simpa using reached⟩

end Model

end LeakTrace
