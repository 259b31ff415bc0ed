import LeakTrace.Proofs.Flow.Inspection
import LeakTrace.Script.Program

namespace LeakTrace

open Model

variable {blocks : Bool} {limits raised : Limits}

namespace Pass

/-- With less room a node is visited and bound in the same way, as far as the room goes. -/
theorem short_visit_and_bind (tree : Tree) (blocks : Bool) (limit raised : Nat) {room roomMore : Nat}
    (fits : room ≤ roomMore) :
    VisitsAs tree (some (.depthExceeded limit)) (Pass.visit tree blocks raised roomMore)
        (Pass.visit tree blocks limit room) ∧
      BindsAs tree (some (.depthExceeded limit)) (Pass.bind tree blocks raised roomMore)
        (Pass.bind tree blocks limit room) := by
  induction room generalizing roomMore with
  | zero => exact ⟨fun _ _ _ _ => .inl rfl, fun _ _ _ _ _ _ => .inl rfl⟩
  | succ room ih =>
    obtain ⟨roomMore, rfl⟩ := Nat.exists_eq_add_of_le' (Nat.le_trans (Nat.le_add_left 1 room) fits)
    obtain ⟨visits, binds⟩ := visits_and_binds tree blocks raised roomMore
    obtain ⟨shortVisit, shortBind⟩ := ih (Nat.le_of_succ_le_succ fits)
    have bodies := bindsAs_bindBody visits binds shortVisit shortBind
    exact ⟨visitsAs_visitBody visits (binds_bindBody visits binds) shortVisit bodies blocks, bodies⟩

end Pass

namespace Limits

/-- The limits allow all that the others allow. -/
structure Covers (raised limits : Limits) : Prop where
  depth : limits.maxDepth ≤ raised.maxDepth
  nodes : limits.maxNodes ≤ raised.maxNodes

end Limits

namespace Pass

variable {tree : Tree}

/-- Under lower limits the pass is the same, or it stops with the fault of one of them. -/
theorem cutShort_run (covers : raised.Covers limits) :
    CutShort (some (.depthExceeded limits.maxDepth)) (run tree blocks limits)
        (run tree blocks raised) ∨
      tree.size > limits.maxNodes ∧
        run tree blocks limits = .error (.nodeBudgetExceeded limits.maxNodes) := by
  by_cases large : tree.size > limits.maxNodes
  · exact .inr ⟨large, by rw [run, if_pos large]⟩
  have within : ¬tree.size > raised.maxNodes := by
    have nodes := covers.nodes
    omega
  rw [run, if_neg large, run, if_neg within]
  exact .inl ((short_visit_and_bind tree blocks limits.maxDepth raised.maxDepth
    (Nat.succ_le_succ covers.depth)).1 (tree.mem_subtree_self tree.root) .refl)

end Pass

namespace Model

variable {tree : Tree} {model : Model}

theorem ofTree_of_run {fault : FileFault} (stopped : Pass.run tree blocks limits = .error fault) :
    ofTree tree blocks limits = .error fault := by
  rw [ofTree, stopped]
  rfl

/-- Limits decide only whether there is a model. What is known under some limits is known in the same way
under all that cover them. The other way round, what is known under limits is known under lower ones too,
unless these say that the tree is too deep or too large. -/
theorem limits_only_stop (covers : raised.Covers limits) :
    (∀ model, ofTree tree blocks limits = .ok model →
      ofTree tree blocks raised = .ok model) ∧
    ∀ model, ofTree tree blocks raised = .ok model →
      ofTree tree blocks limits = .ok model ∨
      ofTree tree blocks limits = .error (.depthExceeded limits.maxDepth) ∨
      tree.size > limits.maxNodes ∧
        ofTree tree blocks limits = .error (.nodeBudgetExceeded limits.maxNodes) := by
  refine ⟨fun model analysed => ?_, fun model analysed => ?_⟩
  · obtain ⟨pass, run, rfl⟩ := ofTree_eq_ok.1 analysed
    refine ofTree_eq_ok.2 ⟨pass, ?_, rfl⟩
    rcases Pass.cutShort_run covers with short | ⟨_, stopped⟩
    · exact short.ok run
    · rw [stopped] at run
      cases run
  · obtain ⟨pass, run, rfl⟩ := ofTree_eq_ok.1 analysed
    rcases Pass.cutShort_run covers with (stopped | same) | ⟨large, stopped⟩
    · exact .inr (.inl (ofTree_of_run stopped))
    · exact .inl (ofTree_eq_ok.2 ⟨pass, same.trans run, rfl⟩)
    · exact .inr (.inr ⟨large, ofTree_of_run stopped⟩)

/-- A script that is just within six levels and fourteen nodes, and not within five levels. -/
theorem limits_only_stop_tight :
    let tree := Script.tree "tight.js" "const { a: [b] } = f(x.y);"
    ∃ model, Limits.Covers {} ⟨6, 14⟩ ∧ ofTree tree false ⟨6, 14⟩ = .ok model ∧
      ofTree tree false {} = .ok model ∧ Limits.Covers {} ⟨5, 14⟩ ∧
      ofTree tree false ⟨5, 14⟩ = .error (.depthExceeded 5) := by
  intro tree
  have covers : Limits.Covers {} ⟨6, 14⟩ := ⟨by decide, by decide⟩
  have coversLess : Limits.Covers {} ⟨5, 14⟩ := ⟨by decide, by decide⟩
  obtain ⟨⟨model, analysed, _⟩, stopped, size⟩ : (∃ model, ofTree tree false ⟨6, 14⟩ = .ok model ∧ True) ∧
      (¬∃ model, ofTree tree false ⟨5, 14⟩ = .ok model ∧ True) ∧ tree.size = 14 := by
    decide +kernel
  have known := (limits_only_stop covers).1 model analysed
  refine ⟨model, covers, analysed, known, coversLess, ?_⟩
  rcases (limits_only_stop coversLess).2 model known with within | deep | ⟨large, _⟩
  · exact absurd ⟨model, within, trivial⟩ stopped
  · exact deep
  · exact absurd size (Nat.ne_of_gt large)

end Model

end LeakTrace
