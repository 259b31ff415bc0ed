import LeakTrace.Proofs.Flow.Limits
import LeakTrace.Proofs.Flow.Traversal

namespace LeakTrace

open List LeakTrace.Tree Model

namespace Tree

variable {tree : Tree} {task next last : Task} {node name : NodeId} {depth level : Nat} {entry : NodeId}

/-- The node lies so many steps below the root. -/
inductive AtDepth (tree : Tree) : (depth : Nat) → NodeId → Prop
  | root : AtDepth tree 0 tree.root
  | child {depth : Nat} {node child : NodeId} : AtDepth tree depth node → child ∈ tree.children node →
      AtDepth tree (depth + 1) child

/-- The pass comes to the node, at this depth of the tree and so many levels deep for the limit. The name of
a function or class is on the level of the function or class. -/
inductive Comes (tree : Tree) : (depth level : Nat) → NodeId → Prop
  | task {depth level : Nat} {task : Task} : tree.Leads (.visit tree.root) depth level task →
      task.node ∈ tree.stops task → Comes tree depth level task.node
  | name {depth level : Nat} {node name : NodeId} : tree.Leads (.visit tree.root) depth level (.visit node) →
      tree.label? node = some name → Comes tree (depth + 1) level name

theorem Leads.atDepth (leads : tree.Leads (.visit tree.root) depth level task) :
    tree.AtDepth depth task.node := by
  induction leads with
  | start => exact .root
  | step _ mem ih => exact ih.child (mem_children_of_tasks mem)

theorem exists_bind_of_entryTasks (mem : next ∈ tree.entryTasks entry) :
    ∃ part, next = .bind part := by
  unfold entryTasks at mem
  split at mem
  · obtain ⟨part, _, rfl⟩ := mem_map.1 mem
    exact ⟨part, rfl⟩
  · obtain ⟨part, _, rfl⟩ := mem_map.1 mem
    exact ⟨part, rfl⟩

theorem exists_bind_of_entry (mem : .entry entry ∈ tree.tasks task) :
    ∃ pattern, task = .bind pattern := by
  cases task with
  | visit node => simp [tasks, visitTasks] at mem
  | bind pattern => exact ⟨pattern, rfl⟩
  | entry outer =>
    obtain ⟨_, same⟩ := exists_bind_of_entryTasks mem
    cases same
  | note name => cases mem

/-- By how much the depth of a task may exceed twice its level. -/
def slack : Task → Nat
  | .visit _ => 0
  | .bind _ | .note _ => 1
  | .entry _ => 2

theorem slack_step (mem : next ∈ tree.tasks task) :
    slack task + 1 ≤ 2 * task.cost next + slack next := by
  cases task with
  | visit node => cases next <;> simp [slack, Task.cost]
  | bind pattern => cases next <;> simp [slack, Task.cost]
  | entry entry =>
    obtain ⟨part, rfl⟩ := exists_bind_of_entryTasks mem
    simp [slack, Task.cost]
  | note name => cases mem

/-- A level is one step of the depth, or two. -/
theorem Leads.bounds (leads : tree.Leads (.visit node) depth level task) :
    level ≤ depth ∧ depth ≤ 2 * level + slack task := by
  induction leads with
  | start => exact ⟨Nat.le_refl _, Nat.zero_le _⟩
  | @step depth level task next _ mem ih =>
    have step := slack_step mem
    have cost : task.cost next ≤ 1 := by
      unfold Task.cost
      split <;> decide
    omega

theorem Comes.bounds (comes : tree.Comes depth level node) :
    tree.AtDepth depth node ∧ level ≤ depth ∧ depth ≤ 2 * level + 2 := by
  cases comes with
  | @task _ _ task leads =>
    have bounds := leads.bounds
    have small : slack task ≤ 2 := by
      unfold slack
      split <;> decide
    exact ⟨leads.atDepth, by omega⟩
  | name leads label =>
    have bounds := leads.bounds
    rw [slack] at bounds
    exact ⟨leads.atDepth.child (mem_children_of_label? label), by omega⟩

theorem eq_or_label_of_stops (stop : node ∈ tree.stops task) :
    node = task.node ∨ ∃ owner, task = .visit owner ∧ tree.label? owner = some node := by
  cases task with
  | visit owner =>
    rcases mem_cons.1 stop with same | label
    · exact .inl same
    · exact .inr ⟨owner, rfl, Option.mem_toList.1 label⟩
  | bind pattern => exact .inl (mem_singleton.1 stop)
  | note name => exact .inl (mem_singleton.1 stop)
  | entry entry =>
    rw [stops] at stop
    split at stop
    · exact .inl (mem_singleton.1 stop)
    · cases stop

theorem exists_comes_iff :
    (∃ depth level, tree.Comes depth level node) ↔
      ∃ last, tree.LeadsTo (.visit tree.root) last ∧ node ∈ tree.stops last := by
  constructor
  · rintro ⟨depth, level, comes⟩
    cases comes with
    | task leads stop => exact ⟨_, ⟨_, _, leads⟩, stop⟩
    | name leads label => exact ⟨_, ⟨_, _, leads⟩, by simp [stops, label]⟩
  · rintro ⟨last, ⟨depth, level, leads⟩, stop⟩
    rcases eq_or_label_of_stops stop with rfl | ⟨owner, rfl, label⟩
    · exact ⟨_, _, .task leads stop⟩
    · exact ⟨_, _, .name leads label⟩

theorem Leads.exists_comes (leads : tree.Leads (.visit tree.root) depth level task) :
    ∃ depth node, tree.Comes depth level node := by
  cases task with
  | visit node => exact ⟨_, _, .task leads mem_cons_self⟩
  | bind pattern => exact ⟨_, _, .task leads mem_cons_self⟩
  | note name => exact ⟨_, _, .task leads mem_cons_self⟩
  | entry entry =>
    -- An entry is on the level of its pattern.
    cases leads with | step before mem
    obtain ⟨pattern, rfl⟩ := exists_bind_of_entry mem
    exact ⟨_, _, .task before mem_cons_self⟩

theorem fits_iff_levels {limit : Nat} :
    tree.Fits (limit + 1) (.visit tree.root) ↔
      ∀ depth level node, tree.Comes depth level node → level ≤ limit := by
  constructor
  · intro fits depth level node comes
    cases comes with
    | task leads => exact Nat.le_of_lt_succ (fits _ _ _ leads)
    | name leads => exact Nat.le_of_lt_succ (fits _ _ _ leads)
  · intro within depth level last leads
    obtain ⟨_, _, comes⟩ := leads.exists_comes
    exact Nat.lt_succ_of_le (within _ _ _ comes)

end Tree

namespace Model

variable {tree : Tree} {blocks : Bool} {limits : Limits}

/-- The limit on the depth counts levels. If the analysis succeeds, the marked nodes are those that the pass
comes to, and none of them is on a level beyond the limit. The analysis of a tree that is not too large
succeeds if there is no such node, and else the tree is too deep. A level is one step down from the root or
two, so that marked nodes lie at most two steps more than twice as deep as the limit. -/
theorem depth_limit_counts_levels :
    (∀ model, ofTree tree blocks limits = .ok model →
      ∀ node, (node ∈ model.marks ↔ ∃ depth level, tree.Comes depth level node) ∧
        ∀ depth level, tree.Comes depth level node →
          level ≤ limits.maxDepth ∧ depth ≤ 2 * limits.maxDepth + 2) ∧
    (tree.size ≤ limits.maxNodes →
      ((∃ model, ofTree tree blocks limits = .ok model) ↔
        ∀ depth level node, tree.Comes depth level node → level ≤ limits.maxDepth) ∧
      (ofTree tree blocks limits = .error (.depthExceeded limits.maxDepth) ↔
        ∃ depth level node, tree.Comes depth level node ∧ limits.maxDepth < level)) ∧
    ∀ depth level node, tree.Comes depth level node →
      tree.AtDepth depth node ∧ level ≤ depth ∧ depth ≤ 2 * level + 2 := by
  refine ⟨fun model analysed node => ?_, fun small => ?_, fun depth level node comes => comes.bounds⟩
  · obtain ⟨pass, run, rfl⟩ := ofTree_eq_ok.1 analysed
    refine ⟨?_, fun depth level comes => ?_⟩
    · rw [exists_comes_iff]
      exact Pass.mem_marks_of_run run
    · have within := fits_iff_levels.1 (Pass.layout_of_run run).2.1 depth level node comes
      have bounds := comes.bounds.2
      omega
  · rw [← fits_iff_levels]
    rcases Pass.outcome_run small with ⟨fits, pass, run, _⟩ | ⟨deep, stopped⟩
    · have analysed := ofTree_eq_ok.2 ⟨pass, run, rfl⟩
      refine ⟨iff_of_true ⟨_, analysed⟩ fits, iff_of_false (fun stopped => ?_) ?_⟩
      · rw [analysed] at stopped
        cases stopped
      · rintro ⟨depth, level, node, comes, beyond⟩
        exact Nat.not_lt.2 (fits_iff_levels.1 fits depth level node comes) beyond
    · have fault := ofTree_of_run stopped
      refine ⟨iff_of_false ?_ deep, iff_of_true fault ?_⟩
      · rintro ⟨model, analysed⟩
        rw [fault] at analysed
        cases analysed
      · rw [fits_iff_levels] at deep
        simpa only [Classical.not_forall, Nat.not_le, exists_prop] using deep

/-- Within five levels a pattern is taken apart down to nine steps below the root, while a literal that is
nested as deep is too deep. -/
theorem depth_limit_counts_levels_pattern :
    let tree := Script.tree "nested.js" "const { a: { b: { c } } } = x;"
    let other := Script.tree "nested.js" "const x = { a: { b: { c } } };"
    ∃ model, ofTree tree false ⟨5, 14⟩ = .ok model ∧ 3 ∈ model.marks ∧ tree.AtDepth 9 3 ∧
      ofTree other false ⟨5, 14⟩ = .error (.depthExceeded 5) := by
  intro tree other
  obtain ⟨⟨model, analysed, _⟩, root, statement, declaration, first, entry, second, inner, third, last, name⟩ :
      (∃ model, ofTree tree false ⟨5, 14⟩ = .ok model ∧ True) ∧ tree.root = 13 ∧
      Task.visit 12 ∈ tree.tasks (.visit 13) ∧ Task.visit 11 ∈ tree.tasks (.visit 12) ∧
      Task.bind 9 ∈ tree.tasks (.visit 11) ∧ Task.entry 8 ∈ tree.tasks (.bind 9) ∧
      Task.bind 7 ∈ tree.tasks (.entry 8) ∧ Task.entry 6 ∈ tree.tasks (.bind 7) ∧
      Task.bind 5 ∈ tree.tasks (.entry 6) ∧ Task.entry 4 ∈ tree.tasks (.bind 5) ∧
      Task.bind 3 ∈ tree.tasks (.entry 4) := by
    decide +kernel
  obtain ⟨small, otherRoot, step, deeper, value, object, member, third'⟩ : other.size ≤ 14 ∧ other.root = 13 ∧
      Task.visit 12 ∈ other.tasks (.visit 13) ∧ Task.visit 11 ∈ other.tasks (.visit 12) ∧
      Task.visit 10 ∈ other.tasks (.visit 11) ∧ Task.visit 9 ∈ other.tasks (.visit 10) ∧
      Task.visit 8 ∈ other.tasks (.visit 9) ∧ Task.visit 7 ∈ other.tasks (.visit 8) := by
    decide +kernel
  have comes : tree.Comes 9 5 3 := by
    have top : tree.Leads (.visit tree.root) 0 0 (.visit 13) := root ▸ .start
    exact .task (((((((((top.step statement).step declaration).step first).step entry).step second).step
      inner).step third).step last).step name) mem_cons_self
  have beyond : other.Comes 6 6 7 := by
    have top : other.Leads (.visit other.root) 0 0 (.visit 13) := otherRoot ▸ .start
    exact .task ((((((top.step step).step deeper).step value).step object).step member).step third')
      mem_cons_self
  refine ⟨model, analysed, ?_, ?_, ?_⟩
  · exact (depth_limit_counts_levels.1 model analysed 3).1.2 ⟨9, 5, comes⟩
  · exact comes.bounds.1
  · exact (depth_limit_counts_levels.2.1 small).2.2 ⟨6, 6, 7, beyond, by decide⟩

end Model

end LeakTrace
