import LeakTrace.Proofs.Flow.Evaluation

namespace LeakTrace

open List Pass

/-- What the pass comes to a node for. -/
inductive Task where
  /-- A statement or an expression is visited. -/
  | visit (node : NodeId)
  /-- The names in a pattern are bound. -/
  | bind (node : NodeId)
  /-- The patterns in an entry of an object pattern are come to. -/
  | entry (node : NodeId)
  /-- A name that is assigned to gets a place. -/
  | note (node : NodeId)
  deriving DecidableEq

namespace Task

def node : Task → NodeId
  | visit node | bind node | entry node | note node => node

/-- By how many levels the next task is deeper for the depth limit. The step from a statement to its
pattern or name does not count, nor does the one from an object pattern to an entry. -/
def cost : Task → Task → Nat
  | visit _, bind _ | visit _, note _ | bind _, entry _ => 0
  | _, _ => 1

end Task

/-- What an action goes on to below the node, in order. -/
def Pass.Action.tasks : Action → List Task
  | .visit child => [.visit child]
  | .scope _ parts => parts.map .visit
  | .assign name _ => [.note name]
  | .store target _ => [.visit target]
  | .take pattern _ _ => [.bind pattern]
  | .refer | .label _ _ _ | .declare _ _ | .hold _ => []

theorem Pass.Action.sublist_tasks (action : Action) : (action.tasks.map Task.node).Sublist action.parts := by
  cases action <;> simp [tasks, parts, Task.node, Function.comp_def]

namespace Tree

variable {tree : Tree} {task next last : Task} {node child name : NodeId} {depth level : Nat}

variable (tree)

/-- The name that an assignment gives a value. -/
def assigned? (node : NodeId) : Option NodeId :=
  match tree.kind node with
  | .assignment => (tree.child? node .left).filter fun left => tree.kind left == .identifier
  | _ => none

def visitTasks (node : NodeId) : List Task :=
  (tree.operands node).map .visit ++ (tree.pattern? node).toList.map .bind ++
    (tree.assigned? node).toList.map .note

def bindTasks (pattern : NodeId) : List Task :=
  match tree.kind pattern with
  | .objectPattern => (tree.codeChildren pattern).map fun entry =>
    if tree.kind entry = .identifier then .bind entry else .entry entry
  | .array | .spread | .parameter => (tree.codeChildren pattern).map .bind
  | .assignment =>
    (tree.child? pattern .right).toList.map .visit ++ (tree.child? pattern .left).toList.map .bind
  | _ => []

def entryTasks (entry : NodeId) : List Task :=
  match tree.kind entry with
  | .pair => (tree.child? entry .value).toList.map .bind
  | _ => (tree.codeChildren entry).map .bind

/-- What a task goes on to below its node, in order. -/
def tasks : Task → List Task
  | .visit node => tree.visitTasks node
  | .bind pattern => tree.bindTasks pattern
  | .entry entry => tree.entryTasks entry
  | .note _ => []

/-- The name of a function or a class that is declared where the function or class stands. -/
def label? (node : NodeId) : Option NodeId :=
  match tree.kind node with
  | .function => (tree.child? node .name).filter fun name =>
    !isMethod tree node && (tree.text name).isSome
  | .classDecl => (tree.child? node .name).filter fun name => (tree.text name).isSome
  | _ => none

/-- The nodes that a task marks by itself: its own, unless that is an entry that is no pair, and the name of
a function or class. -/
def stops : Task → List NodeId
  | .visit node => node :: (tree.label? node).toList
  | .bind pattern => [pattern]
  | .entry entry => if tree.kind entry = .pair then [entry] else []
  | .note name => [name]

/-- The kind of scope that a node opens when it is visited. -/
def opens? (blocks : Bool) (node : NodeId) : Option ScopeKind :=
  match tree.kind node with
  | .function => some .function
  | .block =>
    if blocks && !(tree.parent node).any fun parent => tree.kind parent == .function then some .block
    else none
  | _ => none

def opening? (blocks : Bool) : Task → Option ScopeKind
  | .visit node => tree.opens? blocks node
  | _ => none

theorem tasks_visit (blocks : Bool) (node : NodeId) :
    tree.tasks (.visit node) = (tree.actions blocks node).flatMap Action.tasks := by
  have visits (nodes : List NodeId) :
      (nodes.map Action.visit).flatMap Action.tasks = nodes.map .visit := by
    rw [flatMap_map, map_eq_flatMap]
    rfl
  unfold actions
  rw [tasks, visitTasks]
  cases kind : tree.kind node
  case function =>
    cases (tree.child? node .name).filter fun _ => !isMethod tree node <;>
      simp [pattern?, assigned?, kind, Action.tasks]
  case classDecl => cases tree.child? node .name <;> simp [pattern?, assigned?, kind, Action.tasks, visits]
  case block => dsimp only; split <;> simp [pattern?, assigned?, kind, Action.tasks, visits]
  case declaration =>
    cases found : tree.child? node .name with
    | none => simp [operands, source?, pattern?, assigned?, kind, found, visits]
    | some name =>
      by_cases identifier : tree.kind name = .identifier <;>
        simp [operands, source?, pattern?, assigned?, kind, found, identifier, visits, Action.tasks]
  case assignment =>
    cases found : tree.child? node .left with
    | none => simp [operands, source?, target?, pattern?, assigned?, kind, found, visits]
    | some left =>
      cases same : tree.kind left <;>
        simp [operands, source?, target?, pattern?, assigned?, leftAction, kind, found, same, visits,
          Action.tasks, Option.filter_some]
  case parameter =>
    cases found : tree.child? node .name <;>
      simp [operands, source?, pattern?, assigned?, kind, found, visits, Action.tasks]
  all_goals simp [operands, pattern?, assigned?, kind, visits, Action.tasks]

variable {tree}

theorem mem_children_of_tasks (mem : next ∈ tree.tasks task) :
    next.node ∈ tree.children task.node := by
  have code {make : NodeId → Task} {node : NodeId} (same : ∀ part, (make part).node = part)
      (mem : next ∈ (tree.codeChildren node).map make) : next.node ∈ tree.children node := by
    obtain ⟨part, among, rfl⟩ := mem_map.1 mem
    rw [same]
    exact mem_children_of_codeChildren among
  cases task with
  | visit node =>
    rw [tree.tasks_visit false] at mem
    obtain ⟨action, among, inside⟩ := mem_flatMap.1 mem
    exact (tree.subperm_actions false node).subset (mem_flatMap.2 ⟨action, among,
      action.sublist_tasks.subset (mem_map_of_mem inside)⟩)
  | bind pattern =>
    simp only [tasks, bindTasks] at mem
    split at mem
    · exact code (fun entry => by split <;> rfl) mem
    · exact code (fun _ => rfl) mem
    · exact code (fun _ => rfl) mem
    · exact code (fun _ => rfl) mem
    · simp only [mem_append, mem_map, Option.mem_toList] at mem
      rcases mem with ⟨child, found, rfl⟩ | ⟨child, found, rfl⟩
      · exact mem_children_of_child? found
      · exact mem_children_of_child? found
    · cases mem
  | entry entry =>
    simp only [tasks, entryTasks] at mem
    split at mem
    · obtain ⟨part, among, rfl⟩ := mem_map.1 mem
      exact mem_children_of_child? (Option.mem_toList.1 among)
    · exact code (fun _ => rfl) mem
  | note name => cases mem

theorem nodup_tasks (distinct : (tree.children task.node).Nodup) :
    ((tree.tasks task).map Task.node).Nodup := by
  have code : (tree.codeChildren task.node).Nodup := distinct.filter _
  have same {make : NodeId → Task} (place : ∀ part, (make part).node = part) (parts : List NodeId) :
      (parts.map make).map Task.node = parts := by
    simp [map_map, Function.comp_def, place]
  cases task with
  | visit node =>
    rw [tree.tasks_visit false, map_flatMap]
    exact nodup_of_subperm ((Sublist.flatMap_right _ fun action _ => action.sublist_tasks).subperm.trans
      (tree.subperm_actions false node)) distinct
  | bind pattern =>
    simp only [tasks, bindTasks]
    split
    · rw [same fun entry => by split <;> rfl]
      exact code
    · rw [same fun _ => rfl]
      exact code
    · rw [same fun _ => rfl]
      exact code
    · rw [same fun _ => rfl]
      exact code
    · rw [map_append, same fun _ => rfl, same fun _ => rfl]
      exact nodup_of_subperm (tree.subperm_roles pattern (by decide)) distinct
    · exact nodup_nil
  | entry entry =>
    simp only [tasks, entryTasks]
    split
    · rw [same fun _ => rfl]
      exact Option.toList_nodup _
    · rw [same fun _ => rfl]
      exact code
  | note name => exact nodup_nil

theorem mem_children_of_label? (found : tree.label? node = some name) : name ∈ tree.children node := by
  unfold label? at found
  split at found
  · exact mem_children_of_child? (Option.filter_eq_some_iff.1 found).1
  · exact mem_children_of_child? (Option.filter_eq_some_iff.1 found).1
  · cases found

theorem tasks_of_named (kind : tree.kind node = .function ∨ tree.kind node = .classDecl) :
    tree.tasks (.visit node) =
      ((tree.children node).filter fun child => tree.role child != some .name).map .visit := by
  rcases kind with kind | kind <;> simp [tasks, visitTasks, operands, pattern?, assigned?, kind]

theorem role_of_tasks (kind : tree.kind node = .function ∨ tree.kind node = .classDecl)
    (mem : next ∈ tree.tasks (.visit node)) : tree.role next.node ≠ some .name := by
  rw [tasks_of_named kind] at mem
  obtain ⟨child, among, rfl⟩ := mem_map.1 mem
  exact bne_iff_ne.1 (mem_filter.1 among).2

theorem label?_beside (found : tree.label? node = some name) (mem : next ∈ tree.tasks (.visit node)) :
    next.node ≠ name := by
  unfold label? at found
  split at found
  · rename_i kind
    have role := role_of_child? (Option.filter_eq_some_iff.1 found).1
    exact fun same => role_of_tasks (.inl kind) mem (same ▸ role)
  · rename_i kind
    have role := role_of_child? (Option.filter_eq_some_iff.1 found).1
    exact fun same => role_of_tasks (.inr kind) mem (same ▸ role)
  · cases found

/-- The tasks that a task leads to, with the steps down the tree and the levels in between. -/
inductive Leads (tree : Tree) (start : Task) : (depth level : Nat) → Task → Prop
  | start : Leads tree start 0 0 start
  | step {depth level : Nat} {task next : Task} : Leads tree start depth level task →
      next ∈ tree.tasks task → Leads tree start (depth + 1) (level + task.cost next) next

theorem Leads.head (mem : next ∈ tree.tasks task) (leads : tree.Leads next depth level last) :
    tree.Leads task (depth + 1) (task.cost next + level) last := by
  induction leads with
  | start => simpa using Leads.start.step mem
  | step _ below ih =>
    rw [← Nat.add_assoc]
    exact ih.step below

theorem Leads.cases_head (leads : tree.Leads task depth level last) :
    level = 0 ∧ last = task ∨ ∃ next ∈ tree.tasks task, ∃ further deeper,
      tree.Leads next further deeper last ∧ level = task.cost next + deeper := by
  induction leads with
  | start => exact .inl ⟨rfl, rfl⟩
  | @step _ _ current below _ mem ih =>
    rcases ih with ⟨rfl, rfl⟩ | ⟨first, among, further, deeper, leads, rfl⟩
    · exact .inr ⟨below, mem, 0, 0, .start, by omega⟩
    · exact .inr ⟨first, among, _, _, leads.step mem, by omega⟩

/-- The task leads to the last one, at some depth. -/
def LeadsTo (tree : Tree) (task last : Task) : Prop := ∃ depth level, tree.Leads task depth level last

theorem leadsTo_iff :
    tree.LeadsTo task last ↔ last = task ∨ ∃ next ∈ tree.tasks task, tree.LeadsTo next last := by
  constructor
  · rintro ⟨depth, level, leads⟩
    rcases leads.cases_head with ⟨_, same⟩ | ⟨next, mem, further, deeper, rest, _⟩
    · exact .inl same
    · exact .inr ⟨next, mem, further, deeper, rest⟩
  · rintro (rfl | ⟨next, mem, depth, level, rest⟩)
    · exact ⟨0, 0, .start⟩
    · exact ⟨_, _, rest.head mem⟩

theorem LeadsTo.step (leads : tree.LeadsTo task next) (mem : last ∈ tree.tasks next) :
    tree.LeadsTo task last := by
  obtain ⟨_, _, leads⟩ := leads
  exact ⟨_, _, leads.step mem⟩

/-- How a task arises from the nodes that are evaluated. -/
def Arises (tree : Tree) : Task → Prop
  | .visit node => tree.Evaluated node
  | .bind pattern => ∃ node top keys, tree.Evaluated node ∧ tree.pattern? node = some top ∧
    tree.Reaches top keys pattern
  | .entry entry => ∃ node top keys pattern, tree.Evaluated node ∧ tree.pattern? node = some top ∧
    tree.Reaches top keys pattern ∧ tree.kind pattern = .objectPattern ∧
    entry ∈ tree.codeChildren pattern ∧ tree.kind entry ≠ .identifier
  | .note _ => True

theorem Arises.step (arises : tree.Arises task) (mem : next ∈ tree.tasks task) : tree.Arises next := by
  cases task with
  | visit node =>
    simp only [tasks, visitTasks, mem_append, mem_map, Option.mem_toList] at mem
    rcases mem with (⟨child, operand, rfl⟩ | ⟨top, found, rfl⟩) | ⟨name, _, rfl⟩
    · exact .operand arises operand
    · exact ⟨node, top, _, arises, found, .top⟩
    · trivial
  | bind pattern =>
    obtain ⟨node, top, keys, evaluated, found, reaches⟩ := arises
    simp only [tasks, bindTasks] at mem
    split at mem
    · rename_i kind
      obtain ⟨entry, among, rfl⟩ := mem_map.1 mem
      split
      · rename_i identifier
        exact ⟨node, top, _, evaluated, found, .shorthand reaches kind among identifier⟩
      · rename_i other
        exact ⟨node, top, keys, pattern, evaluated, found, reaches, kind, among, other⟩
    · rename_i kind
      obtain ⟨part, among, rfl⟩ := mem_map.1 mem
      exact ⟨node, top, _, evaluated, found, .element reaches kind among⟩
    · rename_i kind
      obtain ⟨part, among, rfl⟩ := mem_map.1 mem
      exact ⟨node, top, _, evaluated, found, .rest reaches (.inl kind) among⟩
    · rename_i kind
      obtain ⟨part, among, rfl⟩ := mem_map.1 mem
      exact ⟨node, top, _, evaluated, found, .rest reaches (.inr kind) among⟩
    · rename_i kind
      simp only [mem_append, mem_map, Option.mem_toList] at mem
      rcases mem with ⟨value, right, rfl⟩ | ⟨part, left, rfl⟩
      · exact .default evaluated found reaches kind right
      · exact ⟨node, top, _, evaluated, found, .default reaches kind left⟩
    · cases mem
  | entry entry =>
    obtain ⟨node, top, keys, pattern, evaluated, found, reaches, object, among, other⟩ := arises
    simp only [tasks, entryTasks] at mem
    split at mem
    · rename_i pair
      obtain ⟨part, value, rfl⟩ := mem_map.1 mem
      exact ⟨node, top, _, evaluated, found, .pair reaches object among pair (Option.mem_toList.1 value)⟩
    · rename_i pair
      obtain ⟨part, inner, rfl⟩ := mem_map.1 mem
      exact ⟨node, top, _, evaluated, found, .other reaches object among pair other inner⟩
  | note name => cases mem

theorem Leads.arises (leads : tree.Leads (.visit tree.root) depth level task) : tree.Arises task := by
  induction leads with
  | start => exact .root
  | step _ mem ih => exact ih.step mem

/-- Each part of a pattern is bound after the parts on the way to it. -/
theorem Reaches.leadsTo {top pattern : NodeId} {keys : Option (List Key)}
    (reaches : tree.Reaches top keys pattern) (leads : tree.LeadsTo task (.bind top)) :
    tree.LeadsTo task (.bind pattern) := by
  induction reaches with
  | top => exact leads
  | @pair _ pattern entry part _ object among pair value ih =>
    have entered : tree.LeadsTo task (.entry entry) := ih.step (by
      simp only [tasks, bindTasks, object]
      exact mem_map.2 ⟨entry, among, by simp [pair]⟩)
    exact entered.step (by simp [tasks, entryTasks, pair, value])
  | @shorthand _ pattern entry _ object among identifier ih =>
    refine ih.step ?_
    simp only [tasks, bindTasks, object]
    exact mem_map.2 ⟨entry, among, by simp [identifier]⟩
  | @other _ pattern entry part _ object among pair identifier inner ih =>
    have entered : tree.LeadsTo task (.entry entry) := ih.step (by
      simp only [tasks, bindTasks, object]
      exact mem_map.2 ⟨entry, among, by simp [identifier]⟩)
    refine entered.step ?_
    simp only [tasks, entryTasks]
    exact mem_map.2 ⟨part, inner, rfl⟩
  | @element _ pattern part _ array among ih =>
    exact ih.step (by simp [tasks, bindTasks, array, among])
  | @default _ pattern part _ assignment left ih =>
    exact ih.step (by simp [tasks, bindTasks, assignment, left])
  | @rest _ pattern part _ kind among ih =>
    rcases kind with kind | kind
    · exact ih.step (by simp [tasks, bindTasks, kind, among])
    · exact ih.step (by simp [tasks, bindTasks, kind, among])

theorem leadsTo_visit_iff : tree.LeadsTo (.visit tree.root) (.visit node) ↔ tree.Evaluated node := by
  constructor
  · rintro ⟨depth, level, leads⟩
    exact leads.arises
  intro evaluated
  induction evaluated with
  | root => exact leadsTo_iff.2 (.inl rfl)
  | operand _ operand ih =>
    exact ih.step (by simp [tasks, visitTasks, operand])
  | @default node top pattern value keys _ found reaches kind right ih =>
    have bound := reaches.leadsTo (ih.step (by simp [tasks, visitTasks, found]))
    exact bound.step (by simp [tasks, bindTasks, kind, right])

/-- All that the task leads to lies within so many levels. -/
def Fits (tree : Tree) (room : Nat) (task : Task) : Prop :=
  ∀ depth level last, tree.Leads task depth level last → level < room

theorem not_fits_zero (tree : Tree) (task : Task) : ¬tree.Fits 0 task :=
  fun fits => Nat.not_lt_zero _ (fits 0 0 task .start)

/-- The next task fits into what a task with so many levels below its own leaves for it. -/
def FitsBelow (tree : Tree) (room : Nat) (task next : Task) : Prop :=
  tree.Fits (room + 1 - task.cost next) next

theorem fits_succ {room : Nat} :
    tree.Fits (room + 1) task ↔ ∀ next ∈ tree.tasks task, tree.FitsBelow room task next := by
  constructor
  · intro fits next mem depth level last leads
    have bound := fits _ _ _ (leads.head mem)
    omega
  intro fits depth level last leads
  rcases leads.cases_head with ⟨rfl, _⟩ | ⟨next, mem, further, deeper, rest, rfl⟩
  · exact Nat.succ_pos _
  · have bound := fits next mem _ _ _ rest
    omega

end Tree

end LeakTrace
