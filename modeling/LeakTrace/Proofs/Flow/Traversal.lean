import LeakTrace.Proofs.Flow.Layout
import LeakTrace.Proofs.Flow.Task

namespace LeakTrace

open List LeakTrace.Tree Pass Layout

variable {task : Task} {limit : Nat} {tree : Tree} {blocks : Bool}

namespace Tree

/-- The layout once a task has come to its node and has entered the scope that the node opens. -/
def entered (tree : Tree) (blocks : Bool) (task : Task) (layout : Layout) : Layout :=
  ((tree.stops task).foldl Layout.mark layout).enter? (tree.opening? blocks task) task.node

/-- What a task does to the layout. The node is marked, then what lies below is come to, in the scope that
the node opens if it opens one. -/
def walk (tree : Tree) (blocks : Bool) (task : Task) (layout : Layout) : Layout :=
  { (tree.tasks task).attach.foldl (fun layout next => walk tree blocks next.1 layout)
      (tree.entered blocks task layout) with
    current := layout.current }
termination_by task.node
decreasing_by exact lt_of_mem_children (mem_children_of_tasks next.2)

def walkAll (tree : Tree) (blocks : Bool) (tasks : List Task) (layout : Layout) : Layout :=
  tasks.foldl (fun layout task => tree.walk blocks task layout) layout

section

variable (tree : Tree) (blocks : Bool)

theorem walk_eq (task : Task) (layout : Layout) :
    tree.walk blocks task layout =
      { tree.walkAll blocks (tree.tasks task) (tree.entered blocks task layout) with
        current := layout.current } := by
  rw [walk, walkAll]
  simp only [foldl_subtype, unattach_attach]

@[simp]
theorem current_walk (task : Task) (layout : Layout) :
    (tree.walk blocks task layout).current = layout.current := by
  rw [walk_eq]

@[simp]
theorem current_walkAll (tasks : List Task) (layout : Layout) :
    (tree.walkAll blocks tasks layout).current = layout.current := by
  induction tasks generalizing layout with
  | nil => rfl
  | cons task rest ih => exact (ih _).trans (tree.current_walk blocks task layout)

theorem walkAll_cons (task : Task) (rest : List Task) (layout : Layout) :
    tree.walkAll blocks (task :: rest) layout =
      tree.walkAll blocks rest (tree.walk blocks task layout) := rfl

theorem walkAll_append (first second : List Task) (layout : Layout) :
    tree.walkAll blocks (first ++ second) layout =
      tree.walkAll blocks second (tree.walkAll blocks first layout) :=
  foldl_append

end

theorem walk_of_opening? (closed : tree.opening? blocks task = none) (layout : Layout) :
    tree.walk blocks task layout =
      tree.walkAll blocks (tree.tasks task) ((tree.stops task).foldl Layout.mark layout) := by
  have same := tree.current_walkAll blocks (tree.tasks task)
    ((tree.stops task).foldl Layout.mark layout)
  rw [current_marks] at same
  rw [walk_eq, entered, closed, enter?, ← same]

theorem walk_note (tree : Tree) (blocks : Bool) (name : NodeId) (layout : Layout) :
    tree.walk blocks (.note name) layout = layout.mark name :=
  walk_of_opening? rfl layout

end Tree

/-- The layout once an action is done. -/
def Pass.Action.walk (tree : Tree) (blocks : Bool) (node : NodeId) (layout : Layout) : Action → Layout
  | .scope kind parts =>
    { tree.walkAll blocks (parts.map .visit) (layout.enter kind node) with current := layout.current }
  | .label name _ _ => if (tree.text name).isSome then layout.mark name else layout
  | action => tree.walkAll blocks action.tasks layout

namespace Tree

variable {node : NodeId} {layout : Layout}

theorem walk_visit (tree : Tree) (blocks : Bool) (node : NodeId) (layout : Layout) :
    tree.walk blocks (.visit node) layout =
      (tree.actions blocks node).foldl (Action.walk tree blocks node) (layout.mark node) := by
  have plain {actions : List Action} (each : ∀ action ∈ actions, ∀ layout,
      action.walk tree blocks node layout = tree.walkAll blocks action.tasks layout) (layout : Layout) :
      actions.foldl (Action.walk tree blocks node) layout =
        tree.walkAll blocks (actions.flatMap Action.tasks) layout := by
    induction actions generalizing layout with
    | nil => rfl
    | cons action rest ih =>
      rw [foldl_cons, flatMap_cons, walkAll_append, each action mem_cons_self,
        ih fun other mem => each other (.tail _ mem)]
  have visits (layout : Layout) :
      ((tree.operands node).map Action.visit).foldl (Action.walk tree blocks node) layout =
        tree.walkAll blocks ((tree.operands node).map .visit) layout := by
    rw [foldl_map, walkAll, foldl_map]
    rfl
  -- A scope is left for the one that was current before.
  have enclosed (kind : ScopeKind) (opening : tree.opening? blocks (.visit node) = some kind)
      (tasks : tree.tasks (.visit node) = (tree.operands node).map .visit) :
      tree.walk blocks (.visit node) layout = Action.walk tree blocks node
        ((tree.stops (.visit node)).foldl Layout.mark layout) (.scope kind (tree.operands node)) := by
    rw [walk_eq, entered, opening, tasks, Action.walk, current_marks]
    rfl
  by_cases named : tree.kind node = .function ∨ tree.kind node = .classDecl
  · have tasks : tree.tasks (.visit node) = (tree.operands node).map .visit := by
      rw [tasks_of_named named]
      rcases named with kind | kind <;> simp only [operands, kind]
    rcases named with kind | kind
    · rw [enclosed .function (by simp only [opening?, opens?, kind]) tasks]
      simp only [stops, label?, actions, kind, foldl_append]
      cases tree.child? node .name with
      | none => rfl
      | some name =>
        cases isMethod tree node <;> cases text : tree.text name <;>
          simp [Option.filter_some, text, Action.walk]
    · rw [walk_of_opening? (by simp only [opening?, opens?, kind]), tasks]
      simp only [stops, label?, actions, kind, foldl_append, visits]
      cases tree.child? node .name with
      | none => rfl
      | some name => cases text : tree.text name <;> simp [Option.filter_some, text, Action.walk]
  by_cases block : tree.kind node = .block
  · have tasks : tree.tasks (.visit node) = (tree.operands node).map .visit := by
      simp [tasks, visitTasks, pattern?, assigned?, block]
    have label : tree.label? node = none := by simp only [label?, block]
    have opening : tree.opening? blocks (.visit node) = if blocks &&
        !(tree.parent node).any fun parent => tree.kind parent == .function then some .block else none := by
      simp only [opening?, opens?, block]
    rw [actions, block]
    dsimp only
    split
    · rename_i opens
      rw [enclosed .block (opening.trans (if_pos opens)) tasks, stops, label]
      rfl
    · rename_i stays
      rw [walk_of_opening? (opening.trans (if_neg stays)), tasks, stops, label, visits]
      rfl
  · have label : tree.label? node = none := by
      unfold label?
      split <;> simp_all
    have closed : tree.opening? blocks (.visit node) = none := by
      unfold opening? opens?
      split <;> simp_all
    rw [walk_of_opening? closed, stops, label, tree.tasks_visit blocks,
      plain fun action mem layout => ?_]
    · rfl
    · cases does_of_mem mem with
      | scope kind => exact absurd (kind.resolve_right block) fun kind => named (.inl kind)
      | label _ _ kind => exact absurd kind named
      | _ => rfl

/-- What the arrival at a task gives to a layout, a walk gives for each task that it comes to. -/
theorem walk_gives (Has : Layout → Prop) (Gives : Task → Prop)
    (arrive : ∀ task layout, Has (tree.entered blocks task layout) ↔ Has layout ∨ Gives task)
    (leave : ∀ (layout : Layout) (scope : ScopeId), Has { layout with current := scope } ↔ Has layout)
    (task : Task) (layout : Layout) :
    Has (tree.walk blocks task layout) ↔
      Has layout ∨ ∃ last, tree.LeadsTo task last ∧ Gives last := by
  induction place : task.node using Nat.strongRecOn generalizing task layout with | ind _ ih
  subst place
  have all (tasks : List Task) (parts : ∀ next ∈ tasks, next ∈ tree.tasks task) (inner : Layout) :
      Has (tree.walkAll blocks tasks inner) ↔
        Has inner ∨ ∃ next ∈ tasks, ∃ last, tree.LeadsTo next last ∧ Gives last := by
    induction tasks generalizing inner with
    | nil => simp [walkAll]
    | cons next rest ihRest =>
      have child := lt_of_mem_children (mem_children_of_tasks (parts next (.head _)))
      rw [walkAll_cons, ihRest (fun other mem => parts other (.tail _ mem)),
        ih next.node child next inner rfl, or_assoc, exists_mem_cons_iff]
  rw [walk_eq, leave, all _ (fun _ mem => mem), arrive]
  constructor
  · rintro ((old | here) | ⟨next, mem, last, leads, gives⟩)
    · exact .inl old
    · exact .inr ⟨task, leadsTo_iff.2 (.inl rfl), here⟩
    · exact .inr ⟨last, leadsTo_iff.2 (.inr ⟨next, mem, leads⟩), gives⟩
  rintro (old | ⟨last, leads, gives⟩)
  · exact .inl (.inl old)
  · rcases leadsTo_iff.1 leads with rfl | ⟨next, mem, leads⟩
    · exact .inl (.inr gives)
    · exact .inr ⟨next, mem, last, leads, gives⟩

theorem mem_marks_walk : node ∈ (tree.walk blocks task layout).marks ↔
      node ∈ layout.marks ∨ ∃ last, tree.LeadsTo task last ∧ node ∈ tree.stops last := by
  refine walk_gives (node ∈ ·.marks) (node ∈ tree.stops ·) (fun task layout => ?_) (fun _ _ => Iff.rfl) task
    layout
  rw [entered, marks_enter?, mem_marks_foldl, or_comm]

theorem opened_walk : (tree.walk blocks task layout).Opened node ↔
      layout.Opened node ∨ tree.LeadsTo task (.visit node) ∧ (tree.opens? blocks node).isSome := by
  have arrive (task : Task) (layout : Layout) :
      (tree.entered blocks task layout).Opened node ↔
        layout.Opened node ∨ (task = .visit node ∧ (tree.opens? blocks node).isSome) := by
    rw [entered]
    have same : ((tree.stops task).foldl Layout.mark layout).Opened node ↔ layout.Opened node := by
      rw [Opened, frames_marks, Opened]
    cases opening : tree.opening? blocks task with
    | none =>
      rw [enter?, same, or_iff_left]
      rintro ⟨rfl, opens⟩
      rw [opening?] at opening
      simp [opening] at opens
    | some kind =>
      cases task with
      | visit visited =>
        rw [opening?] at opening
        rw [enter?, opened_enter, same, Task.node, Task.visit.injEq]
        refine or_congr_right ⟨fun here => ⟨here, ?_⟩, And.left⟩
        rw [← here, opening]
        rfl
      | bind | entry | note => cases opening
  have gives := walk_gives (·.Opened node)
    (fun last => last = .visit node ∧ (tree.opens? blocks node).isSome) arrive (fun _ _ => Iff.rfl) task
    layout
  simpa [and_left_comm] using gives

end Tree

namespace Pass

variable {pass : Pass}

/-- A part of the pass is done, with this layout, if it fits, and else the depth limit stops it. -/
def Outcome (limit : Nat) (fits : Prop) (layout : Layout) (result : Except FileFault Pass) : Prop :=
  (fits ∧ ∃ pass, result = .ok pass ∧ pass.layout = layout) ∨
    (¬fits ∧ result = .error (.depthExceeded limit))

section Outcome

variable {fits more : Prop} {layout last : Layout} {part : Except FileFault Pass}
  {next : Pass → Except FileFault Pass}

theorem outcome_ok (limit : Nat) (layout : Layout) (holds : fits) (same : pass.layout = layout) :
    Outcome limit fits layout (.ok pass) :=
  .inl ⟨holds, pass, rfl, same⟩

theorem Outcome.congr (outcome : Outcome limit fits layout part) (same : more ↔ fits) :
    Outcome limit more layout part := by
  rwa [Outcome, same]

theorem Outcome.andThen (first : Outcome limit fits layout part)
    (rest : ∀ pass, pass.layout = layout → Outcome limit more last (next pass)) :
    Outcome limit (fits ∧ more) last (part >>= next) := by
  rcases first with ⟨holds, pass, rfl, same⟩ | ⟨fails, rfl⟩
  · exact (rest pass same).congr (and_iff_right holds)
  · exact .inr ⟨fun both => fails both.1, rfl⟩

theorem Outcome.map (first : Outcome limit fits layout part) {f : Pass → Pass}
    (rest : ∀ pass, pass.layout = layout → (f pass).layout = last) :
    Outcome limit fits last (part >>= fun pass => .ok (f pass)) := by
  rcases first with ⟨holds, pass, rfl, same⟩ | ⟨fails, rfl⟩
  · exact .inl ⟨holds, f pass, rfl, rest pass same⟩
  · exact .inr ⟨fails, rfl⟩

end Outcome

/-- A way to visit and to bind does what the tasks say, as long as they fit. -/
structure Follows (tree : Tree) (blocks : Bool) (limit : Nat) (fits : Task → Prop) (visit : Visit)
    (bind : Bind) : Prop where
  visit : ∀ node pass, Outcome limit (fits (.visit node)) (tree.walk blocks (.visit node) pass.layout)
    (visit node pass)
  bind : ∀ pattern subject pass, Outcome limit (fits (.bind pattern))
    (tree.walk blocks (.bind pattern) pass.layout) (bind pattern subject pass)

section Follows

variable {fits : Task → Prop} {visit : Visit} {bind : Bind}

theorem outcome_foldlM {step : Pass → NodeId → Except FileFault Pass} {make : NodeId → Task}
    (each : ∀ pass node, Outcome limit (fits (make node))
      (tree.walk blocks (make node) pass.layout) (step pass node))
    (nodes : List NodeId) (pass : Pass) :
    Outcome limit (∀ next ∈ nodes.map make, fits next)
      (tree.walkAll blocks (nodes.map make) pass.layout) (nodes.foldlM step pass) := by
  induction nodes generalizing pass with
  | nil => exact outcome_ok _ _ (forall_mem_nil _) rfl
  | cons node rest ih =>
    refine ((each pass node).andThen fun middle same => ?_).congr forall_mem_cons
    have others := ih middle
    rwa [same] at others

section

variable (follows : Follows tree blocks limit fits visit bind)
include follows

theorem Follows.visitAll (nodes : List NodeId) (pass : Pass) :
    Outcome limit (∀ next ∈ nodes.map .visit, fits next)
      (tree.walkAll blocks (nodes.map .visit) pass.layout) (visitAll visit nodes pass) :=
  outcome_foldlM (fun pass node => follows.visit node pass) nodes pass

theorem Follows.bindAll (nodes : List NodeId) (subject : Subject) (pass : Pass) :
    Outcome limit (∀ next ∈ nodes.map .bind, fits next)
      (tree.walkAll blocks (nodes.map .bind) pass.layout) (bindAll bind nodes subject pass) :=
  outcome_foldlM (fun pass node => follows.bind node subject pass) nodes pass

theorem Follows.bindElements (subject : Subject) (position : Nat) (nodes : List NodeId) (pass : Pass) :
    Outcome limit (∀ next ∈ nodes.map .bind, fits next)
      (tree.walkAll blocks (nodes.map .bind) pass.layout)
      (bindElements bind subject position nodes pass) := by
  induction nodes generalizing position pass with
  | nil => exact outcome_ok _ _ (forall_mem_nil _) rfl
  | cons node rest ih =>
    refine ((follows.bind node _ pass).andThen fun middle same => ?_).congr forall_mem_cons
    have others := ih (position + 1) middle
    rwa [same] at others

theorem Follows.bind? (pattern : Option NodeId) (subject : Subject) (pass : Pass) :
    Outcome limit (∀ next ∈ pattern.toList.map .bind, fits next)
      (tree.walkAll blocks (pattern.toList.map .bind) pass.layout)
      (match pattern with
        | some pattern => bind pattern subject pass
        | none => .ok pass) := by
  cases pattern with
  | none => exact outcome_ok _ _ (forall_mem_nil _) rfl
  | some pattern =>
    exact (follows.bind pattern subject pass).congr forall_mem_singleton

end

section

variable {room : Nat} (follows : Follows tree blocks limit (tree.Fits room) visit bind)
include follows

theorem Follows.below_bind (pattern : NodeId) :
    Follows tree blocks limit (tree.FitsBelow room (.bind pattern)) visit bind :=
  ⟨follows.visit, follows.bind⟩

theorem Follows.below_entry (entry : NodeId) :
    Follows tree blocks limit (tree.FitsBelow room (.entry entry)) visit bind :=
  ⟨follows.visit, follows.bind⟩

theorem outcome_bindEntry (subject : Subject) (pass : Pass) {entry : NodeId}
    (other : tree.kind entry ≠ .identifier) :
    Outcome limit (tree.Fits (room + 1) (.entry entry)) (tree.walk blocks (.entry entry) pass.layout)
      (bindEntry tree bind subject pass entry) := by
  have below := follows.below_entry entry
  rw [fits_succ, walk_of_opening? rfl]
  unfold bindEntry
  split
  · rename_i kind
    simp only [tasks, entryTasks, stops, kind, if_true]
    exact below.bind? _ _ _
  · rename_i kind
    exact absurd kind other
  · rename_i pair _
    have parts : tree.entryTasks entry = (tree.codeChildren entry).map .bind := by
      unfold entryTasks
      split
      · exact absurd ‹_› pair
      · rfl
    simp only [tasks, parts, stops, if_neg pair]
    exact below.bindAll _ _ _

theorem outcome_bindBody (pattern : NodeId) (subject : Subject) (pass : Pass) :
    Outcome limit (tree.Fits (room + 1) (.bind pattern)) (tree.walk blocks (.bind pattern) pass.layout)
      (bindBody tree visit bind pattern subject pass) := by
  have below := follows.below_bind pattern
  rw [fits_succ, walk_of_opening? rfl]
  have none {result : Pass} (empty : tree.bindTasks pattern = [])
      (same : result.layout = pass.layout.mark pattern) :
      Outcome limit (∀ next ∈ tree.tasks (.bind pattern),
          tree.FitsBelow room (.bind pattern) next)
        (tree.walkAll blocks (tree.tasks (.bind pattern))
          ((tree.stops (.bind pattern)).foldl Layout.mark pass.layout)) (.ok result) := by
    rw [tasks, empty]
    exact outcome_ok _ _ (forall_mem_nil _) same
  unfold bindBody
  split
  · rename_i kind
    exact none (by simp only [bindTasks, kind]) (by simp)
  · rename_i kind
    simp only [tasks, bindTasks, kind]
    refine outcome_foldlM (fun pass entry => ?_) _ (pass.mark pattern)
    by_cases identifier : tree.kind entry = .identifier
    · simp only [bindEntry, identifier]
      exact below.bind _ _ _
    · simp only [if_neg identifier]
      exact outcome_bindEntry follows subject pass identifier
  · rename_i kind
    simp only [tasks, bindTasks, kind]
    exact below.bindElements _ _ _ _
  · rename_i kind
    simp only [tasks, bindTasks, kind, forall_mem_append, walkAll_append]
    refine (below.visitAll _ _).andThen fun middle same => ?_
    have left := below.bind? (tree.child? pattern .left) subject middle
    rwa [same] at left
  · rename_i kind
    simp only [tasks, bindTasks, kind]
    exact below.bindAll _ _ _
  · rename_i kind
    simp only [tasks, bindTasks, kind]
    exact below.bindAll _ _ _
  · refine none ?_ rfl
    unfold bindTasks
    split
    all_goals first | rfl | contradiction

end

theorem Follows.action (follows : Follows tree blocks limit fits visit bind)
    (notes : ∀ name, fits (.note name)) (node : NodeId) (action : Action) (pass : Pass) :
    Outcome limit (∀ next ∈ action.tasks, fits next) (action.walk tree blocks node pass.layout)
      (action.run tree visit bind node pass) := by
  have none {result : Pass} {layout : Layout} (same : result.layout = layout) :
      Outcome limit (∀ next ∈ [], fits next) layout (.ok result) :=
    outcome_ok _ _ (forall_mem_nil _) same
  cases action with
  | visit child => exact (follows.visit child pass).congr forall_mem_singleton
  | scope kind parts =>
    refine (follows.visitAll parts (pass.enter kind node)).map fun result same => ?_
    rw [Action.walk, ← layout_enter, ← same]
    rfl
  | refer => exact none (by unfold reference; split <;> rfl)
  | label name kind shape => exact none (by unfold declareName Action.walk; split <;> simp [*])
  | declare name value => exact none (by simp [named, Action.walk, Action.tasks, walkAll])
  | assign name value =>
    exact (outcome_ok _ _ (notes name)
      (by simp [named, Action.walk, Action.tasks, walkAll, walk_note])).congr
      forall_mem_singleton
  | store target value =>
    exact ((follows.visit target pass).map fun visited same => by
      simp [stored, same, Action.walk, Action.tasks, walkAll]).congr forall_mem_singleton
  | take pattern value kind =>
    have bound := follows.bind pattern (Action.subject tree value kind node (pass.takenShape tree kind value))
      (pass.takenShape tree kind value).2
    rw [layout_takenShape] at bound
    exact bound.congr forall_mem_singleton
  | hold value => exact none (layout_valueShape ..)

theorem Follows.visitParts (follows : Follows tree blocks limit fits visit bind)
    (notes : ∀ name, fits (.note name)) (node : NodeId) (pass : Pass) :
    Outcome limit (∀ next ∈ tree.tasks (.visit node), fits next)
      (tree.walk blocks (.visit node) pass.layout)
      (visitParts tree blocks visit bind node (pass.mark node)) := by
  rw [visitParts_eq, walk_visit, tasks_visit tree blocks, ← layout_mark]
  generalize pass.mark node = start
  induction tree.actions blocks node generalizing start with
  | nil => exact outcome_ok _ _ (forall_mem_nil _) rfl
  | cons action rest ih =>
    rw [foldlM_cons, flatMap_cons, foldl_cons]
    refine ((follows.action notes node action start).andThen fun middle same => ?_).congr forall_mem_append
    rw [← same]
    exact ih middle

end Follows

/-- With so many levels left, the pass does what the tasks say if they fit into them. -/
theorem follows_visit_and_bind (tree : Tree) (blocks : Bool) (limit room : Nat) :
    Follows tree blocks limit (tree.Fits room) (visit tree blocks limit room)
      (bind tree blocks limit room) := by
  induction room with
  | zero =>
    constructor
    · intro node pass
      exact .inr ⟨tree.not_fits_zero _, rfl⟩
    · intro pattern subject pass
      exact .inr ⟨tree.not_fits_zero _, rfl⟩
  | succ room ih =>
    refine ⟨fun node pass => ?_, outcome_bindBody ih⟩
    have follows : Follows tree blocks limit (tree.FitsBelow room (.visit node)) _ _ :=
      ⟨ih.visit, outcome_bindBody ih⟩
    have notes (name : NodeId) : tree.FitsBelow room (.visit node) (.note name) :=
      fits_succ.2 (forall_mem_nil _)
    rw [fits_succ]
    exact (follows.visitParts notes node pass).map fun visited same => by rw [layout_memoize, same]

variable {limits : Limits}

/-- A tree that is not too large is analysed if all that there is to do fits, and is else too deep. -/
theorem outcome_run (small : tree.size ≤ limits.maxNodes) :
    Outcome limits.maxDepth (tree.Fits (limits.maxDepth + 1) (.visit tree.root))
      (tree.walk blocks (.visit tree.root) start.layout) (run tree blocks limits) := by
  rw [run, if_neg (Nat.not_lt.2 small)]
  exact (follows_visit_and_bind tree blocks limits.maxDepth (limits.maxDepth + 1)).visit _ _

/-- What a pass leaves is the layout of a walk from the root. -/
theorem layout_of_run (done : run tree blocks limits = .ok pass) :
    tree.size ≤ limits.maxNodes ∧ tree.Fits (limits.maxDepth + 1) (.visit tree.root) ∧
      pass.layout = tree.walk blocks (.visit tree.root) start.layout := by
  have small : tree.size ≤ limits.maxNodes := by
    refine Nat.not_lt.1 fun large => ?_
    rw [run, if_pos large] at done
    cases done
  rcases outcome_run small with ⟨fits, final, same, layout⟩ | ⟨_, stopped⟩
  · rw [done] at same
    cases same
    exact ⟨small, fits, layout⟩
  · rw [done] at stopped
    cases stopped

theorem mem_marks_of_run {node : NodeId} (done : run tree blocks limits = .ok pass) :
    node ∈ pass.marks ↔ ∃ last, tree.LeadsTo (.visit tree.root) last ∧ node ∈ tree.stops last := by
  have marks : pass.marks = (tree.walk blocks (.visit tree.root) start.layout).marks :=
    congrArg Layout.marks (layout_of_run done).2.2
  rw [marks, mem_marks_walk, or_iff_right (not_mem_marks_start node)]

end Pass

end LeakTrace
