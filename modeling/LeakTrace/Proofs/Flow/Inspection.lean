import LeakTrace.Proofs.Flow.Integrity

namespace LeakTrace

open List LeakTrace.Tree ShapeStore

variable {fault : Option FileFault} {tree : Tree} {pass : Pass} {node : NodeId}

theorem mem_preorder_of_child {child : NodeId}
    (inside : node ∈ tree.preorder) (mem : child ∈ tree.children node) : child ∈ tree.preorder :=
  mem_subtree_trans (mem_subtree_child mem) inside

namespace Pass

/-- The first computation is the second one cut short: it stops with the fault, or both come to the same. -/
def CutShort (fault : Option FileFault) (part whole : Except FileFault Pass) : Prop :=
  fault.elim False (part = .error ·) ∨ part = whole

section CutShort

variable {part whole : Except FileFault Pass}

theorem CutShort.refl (fault : Option FileFault) (part : Except FileFault Pass) : CutShort fault part part :=
  .inr rfl

theorem cutShort_none : CutShort none part whole ↔ part = whole := by simp [CutShort]

theorem CutShort.then {next nextMore : Pass → Except FileFault Pass} (first : CutShort fault part whole)
    (rest : ∀ pass, whole = .ok pass → CutShort fault (next pass) (nextMore pass)) :
    CutShort fault (part >>= next) (whole >>= nextMore) := by
  rcases first with stopped | same
  · cases fault with
    | none => cases stopped
    | some fault =>
      cases stopped
      exact .inl rfl
  · rw [same]
    cases whole with
    | error other => exact .refl _ _
    | ok pass => exact rest pass rfl

theorem CutShort.ok (short : CutShort fault part whole) (run : part = .ok pass) :
    whole = .ok pass := by
  rcases short with stopped | same
  · cases run
    cases fault <;> cases stopped
  · rw [← same, run]

theorem CutShort.foldlM {α : Type} {step other : Pass → α → Except FileFault Pass} {items : List α}
    (Fine : Pass → Prop) (each : ∀ item ∈ items, ∀ {pass : Pass}, Fine pass →
      CutShort fault (other pass item) (step pass item) ∧
        ∀ {after : Pass}, step pass item = .ok after → Fine after)
    (fine : Fine pass) : CutShort fault (items.foldlM other pass) (items.foldlM step pass) := by
  induction items generalizing pass with
  | nil => exact .refl _ _
  | cons item rest ih =>
    obtain ⟨short, kept⟩ := each item (.head _) fine
    exact short.then fun middle run => ih (fun next mem => each next (.tail _ mem)) (kept run)

end CutShort

/-- Runs a part of the pass between two inspections of the state. An inspection that has something to
object to stops the pass. -/
def inspecting (inspect : Pass → Option FileFault) (part : Pass → Except FileFault Pass) (pass : Pass) :
    Except FileFault Pass :=
  match inspect pass with
  | some fault => .error fault
  | none => do
    let after ← part pass
    match inspect after with
    | some fault => .error fault
    | none => return after

mutual

/-- The pass with an inspection of the state before and after each node that is visited or bound. -/
def inspectedVisit (inspect : Pass → Option FileFault) (tree : Tree) (blocks : Bool) (limit : Nat) :
    (room : Nat) → Visit
  | 0 => fun _ => inspecting inspect fun _ => .error (.depthExceeded limit)
  | room + 1 => fun node => inspecting inspect <|
    visitBody tree blocks (inspectedVisit inspect tree blocks limit room)
      (fun pattern subject => inspecting inspect <|
        bindBody tree (inspectedVisit inspect tree blocks limit room)
          (inspectedBind inspect tree blocks limit room) pattern subject) node

def inspectedBind (inspect : Pass → Option FileFault) (tree : Tree) (blocks : Bool) (limit : Nat) :
    (room : Nat) → Bind
  | 0 => fun _ _ => inspecting inspect fun _ => .error (.depthExceeded limit)
  | room + 1 => fun pattern subject => inspecting inspect <|
    bindBody tree (inspectedVisit inspect tree blocks limit room)
      (inspectedBind inspect tree blocks limit room) pattern subject

end

def inspectedRun (inspect : Pass → Option FileFault) (tree : Tree) (blocks : Bool)
    (limits : Limits) : Except FileFault Pass :=
  if tree.size > limits.maxNodes then .error (.nodeBudgetExceeded limits.maxNodes)
  else inspectedVisit inspect tree blocks limits.maxDepth (limits.maxDepth + 1) tree.root start

variable {Region : NodeId → Prop} {nodes : List NodeId} {before after : Pass} {visit otherVisit : Visit}
  {bind otherBind : Bind} {subject : Subject}

/-- In all states that the pass can come to, the other way to visit is the first one cut short. -/
def VisitsAs (tree : Tree) (fault : Option FileFault) (visit other : Visit) : Prop :=
  ∀ ⦃node : NodeId⦄ ⦃pass : Pass⦄, node ∈ tree.preorder → Reachable tree pass →
    CutShort fault (other node pass) (visit node pass)

def BindsAs (tree : Tree) (fault : Option FileFault) (bind other : Bind) : Prop :=
  ∀ ⦃pattern : NodeId⦄ ⦃subject : Subject⦄ ⦃pass : Pass⦄, pattern ∈ tree.preorder →
    Reachable tree pass → Known subject.shape subject.chain pass →
    CutShort fault (other pattern subject pass) (bind pattern subject pass)

theorem Reachable.sound (reachable : Reachable tree pass) : pass.Sound := reachable.orderly.sound

theorem Within.reachable (within : Within tree Region nodes before after)
    (inside : ∀ node, Region node → node ∈ tree.preorder) (reachable : Reachable tree before) :
    Reachable tree after := by
  obtain ⟨_, course, _⟩ := within
  exact (course.mono inside).reachable reachable

theorem Visits.reachable (visits : Visits tree visit) (inside : node ∈ tree.preorder)
    (run : visit node before = .ok after) (reachable : Reachable tree before) :
    Reachable tree after :=
  (visits.within run reachable.sound).reachable
    (fun _ mem => mem_subtree_trans mem inside) reachable

theorem Binds.reachable (binds : Binds tree bind) (inside : node ∈ tree.preorder)
    (run : bind node subject before = .ok after) (reachable : Reachable tree before)
    (known : Known subject.shape subject.chain before) :
    Reachable tree after ∧ Extends (· ∈ tree.subtree node) before.epoch before after := by
  have within := binds run reachable.sound known
  exact ⟨within.reachable (fun _ mem => mem_subtree_trans mem inside) reachable, within.grows⟩

theorem VisitsAs.all (same : VisitsAs tree fault visit otherVisit) (visits : Visits tree visit)
    (inside : ∀ node ∈ nodes, node ∈ tree.preorder) (reachable : Reachable tree pass) :
    CutShort fault (visitAll otherVisit nodes pass) (visitAll visit nodes pass) :=
  .foldlM (Reachable tree) (fun node mem _ reachable => ⟨same (inside node mem) reachable,
    fun run => visits.reachable (inside node mem) run reachable⟩) reachable

theorem BindAction.short {action : BindAction} {pattern : NodeId}
    (sameVisit : VisitsAs tree fault visit otherVisit) (sameBind : BindsAs tree fault bind otherBind)
    (inside : ∀ inner ∈ action.places tree, inner ∈ tree.preorder) (reachable : Reachable tree pass)
    (known : Known subject.shape subject.chain pass) :
    CutShort fault (action.run tree otherVisit otherBind pattern subject pass)
      (action.run tree visit bind pattern subject pass) := by
  cases action with
  | visit value => exact sameVisit (inside value (tree.mem_subtree_self value)) reachable
  | name | mark => exact .refl _ _
  | bind part share =>
    exact sameBind (inside part (tree.mem_subtree_self part)) reachable (share.known known reachable.sound)

theorem bindsAs_bindBody (visits : Visits tree visit) (binds : Binds tree bind)
    (sameVisit : VisitsAs tree fault visit otherVisit) (sameBind : BindsAs tree fault bind otherBind) :
    BindsAs tree fault (bindBody tree visit bind) (bindBody tree otherVisit otherBind) := by
  intro pattern subject pass inside reachable known
  have below {inner : NodeId} {action : BindAction} (mem : action ∈ tree.bindActions pattern)
      (among : inner ∈ action.places tree) : inner ∈ tree.below pattern :=
    (tree.subperm_bindActions pattern).subset (mem_flatMap.2 ⟨action, mem, among⟩)
  have lower {inner : NodeId} (among : inner ∈ tree.below pattern) : inner ∈ tree.preorder := by
    refine mem_subtree_trans ?_ inside
    rw [subtree_eq]
    exact .tail _ among
  have grown : Extends (· ∈ tree.preorder) 0 pass (pass.mark pattern) := extends_mark inside
  rw [bindBody_eq, bindBody_eq]
  refine .foldlM (fun pass => Reachable tree pass ∧ Known subject.shape subject.chain pass ∧
    Here pass pattern) (fun action mem pass fine => ?_)
    ⟨reachable.tail (.mark inside), grown.known known, here_mark pass pattern⟩
  obtain ⟨reachable, known, here⟩ := fine
  refine ⟨BindAction.short sameVisit sameBind (fun inner among => lower (below mem among)) reachable known,
    fun run => ?_⟩
  have within := BindAction.within visits binds reachable.sound known here run
  refine ⟨within.reachable (fun inner covered => ?_) reachable, within.grows.known known,
    within.here (fun among => Nat.lt_irrefl _ (lt_of_mem_below (below mem among))) here⟩
  rcases covered with rfl | among
  · exact inside
  · exact lower (below mem among)

theorem Action.short {action : Action} (visits : Visits tree visit)
    (sameVisit : VisitsAs tree fault visit otherVisit) (sameBind : BindsAs tree fault bind otherBind)
    (does : tree.Does node action) (inside : node ∈ tree.preorder) (reachable : Reachable tree pass) :
    CutShort fault (action.run tree otherVisit otherBind node pass)
      (action.run tree visit bind node pass) := by
  have children {child : NodeId} (operand : child ∈ tree.operands node) : child ∈ tree.preorder :=
    mem_preorder_of_child inside (mem_children_of_operands operand)
  cases does with
  | visit operand => exact sameVisit (children operand) reachable
  | @scope kind =>
    exact (sameVisit.all visits (fun _ => children) (reachable.tail (.enter kind node))).then
      fun _ _ => .refl _ _
  | store _ _ operand => exact (sameVisit (children operand) reachable).then fun _ _ => .refl _ _
  | @take pattern kind found =>
    have shape := reachable.sound.takenShape tree (· ∈ tree.preorder) kind (tree.source? node)
    have shaped := shape.1.reachable reachable
    exact sameBind (mem_preorder_of_child inside (pattern?_beside found).1) shaped
      (shaped.sound.known_pattern shape.2 _)
  | refer | label | declare | assign | hold => exact .refl _ _

theorem visitsAs_visitBody (visits : Visits tree visit) (binds : Binds tree bind)
    (sameVisit : VisitsAs tree fault visit otherVisit) (sameBind : BindsAs tree fault bind otherBind)
    (blocks : Bool) :
    VisitsAs tree fault (visitBody tree blocks visit bind)
      (visitBody tree blocks otherVisit otherBind) := by
  intro node pass inside reachable
  have below {inner : NodeId} {action : Action} (mem : action ∈ tree.actions blocks node)
      (among : inner ∈ action.places tree) : inner ∈ tree.below node :=
    (tree.subperm_below blocks node).subset (mem_flatMap.2 ⟨action, mem, among⟩)
  unfold visitBody
  rw [visitParts_eq, visitParts_eq]
  refine CutShort.then (.foldlM (fun pass => Reachable tree pass ∧ Here pass node)
    (fun action mem pass fine => ?_) ⟨reachable.tail (.mark inside), here_mark pass node⟩)
    fun _ _ => .refl _ _
  have does := does_of_mem mem
  refine ⟨Action.short visits sameVisit sameBind does inside fine.1, fun run => ?_⟩
  have within := Action.within visits binds does fine.1.sound fine.2 run
  refine ⟨within.reachable (fun inner covered => ?_) fine.1,
    within.here (fun among => Nat.lt_irrefl _ (lt_of_mem_below (below mem among))) fine.2⟩
  rcases covered with rfl | among
  · exact inside
  · refine mem_subtree_trans ?_ inside
    rw [subtree_eq]
    exact .tail _ (below mem among)

variable {inspect : Pass → Option FileFault} (content : ∀ state, Reachable tree state → inspect state = none)
include content

/-- An inspection that objects to no state the pass comes to changes nothing. -/
theorem cutShort_inspecting {part other : Pass → Except FileFault Pass} (reachable : Reachable tree pass)
    (same : CutShort none (other pass) (part pass))
    (reached : ∀ after, part pass = .ok after → Reachable tree after) :
    CutShort none (inspecting inspect other pass) (part pass) := by
  rw [cutShort_none] at same ⊢
  rw [inspecting, content pass reachable, same]
  cases run : part pass with
  | error fault => rfl
  | ok after =>
    simp only [Bind.bind, Except.bind, content after (reached after run)]
    rfl

theorem inspected_visit_and_bind (blocks : Bool) (limit room : Nat) :
    VisitsAs tree none (Pass.visit tree blocks limit room)
        (inspectedVisit inspect tree blocks limit room) ∧
      BindsAs tree none (Pass.bind tree blocks limit room)
        (inspectedBind inspect tree blocks limit room) := by
  induction room with
  | zero =>
    have stops {pass : Pass} (reachable : Reachable tree pass) : CutShort none
        (inspecting inspect (fun _ => .error (.depthExceeded limit)) pass) (.error (.depthExceeded limit)) :=
      cutShort_inspecting content reachable (.refl _ _) fun after run => nomatch run
    exact ⟨fun node pass _ reachable => stops reachable,
      fun pattern subject pass _ reachable _ => stops reachable⟩
  | succ room ih =>
    have visits := (visits_and_binds tree blocks limit room).1
    have binds := (visits_and_binds tree blocks limit room).2
    have body := bindsAs_bindBody visits binds ih.1 ih.2
    have checked : BindsAs tree none (Pass.bind tree blocks limit (room + 1))
        (inspectedBind inspect tree blocks limit (room + 1)) := by
      intro pattern subject pass inside reachable known
      refine cutShort_inspecting content reachable (body inside reachable known) fun after run => ?_
      exact ((binds_bindBody visits binds).reachable inside run reachable known).1
    refine ⟨fun node pass inside reachable => ?_, checked⟩
    refine cutShort_inspecting content reachable
      (visitsAs_visitBody visits (binds_bindBody visits binds) ih.1 checked blocks inside reachable)
      fun after run => ?_
    exact (visits_visitBody visits (binds_bindBody visits binds) blocks).reachable inside run reachable

theorem inspectedRun_eq (blocks : Bool) (limits : Limits) :
    inspectedRun inspect tree blocks limits = run tree blocks limits := by
  unfold inspectedRun run
  split
  · rfl
  · exact cutShort_none.1 ((inspected_visit_and_bind content blocks limits.maxDepth
      (limits.maxDepth + 1)).1 (tree.mem_subtree_self tree.root) .refl)

end Pass

/-- Every lookup in the model leads to something that is there. -/
structure Model.Closed (model : Model) : Prop where
  resolution : ∀ node id, model.resolution node = .bound id →
    ∃ binding, model.scopes.binding? id = some binding
  chain : ∀ node chain id name, model.chain? node = some chain → chain.root = .binding id name →
    ∃ binding, model.scopes.binding? id = some binding
  scopeOf : ∀ node, ∃ scope, model.scopes.scopes[model.scopeOf node]? = some scope
  shapeOf : ∀ node id, model.shapeOf? node = some id → ∃ shape, model.shapes.get? id = some shape
  bindingShape : ∀ binding epoch id, model.bindingShape? binding epoch = some id →
    ∃ shape, model.shapes.get? id = some shape
  visibleFields : ∀ object epoch, ∀ field ∈ model.shapes.visibleFields object epoch,
    ∃ shape, model.shapes.get? field.shape = some shape

namespace Pass

theorem Orderly.closed_model (orderly : Orderly tree pass) : (pass.model tree).Closed where
  resolution := fun node id bound => by
    unfold Model.resolution at bound
    cases found : pass.scopes.resolution? node with
    | none =>
      rw [model_scopes, found] at bound
      cases bound
    | some resolution =>
      rw [model_scopes, found] at bound
      exact ⟨_, Array.getElem?_eq_getElem (orderly.sound.references node id (bound ▸ found))⟩
  chain := (orderly.sound.closed tree).chain
  scopeOf := fun node => by
    refine ⟨_, Array.getElem?_eq_getElem ?_⟩
    unfold Model.scopeOf
    split
    · rename_i mark found
      obtain ⟨marked, _, atMarked⟩ := exists_of_findSome?_eq_some found
      exact orderly.markScope marked mark atMarked
    · exact Nat.zero_lt_of_lt orderly.current
  shapeOf := fun node id found => exists_of_lt_size (orderly.sound.shapeOf? found)
  bindingShape := fun id epoch shape found => by
    obtain ⟨binding, atId, found⟩ := Option.bind_eq_some_iff.1 found
    split at found
    · exact exists_of_lt_size (orderly.sound.terminus found)
    · exact exists_of_lt_size ((orderly.sound.bindings id binding atId).shape shape found)
  visibleFields := (orderly.sound.closed tree).visibleFields

/-- The pass never holds a handle that dangles and never writes out of order. An inspection of the
states before and after each node that is visited or bound, which lets through what operations of the
pass can lead to, changes nothing, also where the pass fails. After any such operations the state is
intact, lookups in it lead to something that is there, and the fields that an object shows at an epoch
are those that its first writes leave. A model that the pass yields is closed in the same way. -/
theorem intact_throughout (tree : Tree) (blocks : Bool) (limits : Limits) :
    (∀ inspect : Pass → Option FileFault, (∀ state, Reachable tree state → inspect state = none) →
      inspectedRun inspect tree blocks limits = run tree blocks limits) ∧
    (∀ state, Reachable tree state → Intact tree state ∧ Closed tree state ∧
      ∀ id shape, state.shapes.get? id = some shape → ∀ epoch, ∃ seen rest,
        shape.history = seen ++ rest ∧ (∀ write ∈ seen, write.epoch ≤ epoch) ∧
        (∀ write ∈ rest, epoch < write.epoch) ∧
        shape.visibleFields epoch =
          seen.foldl (fun fields write => Shape.replaceField write.field fields) []) ∧
    ∀ model, Model.ofTree tree blocks limits = .ok model → model.Closed := by
  refine ⟨fun inspect content => inspectedRun_eq content blocks limits, fun state reachable => ?_,
    fun model analysed => ?_⟩
  · have orderly := reachable.orderly
    have intact := orderly.intact
    refine ⟨intact, orderly.sound.closed tree, fun id shape found epoch => ?_⟩
    obtain ⟨rest, split, unseen⟩ := Write.split_of_ordered (intact.ordered id shape found) epoch
    refine ⟨_, rest, split, fun write member => ?_, unseen, shape.visibleFields_eq_foldl epoch⟩
    simpa using (mem_filter.1 member).2
  · obtain ⟨pass, run, rfl⟩ := Model.ofTree_eq_ok.1 analysed
    have reachable : Reachable tree pass := (within_run run).reachable (fun _ inside => inside) .refl
    exact reachable.orderly.closed_model

end Pass

end LeakTrace
