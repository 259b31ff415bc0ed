import LeakTrace.Model
import LeakTrace.Proofs.Flow.Action

namespace LeakTrace

open List LeakTrace.Tree Option

variable {limits : Limits} {pattern child : NodeId} {tree : Tree} {node inner : NodeId}

namespace Tree

/-- The nodes below a node, each before its children. -/
def below (tree : Tree) (node : NodeId) : List NodeId := (tree.children node).flatMap tree.subtree

theorem sweep_order_append (order more stack : List NodeId) :
    tree.sweep (order ++ more) stack = more.reverse ++ tree.sweep order stack := by
  fun_induction sweep tree order stack with
  | case1 order => rw [sweep, reverse_append]
  | case2 order id stack ih => rw [sweep, ← cons_append, ih]

theorem sweep_append (order first second : List NodeId) :
    tree.sweep order (first ++ second) = tree.sweep order first ++ tree.sweep [] second := by
  fun_induction sweep tree order first with
  | case1 order => exact sweep_order_append [] order second
  | case2 order id first ih => rw [cons_append, sweep, ← append_assoc, ih]

theorem sweep_eq (stack : List NodeId) : tree.sweep [] stack = stack.flatMap tree.subtree := by
  induction stack with
  | nil => rw [sweep, reverse_nil, flatMap_nil]
  | cons id rest ih => rw [flatMap_cons, ← ih, subtree, ← sweep_append, singleton_append]

theorem subtree_eq (tree : Tree) (node : NodeId) : tree.subtree node = node :: tree.below node := by
  rw [subtree, sweep, append_nil, ← nil_append [node], sweep_order_append, sweep_eq]
  rfl

theorem mem_subtree_self (tree : Tree) (node : NodeId) : node ∈ tree.subtree node := by
  rw [subtree_eq]
  exact .head _

theorem mem_subtree_of_child (mem : child ∈ tree.children node)
    (inside : inner ∈ tree.subtree child) : inner ∈ tree.subtree node := by
  rw [subtree_eq]
  exact .tail _ (mem_flatMap.2 ⟨child, mem, inside⟩)

theorem mem_subtree_child (mem : child ∈ tree.children node) : child ∈ tree.subtree node :=
  mem_subtree_of_child mem (tree.mem_subtree_self child)

theorem mem_subtree_iff_reflTransGen : inner ∈ tree.subtree node ↔
    Relation.ReflTransGen (fun outer inner => inner ∈ tree.children outer) node inner := by
  constructor
  · intro inside
    induction node using Nat.strongRecOn with | ind node ih
    rw [subtree_eq, mem_cons] at inside
    rcases inside with rfl | deeper
    · exact .refl
    · obtain ⟨child, mem, inside⟩ := mem_flatMap.1 deeper
      exact .head mem (ih child (lt_of_mem_children mem) inside)
  · intro path
    induction path using Relation.ReflTransGen.head_induction_on with
    | refl => exact tree.mem_subtree_self inner
    | head mem _ ih => exact mem_subtree_of_child mem ih

theorem mem_subtree_trans {outer : NodeId} (inside : inner ∈ tree.subtree node)
    (mem : node ∈ tree.subtree outer) : inner ∈ tree.subtree outer := by
  rw [mem_subtree_iff_reflTransGen] at *
  exact mem.trans inside

theorem le_of_mem_subtree (mem : inner ∈ tree.subtree node) : inner ≤ node := by
  rw [mem_subtree_iff_reflTransGen] at mem
  induction mem with
  | refl => exact Nat.le_refl _
  | tail _ mem ih => exact Nat.le_trans (Nat.le_of_lt (lt_of_mem_children mem)) ih

theorem lt_of_mem_below (mem : inner ∈ tree.below node) : inner < node := by
  obtain ⟨child, among, inside⟩ := mem_flatMap.1 mem
  exact Nat.lt_of_le_of_lt (le_of_mem_subtree inside) (lt_of_mem_children among)

theorem ancestors_of_none (top : tree.parent node = none) : tree.ancestors node = [] := by
  rw [ancestors]
  split
  · rfl
  · rename_i link
    rw [top] at link
    cases link

theorem ancestors_of_some {parent : NodeId} (link : tree.parent node = some parent) :
    tree.ancestors node = parent :: tree.ancestors parent := by
  rw [ancestors]
  split
  · rename_i top
    rw [link] at top
    cases top
  · rename_i found
    rw [link] at found
    cases found
    rfl

theorem le_of_mem_ancestors {above : NodeId} (mem : above ∈ node :: tree.ancestors node) :
    node ≤ above := by
  fun_induction ancestors tree node with
  | case1 node top => exact Nat.le_of_eq (mem_singleton.1 mem).symm
  | case2 node parent link ih =>
    rcases mem_cons.1 mem with rfl | higher
    · exact Nat.le_refl _
    · exact Nat.le_trans (Nat.le_of_lt (lt_of_parent link).1) (ih higher)

end Tree

variable {α β : Type} {tree : Tree} {blocks : Bool}

theorem subperm_flatMap {first second : List α} (f : α → List β) (sub : first.Subperm second) :
    (first.flatMap f).Subperm (second.flatMap f) := by
  obtain ⟨middle, same, inside⟩ := sub
  exact ⟨middle.flatMap f, same.flatMap_right f, inside.flatMap f⟩

theorem subperm_flatMap_of_mem {items : List α} {f g : α → List β}
    (sub : ∀ item ∈ items, (f item).Subperm (g item)) : (items.flatMap f).Subperm (items.flatMap g) := by
  induction items with
  | nil => exact .refl _
  | cons item rest ih =>
    exact (sub item (.head _)).append
      (ih fun other mem => sub other (.tail _ mem))

namespace Pass

/-- The nodes that an action comes to. -/
def Action.places (tree : Tree) : Action → List NodeId
  | .visit child => tree.subtree child
  | .scope _ parts => parts.flatMap tree.subtree
  | .label name _ _ | .declare name _ | .assign name _ => [name]
  | .store target _ => tree.subtree target
  | .take pattern _ _ => tree.subtree pattern
  | .refer | .hold _ => []

/-- The part of the pattern that a binding action is about. -/
def BindAction.parts : BindAction → List NodeId
  | .visit part | .mark part | .bind part _ => [part]
  | .name => []

/-- The nodes that a part of the binding of a pattern comes to. -/
def BindAction.places (tree : Tree) : BindAction → List NodeId
  | .visit value => tree.subtree value
  | .name => []
  | .mark entry => [entry]
  | .bind part _ => tree.subtree part

end Pass

namespace Tree

open Pass (Action BindAction)

variable (tree : Tree)

theorem subperm_places (action : Action) :
    (action.places tree).Subperm (action.parts.flatMap tree.subtree) := by
  cases action with
  | scope => exact .refl _
  | label name | declare name | assign name =>
    rw [Action.parts, flatMap_singleton]
    exact singleton_subperm_iff.2 (tree.mem_subtree_self name)
  | visit | store | take =>
    rw [Action.parts, flatMap_singleton]
    exact .refl _
  | refer | hold => exact .refl _

/-- What is come to below a node lies below it, and nothing is come to twice. -/
theorem subperm_below (blocks : Bool) (node : NodeId) :
    ((tree.actions blocks node).flatMap (Action.places tree)).Subperm (tree.below node) := by
  have parts := subperm_flatMap tree.subtree (tree.subperm_actions blocks node)
  rw [flatMap_assoc] at parts
  exact (subperm_flatMap_of_mem fun action _ => tree.subperm_places action).trans parts

theorem subperm_entryActions (entry : NodeId) :
    ((tree.entryActions entry).flatMap (BindAction.places tree)).Subperm (tree.subtree entry) := by
  have inner : (tree.below entry).Subperm (tree.subtree entry) := by
    rw [subtree_eq]
    exact (sublist_cons_self _ _).subperm
  unfold entryActions
  cases tree.kind entry
  case pair =>
    rw [flatMap_cons, flatMap_map, subtree_eq]
    exact (Subperm.refl _).append ((tree.sublist_optional entry .value).flatMap _).subperm
  case identifier => simp [BindAction.places, Subperm.refl]
  all_goals
    rw [flatMap_map]
    exact (filter_sublist.flatMap tree.subtree).subperm.trans inner

theorem subperm_parts {tree : Tree} (other : tree.kind pattern ≠ .objectPattern) :
    ((tree.bindActions pattern).flatMap BindAction.parts).Subperm (tree.children pattern) := by
  have single {make : NodeId → BindAction} (parts : ∀ child, (make child).parts = [child])
      (nodes : List NodeId) :
      (nodes.map make).flatMap BindAction.parts = nodes := by
    simp [flatMap_map, parts]
  have code : (tree.codeChildren pattern).Subperm (tree.children pattern) := filter_sublist.subperm
  unfold bindActions
  cases kind : tree.kind pattern
  case objectPattern => contradiction
  case array =>
    have same : ((tree.codeChildren pattern).zipIdx.map fun place =>
        BindAction.bind place.1 (.element place.2)).flatMap BindAction.parts =
          ((tree.codeChildren pattern).zipIdx.map Prod.fst).flatMap ([·]) := by
      rw [flatMap_map, flatMap_map]
      rfl
    rw [same, zipIdx_map_fst, flatMap_singleton']
    exact code
  case assignment =>
    rw [flatMap_append, single fun _ => rfl, single fun _ => rfl]
    exact tree.subperm_roles pattern (by decide)
  case spread | parameter =>
    rw [single fun _ => rfl]
    exact code
  all_goals exact nil_subperm

theorem subperm_bindPlaces (action : BindAction) :
    (action.places tree).Subperm (action.parts.flatMap tree.subtree) := by
  cases action with
  | name => exact .refl _
  | mark entry =>
    rw [BindAction.parts, flatMap_singleton]
    exact singleton_subperm_iff.2 (tree.mem_subtree_self entry)
  | visit | bind =>
    rw [BindAction.parts, flatMap_singleton]
    exact .refl _

theorem subperm_bindActions (pattern : NodeId) :
    ((tree.bindActions pattern).flatMap (BindAction.places tree)).Subperm (tree.below pattern) := by
  by_cases object : tree.kind pattern = .objectPattern
  · rw [bindActions, object, flatMap_assoc]
    exact (subperm_flatMap_of_mem fun entry _ => tree.subperm_entryActions entry).trans
      (filter_sublist.flatMap tree.subtree).subperm
  · have parts := subperm_flatMap tree.subtree (subperm_parts object)
    rw [flatMap_assoc] at parts
    exact (subperm_flatMap_of_mem fun action _ => tree.subperm_bindPlaces action).trans parts

end Tree

namespace Pass

variable {tree : Tree} {Region Larger : NodeId → Prop} {nodes more : List NodeId}
  {before middle after : Pass} {visit : Visit} {bind : Bind}

/-- A part of the pass that comes to no other nodes than these, and to none of them twice. -/
def Within (tree : Tree) (Region : NodeId → Prop) (nodes : List NodeId) (before after : Pass) : Prop :=
  ∃ trace, Course tree Region before trace after ∧ trace.Subperm nodes

theorem Course.within (course : Course tree Region before [] after) :
    Within tree Region [] before after :=
  ⟨[], course, .refl _⟩

theorem within_mark (region : Region node) : Within tree Region [node] before (before.mark node) :=
  ⟨[node], .mark .start region, .refl _⟩

theorem Within.trans (first : Within tree Region nodes before middle)
    (second : Within tree Region more middle after) :
    Within tree Region (nodes ++ more) before after := by
  obtain ⟨trace, course, inside⟩ := first
  obtain ⟨later, rest, insideMore⟩ := second
  exact ⟨trace ++ later, course.trans rest, inside.append insideMore⟩

theorem Within.mono (within : Within tree Region nodes before after)
    (larger : ∀ node, Region node → Larger node) (sub : nodes.Subperm more) :
    Within tree Larger more before after := by
  obtain ⟨trace, course, inside⟩ := within
  exact ⟨trace, course.mono larger, inside.trans sub⟩

theorem Within.then (within : Within tree Region nodes before middle)
    (course : Course tree Region middle [] after) : Within tree Region nodes before after := by
  have whole := within.trans course.within
  rwa [append_nil] at whole

namespace Within

variable (within : Within tree Region nodes before after)
include within

theorem sound (sound : before.Sound) : after.Sound := by
  obtain ⟨_, course, _⟩ := within
  exact course.sound sound

theorem grows : Extends Region before.epoch before after := by
  obtain ⟨_, course, _⟩ := within
  exact course.grows

theorem epoch_le : before.epoch ≤ after.epoch := by
  obtain ⟨_, course, _⟩ := within
  exact course.epoch_le

theorem here (absent : node ∉ nodes) (here : Here before node) : Here after node := by
  obtain ⟨_, course, sub⟩ := within
  exact course.here (fun mem => absent (sub.subset mem)) here

end Within

/-- A visit marks the node first, then nodes below it. -/
def Visits (tree : Tree) (visit : Visit) : Prop :=
  ∀ ⦃node : NodeId⦄ ⦃before after : Pass⦄, visit node before = .ok after → before.Sound →
    Within tree (· ∈ tree.subtree node) (tree.below node) (before.mark node) after

/-- Binding a pattern marks nodes of the pattern. -/
def Binds (tree : Tree) (bind : Bind) : Prop :=
  ∀ ⦃pattern : NodeId⦄ ⦃subject : Subject⦄ ⦃before after : Pass⦄,
    bind pattern subject before = .ok after → before.Sound →
    Known subject.shape subject.chain before →
    Within tree (· ∈ tree.subtree pattern) (tree.subtree pattern) before after

theorem Visits.within (visits : Visits tree visit) (run : visit node before = .ok after)
    (sound : before.Sound) : Within tree (· ∈ tree.subtree node) (tree.subtree node) before after := by
  have marked : Within tree (· ∈ tree.subtree node) [node] before (before.mark node) :=
    within_mark (tree.mem_subtree_self node)
  refine (marked.trans (visits run sound)).mono (fun _ inside => inside) ?_
  rw [subtree_eq]
  exact .refl _

theorem within_foldlM {step : Pass → α → Except FileFault Pass} {places : α → List NodeId}
    {items : List α} (Fine : Pass → Prop)
    (each : ∀ item ∈ items, ∀ {first last : Pass}, Fine first → step first item = .ok last →
      Fine last ∧ Within tree Region (places item) first last)
    (fine : Fine before) (run : items.foldlM step before = .ok after) :
    Fine after ∧ Within tree Region (items.flatMap places) before after := by
  induction items generalizing before with
  | nil =>
    cases run
    exact ⟨fine, Course.start.within⟩
  | cons item rest ih =>
    rw [foldlM_cons, bind_eq_ok] at run
    obtain ⟨middle, first, run⟩ := run
    obtain ⟨fineMiddle, here⟩ := each item (.head _) fine first
    obtain ⟨fineAfter, others⟩ :=
      ih (fun other mem => each other (.tail _ mem)) fineMiddle run
    exact ⟨fineAfter, here.trans others⟩

theorem Visits.all (visits : Visits tree visit)
    (inside : ∀ node ∈ nodes, ∀ inner ∈ tree.subtree node, Region inner) (sound : before.Sound)
    (run : visitAll visit nodes before = .ok after) :
    Within tree Region (nodes.flatMap tree.subtree) before after := by
  refine (within_foldlM Sound (fun node mem first last sound ran => ?_) sound run).2
  have within := visits.within ran sound
  exact ⟨within.sound sound, within.mono (inside node mem) (.refl _)⟩

section

variable {subject : Subject}

theorem known_part (known : Known subject.shape subject.chain before) (sound : before.Sound)
    (key : Option Key) : Known (subject.part before key).shape (subject.part before key).chain before := by
  cases key with
  | none => exact known_none before
  | some key =>
    refine ⟨fun shape mem => ?_, fun path mem => ?_, fun path mem => ?_⟩
    · obtain ⟨_, _, field⟩ := bind_eq_some_iff.1 mem
      exact sound.fieldAt field
    · obtain ⟨chain, atChain, rfl⟩ := map_eq_some_iff.1 mem
      exact known.chain chain atChain
    · obtain ⟨chain, atChain, rfl⟩ := map_eq_some_iff.1 mem
      exact known.certain chain atChain

theorem Share.known (share : Share) (known : Known subject.shape subject.chain before)
    (sound : before.Sound) :
    Known (share.of subject before).shape (share.of subject before).chain before := by
  cases share with
  | key place => exact known_part known sound place
  | element position => exact ⟨(known_part known sound _).shape, nofun, nofun⟩
  | whole => exact known

theorem BindAction.within {action : BindAction} (visits : Visits tree visit) (binds : Binds tree bind)
    (sound : before.Sound) (known : Known subject.shape subject.chain before) (here : Here before pattern)
    (run : action.run tree visit bind pattern subject before = .ok after) :
    Within tree (fun inner => inner = pattern ∨ inner ∈ action.places tree) (action.places tree)
      before after := by
  cases action with
  | visit value => exact (visits.within run sound).mono (fun _ => .inr) (.refl _)
  | name =>
    cases run
    refine (course_bindIdentifier ⟨known.shape, fun path mem => ?_⟩ (.inl rfl) here).within
    obtain ⟨atPath, keyed⟩ := filter_eq_some_iff.1 mem
    simp only [Bool.and_eq_true, Bool.not_eq_true', isEmpty_eq_false_iff] at keyed
    exact ⟨known.chain path atPath, keyed.2, keyed.1, known.certain path atPath⟩
  | mark entry =>
    cases run
    exact within_mark (.inr (mem_singleton_self entry))
  | bind part share => exact (binds run sound (share.known known sound)).mono (fun _ => .inr) (.refl _)

theorem within_bindActions {bindActions : List BindAction} (visits : Visits tree visit)
    (binds : Binds tree bind) (apart : pattern ∉ bindActions.flatMap (BindAction.places tree))
    (sound : before.Sound) (known : Known subject.shape subject.chain before) (here : Here before pattern)
    (run : bindActions.foldlM (BindAction.run tree visit bind pattern subject) before = .ok after) :
    Within tree (fun inner => inner = pattern ∨ inner ∈ bindActions.flatMap (BindAction.places tree))
      (bindActions.flatMap (BindAction.places tree)) before after := by
  refine (within_foldlM (fun pass => pass.Sound ∧ Known subject.shape subject.chain pass ∧ Here pass pattern)
    (fun action mem first last fine ran => ?_) ⟨sound, known, here⟩ run).2
  obtain ⟨sound, known, here⟩ := fine
  have within := BindAction.within visits binds sound known here ran
  refine ⟨⟨within.sound sound, within.grows.known known, within.here (fun inside => ?_) here⟩,
    within.mono (fun inner covered => covered.imp_right fun inside => ?_) (.refl _)⟩
  · exact apart (mem_flatMap.2 ⟨action, mem, inside⟩)
  · exact mem_flatMap.2 ⟨action, mem, inside⟩

end

theorem binds_bindBody (visits : Visits tree visit) (binds : Binds tree bind) :
    Binds tree (bindBody tree visit bind) := by
  intro pattern subject before after run sound known
  rw [bindBody_eq] at run
  have marked : Within tree (· ∈ tree.subtree pattern) [pattern] before (before.mark pattern) :=
    within_mark (tree.mem_subtree_self pattern)
  have below := tree.subperm_bindActions pattern
  have within := within_bindActions visits binds
    (fun inside => Nat.lt_irrefl _ (lt_of_mem_below (below.subset inside)))
    (sound.mark pattern) (marked.grows.known known) (here_mark before pattern) run
  rw [subtree_eq] at marked ⊢
  refine (marked.trans (within.mono (fun inner covered => ?_) below)).mono (fun _ inside => inside) (.refl _)
  exact mem_cons.2 (covered.imp_right fun inside => below.subset inside)

theorem within_inScope {kind : ScopeKind} {body : Pass → Except FileFault Pass} (sound : before.Sound)
    (run : before.inScope kind node body = .ok after)
    (inner : ∀ {first last : Pass}, body first = .ok last → first.Sound →
      Within tree Region nodes first last) :
    Within tree Region nodes before after := by
  obtain ⟨last, ran, finish⟩ := bind_eq_ok.1 run
  cases finish
  have entered : (before.enter kind node).Sound := sound.enter kind node
  obtain ⟨trace, course, sub⟩ := inner ran entered
  exact ⟨trace, Course.start.scope kind node course, sub⟩

theorem Sound.known_pattern (sound : before.Sound) {shape : Option ShapeId}
    (held : ∀ id ∈ shape, id < before.shapes.size) (value : Option NodeId) :
    Known shape (value.bind (before.patternChain? tree)) before := by
  have extended (path : Chain) (mem : path ∈ value.bind (before.patternChain? tree)) :
      path.root.Rooted before.scopes.bindings ∧ path.unknownTail = false := by
    obtain ⟨node, _, found⟩ := bind_eq_some_iff.1 mem
    obtain ⟨found, certain⟩ := filter_eq_some_iff.1 found
    exact ⟨sound.chain? found, by simpa using certain⟩
  exact ⟨held, fun path mem => (extended path mem).1,
    fun path mem => (extended path mem).2⟩

theorem Sound.takenShape (sound : before.Sound) (tree : Tree) (Region : NodeId → Prop) (kind : BindingKind)
    (value : Option NodeId) :
    (courses tree Region).Gains before (before.takenShape tree kind value).1
      (before.takenShape tree kind value).2 :=
  (courses tree Region).gains_takenShape sound (fun _ _ => trivial) kind

theorem Sound.valueShape (sound : before.Sound) (tree : Tree) (Region : NodeId → Prop)
    (origin : Origin) (value : Option NodeId) :
    Obtains tree Region before (before.valueShape tree origin value).1
      (before.valueShape tree origin value).2 :=
  ((courses tree Region).gains_valueShape sound (fun _ _ => trivial) origin).obtains

theorem Sound.boundValue (sound : before.Sound) (tree : Tree) (Region : NodeId → Prop)
    (value : Option NodeId) :
    Course tree Region before [] (before.boundValue tree value).2 ∧
      Bindable (before.boundValue tree value).1.1 (before.boundValue tree value).1.2
        (before.boundValue tree value).2 := by
  have gains := (courses tree Region).gains_boundValue sound fun _ (_ : _ ∈ value) => trivial
  refine ⟨gains.keeps, gains.held, fun path stands => ?_⟩
  cases value with
  | none => cases stands
  | some value =>
    obtain ⟨same, expanded⟩ := sound.expanded stands
    rw [Pass.boundValue, same]
    exact expanded

theorem mem_subtree_rootIdentifier? {identifier : NodeId}
    (found : tree.rootIdentifier? node = some identifier) : identifier ∈ tree.subtree node := by
  fun_induction rootIdentifier? tree node with
  | case1 =>
    cases found
    exact tree.mem_subtree_self _
  | case2 node _ object atObject ih | case4 node _ object atObject ih =>
    exact mem_subtree_of_child (mem_children_of_child? atObject) (ih found)
  | case3 | case5 | case6 => cases found

theorem Sound.stored (sound : before.Sound) {site target : NodeId}
    (left : tree.child? site .left = some target) (value : Option NodeId) :
    Course tree (fun inner => tree.rootIdentifier? target = some inner) before []
      (before.stored tree target value site) := by
  have obtains :=
    sound.valueShape tree (fun inner => tree.rootIdentifier? target = some inner) .expression value
  exact obtains.course.trans ((obtains.sound sound).writeThrough obtains.held left fun _ root => root)

section

variable {node : NodeId} (visits : Visits tree visit) {blocks : Bool}
include visits

theorem Action.within {action : Action} (binds : Binds tree bind) (does : tree.Does node action)
    (sound : before.Sound) (here : Here before node)
    (run : action.run tree visit bind node before = .ok after) :
    Within tree (fun inner => inner = node ∨ inner ∈ action.places tree) (action.places tree) before after := by
  cases does with
  | visit _ => exact (visits.within run sound).mono (fun _ => .inr) (.refl _)
  | scope =>
    exact within_inScope sound run fun ran first => visits.all
      (fun child mem inner inside => .inr (mem_flatMap.2 ⟨child, mem, inside⟩)) first ran
  | refer _ =>
    cases run
    exact (Move.refer (.inl rfl) here).course.within
  | @label name _ _ _ bare =>
    cases run
    exact course_declareName (.inr (mem_singleton_self name)) bare
  | @declare name _ found _ =>
    cases run
    -- The name of a declaration takes the place of the declaration, which keeps its mark.
    have bound := sound.boundValue tree (fun inner => inner = node ∨ inner ∈ [name]) (tree.child? node .value)
    exact bound.1.within.trans (course_declaredName bound.2 (.inr (mem_singleton_self name))
      (mem_children_of_child? found) (bound.1.here not_mem_nil here))
  | @assign name _ _ _ =>
    cases run
    have inside : name = node ∨ name ∈ [name] := .inr (mem_singleton_self name)
    have bound := (sound.mark name).boundValue tree (fun inner => inner = node ∨ inner ∈ [name])
      (tree.assignedValue? node)
    have back := bound.1.here not_mem_nil (here_mark before name)
    exact ((within_mark inside).then bound.1).then (course_bindIdentifier bound.2 inside back)
  | store _ found _ =>
    obtain ⟨visited, ran, finish⟩ := bind_eq_ok.1 run
    cases finish
    have reached := visits.within ran sound
    exact (reached.then (((reached.sound sound).stored found _).mono
      fun _ => mem_subtree_rootIdentifier?)).mono (fun _ => .inr) (.refl _)
  | @take pattern kind _ =>
    have shape := sound.takenShape tree (· ∈ tree.subtree pattern) kind (tree.source? node)
    have soundShaped := shape.1.sound sound
    exact (shape.1.within.trans (binds run soundShaped (soundShaped.known_pattern shape.2 _))).mono
      (fun _ => .inr) (.refl _)
  | hold _ =>
    cases run
    exact (sound.valueShape tree _ .parameter _).course.within

theorem within_actions {actions : List Action} (binds : Binds tree bind)
    (does : ∀ action ∈ actions, tree.Does node action) (apart : node ∉ actions.flatMap (Action.places tree))
    (sound : before.Sound) (here : Here before node)
    (run : actions.foldlM (Action.run tree visit bind node) before = .ok after) :
    Within tree (fun inner => inner = node ∨ inner ∈ actions.flatMap (Action.places tree))
      (actions.flatMap (Action.places tree)) before after := by
  refine (within_foldlM (fun pass => pass.Sound ∧ Here pass node) (fun action mem first last fine ran => ?_)
    ⟨sound, here⟩ run).2
  have within := Action.within visits binds (does action mem) fine.1 fine.2 ran
  refine ⟨⟨within.sound fine.1, within.here (fun inside => ?_) fine.2⟩,
    within.mono (fun inner covered => covered.imp_right fun inside => ?_) (.refl _)⟩
  · exact apart (mem_flatMap.2 ⟨action, mem, inside⟩)
  · exact mem_flatMap.2 ⟨action, mem, inside⟩

theorem within_visitParts (binds : Binds tree bind) (sound : before.Sound) (here : Here before node)
    (run : visitParts tree blocks visit bind node before = .ok after) :
    Within tree (· ∈ tree.subtree node) (tree.below node) before after := by
  rw [visitParts_eq] at run
  have below := tree.subperm_below blocks node
  refine (within_actions visits binds (fun _ => does_of_mem) (fun inside => ?_) sound here run).mono
    (fun inner covered => ?_) below
  · exact Nat.lt_irrefl _ (lt_of_mem_below (below.subset inside))
  · rw [subtree_eq]
    exact mem_cons.2 (covered.imp_right fun inside => below.subset inside)

/-- An object with parts is built at a later epoch than it is marked. -/
theorem epoch_lt_of_visitParts (sound : before.Sound)
    (run : visitParts tree blocks visit bind node before = .ok after) (object : tree.kind node = .object)
    (parts : tree.children node ≠ []) : before.epoch < after.epoch := by
  unfold visitParts at run
  rw [object] at run
  obtain ⟨child, rest, same⟩ := exists_cons_of_ne_nil parts
  simp only [same, visitAll, foldlM_cons, bind_eq_ok] at run
  obtain ⟨middle, first, run⟩ := run
  have others := visits.all (fun _ _ _ _ => trivial) ((visits.within first sound).sound sound) run
  exact Nat.lt_of_lt_of_le (Nat.lt_of_succ_le (visits first sound).epoch_le) others.epoch_le

end

theorem visits_visitBody (visits : Visits tree visit) (binds : Binds tree bind)
    (blocks : Bool) : Visits tree (visitBody tree blocks visit bind) := by
  intro node before after run sound
  obtain ⟨middle, parts, finish⟩ := bind_eq_ok.1 run
  cases finish
  have soundMarked := sound.mark node
  have inner := within_visitParts visits binds soundMarked (here_mark before node) parts
  have marked : middle.marks[node]? = some ⟨before.epoch + 1, before.current⟩ := by
    obtain ⟨trace, course, sub⟩ := inner
    rw [course.marks_eq fun mem => Nat.lt_irrefl _ (lt_of_mem_below (sub.subset mem))]
    exact Std.TreeMap.getElem?_insert_self
  exact inner.then ((inner.sound soundMarked).memoize (tree.mem_subtree_self node) marked
    fun object some => epoch_lt_of_visitParts visits soundMarked parts object some)

theorem visits_and_binds (tree : Tree) (blocks : Bool) (limit room : Nat) :
    Visits tree (Pass.visit tree blocks limit room) ∧
      Binds tree (Pass.bind tree blocks limit room) := by
  induction room with
  | zero => exact ⟨fun _ _ _ run => (nomatch run), fun _ _ _ _ run => (nomatch run)⟩
  | succ room ih =>
    have binds := binds_bindBody ih.1 ih.2
    exact ⟨visits_visitBody ih.1 binds blocks, binds⟩

theorem within_run (run : Pass.run tree blocks limits = .ok after) :
    Within tree (· ∈ tree.preorder) tree.preorder start after := by
  unfold Pass.run at run
  split at run
  · cases run
  · exact (visits_and_binds tree blocks limits.maxDepth _).1.within run sound_start

/-- What is known of a tree after the pass. -/
@[simps] def model (pass : Pass) (tree : Tree) : Model where
  tree := tree
  scopes := pass.scopes
  shapes := pass.shapes
  marks := pass.marks
  fixed := pass.fixed
  suppressions := Suppressions.ofSource tree.source

end Pass

/-- A model is what a pass over the tree has left. -/
theorem Model.ofTree_eq_ok {model : Model} : Model.ofTree tree blocks limits = .ok model ↔
      ∃ pass, Pass.run tree blocks limits = .ok pass ∧ pass.model tree = model := by
  simp only [ofTree, bind_eq_ok, pure, Except.pure, Except.ok.injEq, Pass.model]

theorem Model.tree_of_ofTree {model : Model}
    (analysed : Model.ofTree tree blocks limits = .ok model) : model.tree = tree := by
  obtain ⟨_, _, rfl⟩ := Model.ofTree_eq_ok.1 analysed
  rfl

theorem Model.markOf?_of_marked {model : Model} {mark : Mark} (marked : model.marks[node]? = some mark) :
    model.markOf? node = some mark := by
  rw [markOf?, findSome?_cons, marked]

theorem Model.markOf?_of_parent {model : Model} {parent : NodeId} (unmarked : model.marks[node]? = none)
    (link : model.tree.parent node = some parent) : model.markOf? node = model.markOf? parent := by
  rw [markOf?, findSome?_cons, unmarked, ancestors_of_some link]
  rfl

theorem Model.shapeOf?_eq (model : Model) (node : NodeId) :
    model.shapeOf? node = match model.fixed[node]? with
      | some shape => some shape
      | none => match model.tree.kind node with
        | .identifier | .member | .index => (model.chain? node).bind fun chain =>
          model.scopes.terminus model.shapes chain (model.epochOf node)
        | .assignment => (model.tree.child? node .right).bind model.shapeOf?
        | _ => none := by
  rw [shapeOf?]
  cases model.fixed[node]? with
  | some shape => rfl
  | none =>
    cases model.tree.kind node with
    | assignment => cases model.tree.child? node .right <;> rfl
    | _ => rfl

theorem Pass.Sound.shapeOf? {pass : Pass} (sound : pass.Sound) {shape : ShapeId}
    (found : (pass.model tree).shapeOf? node = some shape) : shape < pass.shapes.size := by
  induction node using Nat.strongRecOn with | ind node ih
  rw [Model.shapeOf?_eq] at found
  split at found
  · rename_i fixed
    cases found
    exact sound.fixed node shape fixed
  split at found
  case h_1 | h_2 | h_3 =>
    obtain ⟨chain, _, ends⟩ := bind_eq_some_iff.1 found
    exact sound.terminus ends
  case h_4 =>
    obtain ⟨right, atRight, found⟩ := bind_eq_some_iff.1 found
    exact ih right (lt_of_child? atRight) found
  case h_5 => cases found

end LeakTrace
