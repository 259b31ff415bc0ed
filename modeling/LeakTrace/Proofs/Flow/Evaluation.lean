import LeakTrace.Proofs.Tree.Proper

namespace LeakTrace

open List LeakTrace.Tree Chain

variable {tree : Tree} {child part : NodeId} {blocks : Bool} {limit : Nat} {final : Pass}

namespace Tree

variable {node inner : NodeId} {entry : NodeId}

/-- The node gives a name or a pattern a value. -/
def IsAssigning (tree : Tree) (node : NodeId) : Prop :=
  tree.kind node = .declaration ∨ tree.kind node = .assignment ∨ tree.kind node = .parameter

theorem isAssigning_of_pattern? {pattern : NodeId} (found : tree.pattern? node = some pattern) :
    tree.IsAssigning node := by
  unfold pattern? at found
  split at found
  · exact .inl ‹_›
  · exact .inr (.inl ‹_›)
  · exact .inr (.inr ‹_›)
  · cases found

theorem IsAssigning.rootIdentifier? (assigning : tree.IsAssigning node) :
    tree.rootIdentifier? node = none := by
  rw [rootIdentifier?_eq]
  rcases assigning with kind | kind | kind <;> rw [kind]

theorem rootIdentifier?_of_child (proper : tree.Proper) (mem : child ∈ tree.children node)
    (inside : inner ∈ tree.subtree child) (root : tree.rootIdentifier? node = some inner) :
    tree.rootIdentifier? child = some inner := by
  have through (object : NodeId) (found : tree.child? node .object = some object)
      (root : tree.rootIdentifier? object = some inner) : tree.rootIdentifier? child = some inner := by
    by_cases same : object = child
    · rwa [← same]
    · have below := Pass.mem_subtree_rootIdentifier? root
      exact absurd inside (proper.disjoint (mem_children_of_child? found) mem same below)
  rw [rootIdentifier?_eq] at root
  split at root
  · cases root
    exact absurd inside (not_mem_subtree_child mem)
  · obtain ⟨object, found, root⟩ := Option.bind_eq_some_iff.1 root
    exact through object found root
  · obtain ⟨object, found, root⟩ := Option.bind_eq_some_iff.1 root
    exact through object found root
  · cases root

theorem mem_bindActions_of_entry {pattern : NodeId} {action : Pass.BindAction}
    (object : tree.kind pattern = .objectPattern) (mem : entry ∈ tree.codeChildren pattern)
    (inside : action ∈ tree.entryActions entry) : action ∈ tree.bindActions pattern := by
  rw [bindActions, object]
  exact mem_flatMap.2 ⟨entry, mem, inside⟩

theorem mem_bindActions_of_pair {pattern : NodeId} (object : tree.kind pattern = .objectPattern)
    (mem : entry ∈ tree.codeChildren pattern) (pair : tree.kind entry = .pair)
    (value : tree.child? entry .value = some part) :
    .bind part (.key ((tree.child? entry .key).bind tree.entryKey?)) ∈ tree.bindActions pattern :=
  mem_bindActions_of_entry object mem (by simp [entryActions, pair, value])

theorem actions_of_pattern? {pattern : NodeId} (blocks : Bool)
    (found : tree.pattern? node = some pattern) : ∃ kind, tree.actions blocks node =
      (tree.source? node).toList.map .visit ++ [.take pattern (tree.source? node) kind] := by
  unfold pattern? at found
  split at found
  · rename_i kind
    exact ⟨.destructured, by simp_all [actions, source?]⟩
  · rename_i kind
    obtain ⟨left, taken⟩ := Option.filter_eq_some_iff.1 found
    rcases Bool.or_eq_true_iff.1 taken with same | same
    all_goals simp [actions, source?, kind, left, leftAction, eq_of_beq same]
  · rename_i kind
    exact ⟨.parameter, by simp [actions, source?, kind, found]⟩
  · cases found

end Tree

namespace Pass

variable {Region : NodeId → Prop} {nodes : List NodeId} {before after : Pass} {visit : Visit} {bind : Bind}
  {node : NodeId} {middle : Pass}

section Loop

variable {α : Type} {step : Pass → α → Except FileFault Pass} {items : List α} {item : α}
  {places : α → List NodeId} {early late : List α}

/-- One of the steps of a loop, with what goes before and what comes after. -/
theorem exists_of_foldlM (run : (early ++ item :: late).foldlM step before = .ok after) :
    ∃ first last, early.foldlM step before = .ok first ∧ step first item = .ok last ∧
      late.foldlM step last = .ok after := by
  rw [foldlM_append, bind_eq_ok] at run
  obtain ⟨first, start, run⟩ := run
  rw [foldlM_cons, bind_eq_ok] at run
  obtain ⟨last, here, rest⟩ := run
  exact ⟨first, last, start, here, rest⟩

theorem apart_of_nodup (apart : node ∉ (early ++ item :: late).flatMap places)
    (distinct : ((early ++ item :: late).flatMap places).Nodup) :
    node ∉ early.flatMap places ∧ node ∉ places item ∧ node ∉ late.flatMap places ∧
      ∀ inner ∈ late.flatMap places, inner ∉ places item := by
  rw [flatMap_append, flatMap_cons] at apart distinct
  simp only [mem_append, not_or] at apart
  refine ⟨apart.1, apart.2.1, apart.2.2, fun inner among inside => ?_⟩
  exact (nodup_append.1 (nodup_append.1 distinct).2.1).2.2 inner inside inner among rfl

end Loop

theorem Visits.exists_visit (visits : Visits tree visit) (distinct : (nodes.flatMap tree.subtree).Nodup)
    (sound : before.Sound) (run : visitAll visit nodes before = .ok after) (mem : child ∈ nodes) :
    ∃ first last, visit child first = .ok last ∧ first.Sound ∧
      Extends (· ∉ tree.subtree child) 0 last after := by
  obtain ⟨early, late, rfl⟩ := append_of_mem mem
  obtain ⟨first, last, start, here, rest⟩ := exists_of_foldlM run
  have soundFirst := (visits.all (fun _ _ _ _ => trivial) sound start).sound sound
  refine ⟨first, last, here, soundFirst, ?_⟩
  rw [flatMap_append, flatMap_cons, nodup_append, nodup_append] at distinct
  have beside (node : NodeId) (among : node ∈ late) (inner : NodeId) (inside : inner ∈ tree.subtree node) :
      inner ∉ tree.subtree child :=
    fun also => distinct.2.1.2.2 inner also inner (mem_flatMap.2 ⟨node, among, inside⟩) rfl
  exact (visits.all beside ((visits.within here soundFirst).sound soundFirst) rest).grows.mono
    (fun _ outside => outside) (Nat.zero_le _)

/-- Each action is done, and what is recorded at the places that it comes to stands when all are. -/
theorem exists_action {action : Action} {early late : List Action} (visits : Visits tree visit)
    (binds : Binds tree bind) (proper : tree.Proper) (sound : before.Sound) (here : Here before node)
    (run : visitParts tree blocks visit bind node before = .ok after)
    (split : tree.actions blocks node = early ++ action :: late) :
    ∃ first last, action.run tree visit bind node first = .ok last ∧ first.Sound ∧
      late.foldlM (Action.run tree visit bind node) last = .ok after ∧
      Extends (· ∉ action.places tree) 0 last after := by
  have below := tree.subperm_below blocks node
  have does (other : Action) (among : other ∈ tree.actions blocks node) := does_of_mem among
  rw [visitParts_eq, split] at run
  obtain ⟨first, last, start, ran, rest⟩ := exists_of_foldlM run
  rw [split] at below does
  obtain ⟨apartEarly, apart, apartLate, beside⟩ := apart_of_nodup
    (fun inside => Nat.lt_irrefl _ (lt_of_mem_below (below.subset inside)))
    (nodup_of_subperm below (proper.nodup_below node))
  have early := within_actions visits binds (fun _ among => does _ (mem_append_left _ among)) apartEarly
    sound here start
  have soundFirst := early.sound sound
  have within := Action.within visits binds (does _ (mem_append_right _ (.head _))) soundFirst
    (early.here apartEarly here) ran
  have late := within_actions visits binds
    (fun _ among => does _ (mem_append_right _ (.tail _ among))) apartLate
    (within.sound soundFirst) (within.here apart (early.here apartEarly here)) rest
  refine ⟨first, last, ran, soundFirst, rest, late.grows.mono (fun inner covered => ?_) (Nat.zero_le _)⟩
  rcases covered with rfl | among
  · exact apart
  · exact beside inner among

/-- Each part of a pattern is bound, and what is recorded there stands when all are. -/
theorem exists_bindAction {pattern : NodeId} {subject : Subject} {action : BindAction}
    (visits : Visits tree visit) (binds : Binds tree bind) (proper : tree.Proper) (sound : before.Sound)
    (known : Known subject.shape subject.chain before)
    (run : bindBody tree visit bind pattern subject before = .ok after)
    (mem : action ∈ tree.bindActions pattern) :
    ∃ first last, action.run tree visit bind pattern subject first = .ok last ∧ first.Sound ∧
      Known subject.shape subject.chain first ∧ Extends (· ∉ action.places tree) 0 last after := by
  have below := tree.subperm_bindActions pattern
  rw [bindBody_eq] at run
  obtain ⟨early, late, split⟩ := append_of_mem mem
  rw [split] at run below
  obtain ⟨first, last, start, ran, rest⟩ := exists_of_foldlM run
  obtain ⟨apartEarly, apart, apartLate, beside⟩ := apart_of_nodup
    (fun inside => Nat.lt_irrefl _ (lt_of_mem_below (below.subset inside)))
    (nodup_of_subperm below (proper.nodup_below pattern))
  have marked : Extends (· = pattern) 0 before (before.mark pattern) := extends_mark rfl
  have here := here_mark before pattern
  have early := within_bindActions visits binds apartEarly (sound.mark pattern) (marked.known known) here start
  have soundFirst := early.sound (sound.mark pattern)
  have knownFirst := early.grows.known (marked.known known)
  have within := BindAction.within visits binds soundFirst knownFirst (early.here apartEarly here) ran
  have late := within_bindActions visits binds apartLate (within.sound soundFirst)
    (within.grows.known knownFirst)
    (within.here apart (early.here apartEarly here)) rest
  refine ⟨first, last, ran, soundFirst, knownFirst, late.grows.mono (fun inner covered => ?_) (Nat.zero_le _)⟩
  rcases covered with rfl | among
  · exact apart
  · exact beside inner among

/-- Nodes of which more may become known once a node has been visited: those that do not lie at or below
it, and the identifier at the root of the path at it, which a write through the path may bind. -/
def Later (tree : Tree) (node inner : NodeId) : Prop :=
  inner ∈ tree.subtree node → tree.rootIdentifier? node = some inner

theorem Extends.later (extend : Extends (· ∉ tree.subtree node) 0 middle after) :
    Extends (Later tree node) 0 middle after :=
  extend.mono (fun _ outside inside => absurd inside outside) (Nat.le_refl _)

/-- What was recorded at a node that is no access, and below it, stands. -/
theorem Extends.outside (extend : Extends (Later tree node) 0 middle after)
    (value : (tree.kind node).isAccess = false) : Extends (· ∉ tree.subtree node) 0 middle after := by
  have bare : tree.rootIdentifier? node = none := by
    rw [rootIdentifier?_eq]
    cases kind : tree.kind node with
    | identifier | member | index =>
      rw [kind] at value
      cases value
    | _ => rfl
  refine extend.mono (fun inner later inside => ?_) (Nat.le_refl _)
  cases bare.symm.trans (later inside)

/-- Each operand of a node is visited, and what is recorded at it and below stands when all parts of the
node have been visited. -/
theorem exists_of_visitParts (visits : Visits tree visit) (binds : Binds tree bind) (proper : tree.Proper)
    (sound : before.Sound) (here : Here before node)
    (run : visitParts tree blocks visit bind node before = .ok after) (mem : child ∈ tree.operands node) :
    ∃ first last, visit child first = .ok last ∧ first.Sound ∧ Extends (Later tree child) 0 last after := by
  rw [← tree.operands_actions blocks node] at mem
  obtain ⟨action, among, inside⟩ := mem_flatMap.1 mem
  obtain ⟨early, late, split⟩ := append_of_mem among
  obtain ⟨first, last, ran, soundFirst, _, kept⟩ := exists_action visits binds proper sound here run split
  cases does_of_mem among with
  | visit _ =>
    cases mem_singleton.1 inside
    exact ⟨first, last, ran, soundFirst, kept.later⟩
  | scope =>
    obtain ⟨stop, inner, finish⟩ := bind_eq_ok.1 ran
    cases finish
    have places := ((singleton_sublist.2 among).flatMap (Action.places tree)).subperm.trans
      (tree.subperm_below blocks node)
    rw [flatMap_singleton] at places
    obtain ⟨start, last, ran, soundStart, inner⟩ := visits.exists_visit
      (nodup_of_subperm places (proper.nodup_below node)) (soundFirst.enter _ node) inner inside
    refine ⟨start, last, ran, soundStart, (inner.later.trans
      ((extends_leave _ _).mono (fun _ => False.elim) (Nat.le_refl _))).trans
      (kept.mono (fun inner outside below => ?_) (Nat.le_refl _))⟩
    exact absurd (mem_flatMap.2 ⟨child, inside, below⟩) outside
  | @store target _ found _ =>
    cases mem_singleton.1 inside
    obtain ⟨visited, seen, finish⟩ := bind_eq_ok.1 ran
    cases finish
    have soundVisited := (visits.within seen soundFirst).sound soundFirst
    have written : Extends (Later tree child) 0 visited _ :=
      ((soundVisited.stored found (tree.assignedValue? node)).extends (Nat.zero_le _)).mono
        (fun _ root _ => root) (Nat.le_refl _)
    exact ⟨first, visited, seen, soundFirst, written.trans kept.later⟩
  | refer | label | declare | assign | take | hold => cases inside

theorem Sound.extends_memoize (sound : before.Sound) (tree : Tree) (node : NodeId) :
    Extends (· = node) 0 before (before.memoize tree node) := by
  have made := ((courses tree (· = node)).gains_fixedShape sound node).keeps.extends (Nat.zero_le _)
  unfold Pass.memoize
  split
  · rename_i shape pass run
    rw [run] at made
    refine made.trans { Extends.refl (· = node) 0 pass with fixed := fun other outside => ?_ }
    exact getElem?_insert_of_ne fun same => outside same.symm
  · rename_i pass run
    rw [run] at made
    exact made

theorem Sound.extends_below (sound : before.Sound)
    (kept : Extends (· ∉ tree.subtree node) 0 (before.memoize tree node) after) :
    Extends (· ∉ tree.below node) 0 before after := by
  refine ((sound.extends_memoize tree node).mono ?_ (Nat.le_refl _)).trans (kept.mono ?_ (Nat.le_refl _))
  · rintro _ rfl inside
    exact Nat.lt_irrefl _ (lt_of_mem_below inside)
  · intro inner outside inside
    rw [subtree_eq] at outside
    exact outside (.tail _ inside)

section Whole

/-- The node was visited, and what was recorded at it and below stands at the end. -/
def Visited (tree : Tree) (blocks : Bool) (limit : Nat) (final : Pass) (node : NodeId) : Prop :=
  ∃ room first last, Pass.visit tree blocks limit room node first = .ok last ∧ first.Sound ∧
    Extends (Later tree node) 0 last final

/-- The pattern took apart the value at the end of the path, if it has one, and what was recorded in the
pattern stands at the end. -/
def Taken (tree : Tree) (blocks : Bool) (limit : Nat) (final : Pass) (path : Option Chain)
    (pattern : NodeId) : Prop :=
  ∃ room subject first last, Pass.bind tree blocks limit room pattern subject first = .ok last ∧
    first.Sound ∧ Known subject.shape subject.chain first ∧ subject.chain = path ∧
    Extends (· ∉ tree.subtree pattern) 0 last final

namespace Visited

variable (visited : Visited tree blocks limit final node)
include visited

/-- A node that was visited got its mark, then its parts were visited, and at last its shape was fixed. -/
theorem exists_parts :
    ∃ (room : Nat) (start middle : Pass), visitParts tree blocks (Pass.visit tree blocks limit room)
        (Pass.bind tree blocks limit (room + 1)) node (start.mark node) = .ok middle ∧ start.Sound ∧
      middle.Sound ∧ Within tree (· ∈ tree.subtree node) (tree.below node) (start.mark node) middle ∧
      Extends (Later tree node) 0 (middle.memoize tree node) final := by
  obtain ⟨room, start, last, run, sound, extend⟩ := visited
  cases room with
  | zero => cases run
  | succ room =>
    obtain ⟨visits, binds⟩ := visits_and_binds tree blocks limit room
    obtain ⟨middle, parts, finish⟩ := bind_eq_ok.1 run
    cases finish
    have inner := within_visitParts visits (binds_bindBody visits binds) (sound.mark node)
      (here_mark start node) parts
    exact ⟨room, start, middle, parts, sound, inner.sound (sound.mark node), inner, extend⟩

theorem exists_memoize (proper : tree.Proper) :
    ∃ start middle : Pass, middle.Sound ∧
      Within tree (· ∈ tree.subtree node) (tree.below node) (start.mark node) middle ∧
      (∀ child ∈ tree.operands node, Visited tree blocks limit middle child) ∧
      Extends (Later tree node) 0 (middle.memoize tree node) final := by
  obtain ⟨room, start, middle, run, sound, soundMiddle, inner, extend⟩ := visited.exists_parts
  obtain ⟨visits, binds⟩ := visits_and_binds tree blocks limit room
  refine ⟨start, middle, soundMiddle, inner, fun child mem => ?_, extend⟩
  obtain ⟨first, last, ran, soundFirst, kept⟩ := exists_of_visitParts visits (binds_bindBody visits binds)
    proper (sound.mark node) (here_mark start node) run mem
  exact ⟨room, first, last, ran, soundFirst, kept⟩

theorem operand (proper : tree.Proper) (mem : child ∈ tree.operands node) :
    Visited tree blocks limit final child := by
  obtain ⟨start, middle, sound, _, operands, extend⟩ := visited.exists_memoize proper
  obtain ⟨room, first, last, ran, soundFirst, kept⟩ := operands child mem
  have part := mem_children_of_operands mem
  refine ⟨room, first, last, ran, soundFirst, (kept.trans ((sound.extends_memoize tree node).mono ?_
    (Nat.le_refl _))).trans (extend.mono (fun inner later inside => ?_) (Nat.le_refl _))⟩
  · rintro _ rfl inside
    exact absurd inside (not_mem_subtree_child part)
  · exact rootIdentifier?_of_child proper part inside (later (mem_subtree_of_child part inside))

/-- What a node that gives a name or a pattern a value does last stands at the end. -/
theorem exists_last {actions : List Action} {action : Action} (proper : tree.Proper)
    (assigning : tree.IsAssigning node) (split : tree.actions blocks node = actions ++ [action]) :
    ∃ room middle last, action.run tree (Pass.visit tree blocks limit room)
        (Pass.bind tree blocks limit (room + 1)) node middle = .ok last ∧ middle.Sound ∧
      ∀ part ∈ tree.children node, Extends (· ∉ tree.subtree part) 0 last final := by
  obtain ⟨room, start, after, run, sound, soundAfter, _, extend⟩ := visited.exists_parts
  obtain ⟨visits, binds⟩ := visits_and_binds tree blocks limit room
  obtain ⟨middle, last, ran, soundMiddle, finish, _⟩ := exists_action visits (binds_bindBody visits binds)
    proper (sound.mark node) (here_mark start node) run split
  cases finish
  refine ⟨room, middle, after, ran, soundMiddle, fun part mem => ?_⟩
  refine ((soundAfter.extends_memoize tree node).mono ?_ (Nat.le_refl _)).trans
    (extend.mono (fun inner later inside => ?_) (Nat.le_refl _))
  · rintro _ rfl inside
    exact not_mem_subtree_child mem inside
  · cases assigning.rootIdentifier?.symm.trans (later (mem_subtree_of_child mem inside))

/-- The pattern of a node that was visited took apart the value, whose path has not changed since. -/
theorem pattern {pattern : NodeId} (proper : tree.Proper) (found : tree.pattern? node = some pattern) :
    ∃ shaped, shaped.Sound ∧
      Taken tree blocks limit final ((tree.source? node).bind (shaped.patternChain? tree)) pattern ∧
      ∀ value, tree.source? node = some value → Extends (· ∉ tree.subtree value) 0 shaped final := by
  obtain ⟨kind, split⟩ := actions_of_pattern? blocks found
  obtain ⟨mem, beside⟩ := pattern?_beside found
  obtain ⟨room, middle, last, bound, sound, outside⟩ :=
    visited.exists_last proper (isAssigning_of_pattern? found) split
  obtain ⟨visits, binds⟩ := visits_and_binds tree blocks limit room
  have shape := sound.takenShape tree (fun _ => False) kind (tree.source? node)
  have soundShaped := shape.1.sound sound
  refine ⟨_, soundShaped, ⟨room + 1, _, _, last, bound, soundShaped, soundShaped.known_pattern shape.2 _, rfl,
    outside pattern mem⟩, fun value source => ?_⟩
  have valued := mem_children_of_source? source
  have inner := (binds_bindBody visits binds bound soundShaped (soundShaped.known_pattern shape.2 _)).grows
  refine (inner.mono (fun inner inside => ?_) (Nat.zero_le _)).trans (outside value valued)
  have different : pattern ≠ value := fun same => beside (same ▸ source)
  exact proper.disjoint mem valued different inside

end Visited

/-- The path of the part under a key; none without a static key. -/
def underKey (path : Option Chain) (key : Option Key) : Option Chain :=
  key.bind fun key => path.map (·.extend key)

/-- The path of the share of a part of a pattern. -/
def Share.path (path : Option Chain) : Share → Option Chain
  | .key place => underKey path place
  | .element _ => none
  | .whole => path

theorem Share.chain_of (subject : Subject) (pass : Pass) (share : Share) :
    (share.of subject pass).chain = share.path subject.chain := by
  cases share with
  | key place => cases place <;> rfl
  | element | whole => rfl

variable {path : Option Chain} {pattern : NodeId}

namespace Taken

variable (taken : Taken tree blocks limit final path pattern)
include taken

theorem exists_body :
    ∃ room subject first last, bindBody tree (Pass.visit tree blocks limit room)
        (Pass.bind tree blocks limit room) pattern subject first = .ok last ∧ first.Sound ∧
      Known subject.shape subject.chain first ∧ subject.chain = path ∧
      Extends (· ∉ tree.subtree pattern) 0 last final := by
  obtain ⟨room, subject, first, last, run, rest⟩ := taken
  cases room with
  | zero => cases run
  | succ room => exact ⟨room, subject, first, last, run, rest⟩

theorem exists_bindAction {action : BindAction} (proper : tree.Proper)
    (mem : action ∈ tree.bindActions pattern) :
    ∃ room subject first last, action.run tree (Pass.visit tree blocks limit room)
        (Pass.bind tree blocks limit room) pattern subject first = .ok last ∧ first.Sound ∧
      Known subject.shape subject.chain first ∧ subject.chain = path ∧
      Extends (· ∉ action.places tree) 0 last final := by
  obtain ⟨room, subject, first, last, run, sound, known, same, extend⟩ := taken.exists_body
  obtain ⟨visits, binds⟩ := visits_and_binds tree blocks limit room
  obtain ⟨start, stop, ran, soundStart, knownStart, kept⟩ :=
    Pass.exists_bindAction visits binds proper sound known run mem
  refine ⟨room, subject, start, stop, ran, soundStart, knownStart, same,
    kept.trans (extend.mono (fun inner outside inside => outside ?_) (Nat.le_refl _))⟩
  rw [subtree_eq]
  exact mem_cons_of_mem _
    ((tree.subperm_bindActions pattern).subset (mem_flatMap.2 ⟨action, mem, inside⟩))

theorem share (proper : tree.Proper) (share : Share) (mem : .bind part share ∈ tree.bindActions pattern) :
    Taken tree blocks limit final (share.path path) part := by
  obtain ⟨room, subject, first, last, run, sound, known, rfl, extend⟩ := taken.exists_bindAction proper mem
  exact ⟨room, _, first, last, run, sound, share.known known sound, share.chain_of subject first, extend⟩

theorem value (proper : tree.Proper) (wrapper : tree.kind pattern = .assignment) {value : NodeId}
    (right : tree.child? pattern .right = some value) : Visited tree blocks limit final value := by
  have mem : .visit value ∈ tree.bindActions pattern := by simp [bindActions, wrapper, right]
  obtain ⟨room, subject, first, last, run, sound, _, _, extend⟩ := taken.exists_bindAction proper mem
  exact ⟨room, first, last, run, sound, extend.later⟩

end Taken

end Whole

end Pass

namespace Tree

/-- The way from the top of a pattern down to one of its parts, with the keys along it. They are known as
long as it passes only through entries of objects with static keys and through defaults. -/
inductive Reaches (tree : Tree) (top : NodeId) : Option (List Key) → NodeId → Prop
  | top : Reaches tree top (some []) top
  | pair {keys : Option (List Key)} {pattern entry part : NodeId} : Reaches tree top keys pattern →
      tree.kind pattern = .objectPattern → entry ∈ tree.codeChildren pattern → tree.kind entry = .pair →
      tree.child? entry .value = some part →
      Reaches tree top (keys.bind fun keys => ((tree.child? entry .key).bind tree.entryKey?).map (keys ++ [·]))
        part
  | shorthand {keys : Option (List Key)} {pattern entry : NodeId} : Reaches tree top keys pattern →
      tree.kind pattern = .objectPattern → entry ∈ tree.codeChildren pattern →
      tree.kind entry = .identifier →
      Reaches tree top (keys.bind fun keys => (tree.text entry).map (keys ++ [.name ·])) entry
  | other {keys : Option (List Key)} {pattern entry part : NodeId} : Reaches tree top keys pattern →
      tree.kind pattern = .objectPattern → entry ∈ tree.codeChildren pattern → tree.kind entry ≠ .pair →
      tree.kind entry ≠ .identifier → part ∈ tree.codeChildren entry → Reaches tree top none part
  | element {keys : Option (List Key)} {pattern part : NodeId} : Reaches tree top keys pattern →
      tree.kind pattern = .array → part ∈ tree.codeChildren pattern → Reaches tree top none part
  | default {keys : Option (List Key)} {pattern part : NodeId} : Reaches tree top keys pattern →
      tree.kind pattern = .assignment → tree.child? pattern .left = some part →
      Reaches tree top keys part
  | rest {keys : Option (List Key)} {pattern part : NodeId} : Reaches tree top keys pattern →
      tree.kind pattern = .spread ∨ tree.kind pattern = .parameter → part ∈ tree.codeChildren pattern →
      Reaches tree top none part

/-- The nodes that are evaluated: the whole program, operands of what is evaluated, and defaults in
patterns by which it takes values apart. Malformed regions are not, nor are computed keys in patterns. -/
inductive Evaluated (tree : Tree) : NodeId → Prop
  | root : Evaluated tree tree.root
  | operand {node child : NodeId} : Evaluated tree node → child ∈ tree.operands node →
      Evaluated tree child
  | default {node top pattern value : NodeId} {keys : Option (List Key)} : Evaluated tree node →
      tree.pattern? node = some top → Reaches tree top keys pattern → tree.kind pattern = .assignment →
      tree.child? pattern .right = some value → Evaluated tree value

end Tree

/-- The path that goes on by the keys; none where they are not known. -/
def Chain.along (path : Option Chain) (keys : Option (List Key)) : Option Chain :=
  keys.bind fun keys => path.map fun chain => { chain with segments := chain.segments ++ keys }

namespace Pass

variable {path : Option Chain} {top node : NodeId} {keys : Option (List Key)}

theorem underKey_along (path : Option Chain) (keys : Option (List Key)) (key : Option Key) :
    underKey (along path keys) key =
      along path (keys.bind fun keys => key.map (keys ++ [·])) := by
  cases key <;> cases keys <;> cases path <;> simp [underKey, along, extend]

/-- Each part of a pattern takes apart what the keys on the way to it lead to. -/
theorem Taken.reaches (taken : Taken tree blocks limit final path top) (proper : tree.Proper)
    (reaches : tree.Reaches top keys node) :
    Taken tree blocks limit final (along path keys) node := by
  induction reaches with
  | top =>
    have same : along path (some []) = path := by cases path <;> simp [along]
    rwa [same]
  | @pair _ _ entry _ _ object mem pair value ih =>
    rw [← underKey_along]
    exact ih.share proper (.key _) (mem_bindActions_of_pair object mem pair value)
  | @shorthand keys _ entry _ object mem shorthand ih =>
    have same : (keys.bind fun keys => (tree.text entry).map (keys ++ [Key.name ·])) =
        keys.bind fun keys => ((tree.text entry).map Key.name).map (keys ++ [·]) := by
      simp only [Option.map_map, Function.comp_def]
    rw [same, ← underKey_along]
    refine ih.share proper (.key _) (mem_bindActions_of_entry object mem ?_)
    simp [entryActions, shorthand]
  | @other _ _ entry part _ object mem pair shorthand inner ih =>
    refine ih.share proper (.key none) (mem_bindActions_of_entry object mem ?_)
    unfold entryActions
    split
    · contradiction
    · contradiction
    · exact mem_map_of_mem inner
  | @element _ _ part _ array mem ih =>
    obtain ⟨position, bound, rfl⟩ := mem_iff_getElem.1 mem
    refine ih.share proper (.element position) ?_
    rw [bindActions, array]
    exact mem_map.2 ⟨_, mk_mem_zipIdx_iff_getElem?.2 (getElem?_eq_getElem bound), rfl⟩
  | default _ wrapper left ih =>
    exact ih.share proper .whole (by simp [bindActions, wrapper, left])
  | rest _ rest mem ih =>
    refine ih.share proper (.key none) ?_
    rcases rest with kind | kind
    all_goals simpa [bindActions, kind] using mem

theorem visited_of_evaluated {limits : Limits} (proper : tree.Proper)
    (run : Pass.run tree blocks limits = .ok final) (evaluated : tree.Evaluated node) :
    Visited tree blocks limits.maxDepth final node := by
  induction evaluated with
  | root =>
    unfold Pass.run at run
    split at run
    · cases run
    · exact ⟨_, start, final, run, sound_start, .refl _ _ _⟩
  | operand _ mem ih => exact ih.operand proper mem
  | default _ found reaches wrapper right ih =>
    obtain ⟨_, _, taken, _⟩ := ih.pattern proper found
    exact (taken.reaches proper reaches).value proper wrapper right

end Pass

end LeakTrace
