import LeakTrace.Proofs.Flow.Traversal

namespace LeakTrace

open List LeakTrace.Tree Pass Option

variable {top : NodeId} {blocks : Bool} {scope : ScopeId} {tree : Tree}
  {node parent inner first second : NodeId}

namespace Tree

variable {child : NodeId}

/-- The nodes at or below a node have one place each. -/
def ProperBelow (tree : Tree) (top : NodeId) : Prop :=
  ∀ node ∈ tree.subtree top, (tree.children node).Nodup ∧
    ∀ child ∈ tree.children node, tree.parent child = some node

theorem Proper.properBelow (proper : tree.Proper) (top : NodeId) : tree.ProperBelow top :=
  fun node _ => ⟨proper.distinct node, proper.parent node⟩

theorem ProperBelow.parent_eq (proper : tree.ProperBelow node) (mem : child ∈ tree.children node) :
    tree.parent child = some node :=
  (proper node (tree.mem_subtree_self node)).2 child mem

/-- The node and the nodes above it, nearest first. -/
def lineage (tree : Tree) (node : NodeId) : List NodeId := node :: tree.ancestors node

theorem lineage_of_parent (link : tree.parent node = some parent) :
    tree.lineage node = node :: tree.lineage parent := by
  rw [lineage, ancestors_of_some link, lineage]

theorem lineage_of_none (none : tree.parent node = none) : tree.lineage node = [node] := by
  rw [lineage, ancestors_of_none none]

theorem mem_lineage_self (tree : Tree) (node : NodeId) : node ∈ tree.lineage node := (.head _)

theorem lineage_trans (inside : node ∈ tree.lineage inner) (mem : top ∈ tree.lineage node) :
    top ∈ tree.lineage inner := by
  fun_induction ancestors tree inner with
  | case1 inner none =>
    rw [lineage_of_none none, mem_singleton] at inside
    exact inside ▸ mem
  | case2 inner parent link ih =>
    rw [lineage_of_parent link] at inside
    rcases mem_cons.1 inside with rfl | above
    · exact mem
    · rw [lineage_of_parent link]
      exact .tail _ (ih above)

theorem lineage_comparable (inFirst : first ∈ tree.lineage inner) (inSecond : second ∈ tree.lineage inner) :
    first ∈ tree.lineage second ∨ second ∈ tree.lineage first := by
  fun_induction ancestors tree inner with
  | case1 inner none =>
    rw [lineage_of_none none, mem_singleton] at inFirst
    exact .inr (inFirst ▸ inSecond)
  | case2 inner parent link ih =>
    by_cases atFirst : first = inner
    · exact .inr (atFirst ▸ inSecond)
    by_cases atSecond : second = inner
    · exact .inl (atSecond ▸ inFirst)
    rw [lineage_of_parent link] at inFirst inSecond
    exact ih ((mem_cons.1 inFirst).resolve_left atFirst)
      ((mem_cons.1 inSecond).resolve_left atSecond)

theorem lt_of_mem_ancestors (mem : top ∈ tree.ancestors node) : node < top := by
  cases link : tree.parent node with
  | none =>
    rw [ancestors_of_none link] at mem
    cases mem
  | some parent =>
    rw [ancestors_of_some link] at mem
    exact Nat.lt_of_lt_of_le (lt_of_parent link).1 (le_of_mem_ancestors mem)

theorem not_mem_lineage_of_lt (below : top < node) : top ∉ tree.lineage node :=
  fun mem => Nat.not_lt.2 (le_of_mem_ancestors mem) below

theorem not_mem_lineage_sibling (link : tree.parent first = some parent)
    (alsoLink : tree.parent second = some parent) (different : first ≠ second) :
    first ∉ tree.lineage second := by
  rw [lineage_of_parent alsoLink, mem_cons, not_or]
  exact ⟨different, not_mem_lineage_of_lt (lt_of_parent link).1⟩

/-- The nodes whose scopes a node stands in, nearest first: those above it, without the function that it is
the name of. -/
def around (tree : Tree) (node : NodeId) : List NodeId :=
  match tree.parent node with
  | none => []
  | some parent =>
    if tree.kind parent = .function ∧ tree.child? parent .name = some node then tree.ancestors parent
    else tree.lineage parent

/-- Of the nodes that open a scope, only functions have a name that is marked. -/
theorem function_of_label? {kind : ScopeKind} {name : NodeId}
    (label : tree.label? node = some name) (opens : tree.opens? blocks node = some kind) :
    tree.kind node = .function ∧ tree.child? node .name = some name := by
  unfold label? at label
  split at label
  · rename_i function
    exact ⟨function, (filter_eq_some_iff.1 label).1⟩
  · rename_i «class»
    simp only [opens?, «class»] at opens
    cases opens
  · cases label

theorem around_subset (tree : Tree) (node : NodeId) : tree.around node ⊆ tree.ancestors node := by
  unfold around
  split
  · exact nil_subset _
  rename_i parent link
  rw [ancestors_of_some link]
  split
  · exact subset_cons_self _ _
  · exact Subset.refl _

end Tree

namespace Layout

variable {layout : Layout} {other : NodeId} {nodes : List NodeId} {task : Task}

theorem getElem?_mark (layout : Layout) (node other : NodeId) :
    (layout.mark node).marks[other]? =
      if node = other then some ⟨layout.epoch + 1, layout.current⟩ else layout.marks[other]? := by
  simp only [Layout.mark, Std.TreeMap.getElem?_insert, Std.compare_eq_iff_eq]

theorem mem_marks_of_getElem? {mark : Mark} (found : layout.marks[node]? = some mark) :
    node ∈ layout.marks := by
  rw [Std.TreeMap.mem_iff_isSome_getElem?, found]
  rfl

theorem exists_of_mem_marks (marked : node ∈ layout.marks) : ∃ mark, layout.marks[node]? = some mark := by
  rw [Std.TreeMap.mem_iff_isSome_getElem?] at marked
  exact isSome_iff_exists.1 marked

/-- The scope that a node has opened. -/
def opener? (layout : Layout) (node : NodeId) : Option ScopeId :=
  layout.frames.findIdx? fun frame => frame.node == some node

/-- The scope of the nearest of the nodes that has opened one. -/
def nearest (layout : Layout) (nodes : List NodeId) : ScopeId :=
  (nodes.findSome? layout.opener?).getD Scopes.root

theorem opener?_eq_none : layout.opener? node = none ↔ ¬layout.Opened node := by
  simp [opener?, Opened, Array.findIdx?_eq_none_iff]

theorem opener?_enter (layout : Layout) (kind : ScopeKind) (node other : NodeId) :
    (layout.enter kind node).opener? other =
      (layout.opener? other).or (if node = other then some layout.frames.size else none) := by
  simp [opener?, enter, Array.findIdx?_push]

theorem nearest_congr {before after : Layout}
    (same : ∀ node ∈ nodes, after.opener? node = before.opener? node) :
    after.nearest nodes = before.nearest nodes := by
  rw [nearest, nearest, ← head?_filterMap, ← head?_filterMap, filterMap_congr same]

theorem nearest_cons_of_none (closed : layout.opener? node = none) :
    layout.nearest (node :: nodes) = layout.nearest nodes := by
  rw [nearest, findSome?_cons, closed, nearest]

theorem nearest_cons_of_some (opened : layout.opener? node = some scope) :
    layout.nearest (node :: nodes) = scope := by
  rw [nearest, findSome?_cons, opened, getD_some]

/-- No node at or below this one has been marked. -/
def Unseen (tree : Tree) (layout : Layout) (top : NodeId) : Prop :=
  ∀ node ∈ layout.marks, top ∉ tree.lineage node

theorem Unseen.child (unseen : Unseen tree layout top) (link : tree.parent node = some top) :
    Unseen tree layout node := by
  intro other marked inside
  refine unseen other marked (lineage_trans inside ?_)
  rw [lineage_of_parent link]
  exact .tail _ (tree.mem_lineage_self top)

theorem Unseen.mark (unseen : Unseen tree layout top) (beside : top ∉ tree.lineage node) :
    Unseen tree (layout.mark node) top := by
  intro other marked
  rcases mem_marks_mark.1 marked with rfl | old
  · exact beside
  · exact unseen other old

theorem Unseen.not_mem (unseen : Unseen tree layout node) : node ∉ layout.marks :=
  fun marked => unseen node marked (tree.mem_lineage_self node)

/-- What has been marked after the node lies below it. -/
def Lasts (tree : Tree) (layout : Layout) (top : NodeId) : Prop :=
  ∀ (node : NodeId) (one two : Mark), layout.marks[top]? = some one → layout.marks[node]? = some two →
    one.epoch < two.epoch → top ∈ tree.lineage node

/-- Epochs number the marked nodes, each after those above it and before what is not below them. -/
structure Numbered (tree : Tree) (layout : Layout) : Prop where
  count : layout.marks.size = layout.epoch
  full : ∀ epoch, 0 < epoch → epoch ≤ layout.epoch →
    ∃ (node : NodeId) (mark : Mark), layout.marks[node]? = some mark ∧ mark.epoch = epoch
  epoch : ∀ (node : NodeId) (mark : Mark), layout.marks[node]? = some mark →
    0 < mark.epoch ∧ mark.epoch ≤ layout.epoch
  distinct : ∀ (first second : NodeId) (one two : Mark), layout.marks[first]? = some one →
    layout.marks[second]? = some two → one.epoch = two.epoch → first = second
  order : ∀ (above node : NodeId) (one two : Mark), layout.marks[above]? = some one →
    layout.marks[node]? = some two → above ∈ tree.ancestors node → one.epoch < two.epoch
  between : ∀ (above node other : NodeId) (one two three : Mark), layout.marks[above]? = some one →
    layout.marks[node]? = some two → layout.marks[other]? = some three → above ∈ tree.ancestors node →
    one.epoch < three.epoch → three.epoch < two.epoch → above ∈ tree.lineage other

/-- Marked nodes are in the scope of the nearest node around them that opened one. All scopes but the first
are opened by different marked nodes, each inside the scope that its node is in. -/
structure Nested (tree : Tree) (blocks : Bool) (layout : Layout) : Prop where
  current : layout.current < layout.frames.size
  scope : ∀ (node : NodeId) (mark : Mark), layout.marks[node]? = some mark →
    mark.scope = layout.nearest (tree.around node)
  program : layout.frames[Scopes.root]? = some ⟨.program, none, none⟩
  frame : ∀ (id : ScopeId) (frame : Frame), layout.frames[id]? = some frame → id ≠ Scopes.root →
    ∃ node mark, frame.node = some node ∧ layout.marks[node]? = some mark ∧
      frame.parent = some mark.scope ∧ tree.opens? blocks node = some frame.kind
  once : ∀ (first second : ScopeId) (one two : Frame), layout.frames[first]? = some one →
    layout.frames[second]? = some two → one.node = two.node → first = second

theorem numbered_start (tree : Tree) : Numbered tree start.layout := by
  have none {node : NodeId} {mark : Mark} (found : start.layout.marks[node]? = some mark) : False :=
    not_mem_marks_start node (mem_marks_of_getElem? found)
  constructor
  · rfl
  · intro epoch later past
    exact absurd past (Nat.not_le_of_lt later)
  · intro node mark found
    exact (none found).elim
  · intro first second one two found
    exact (none found).elim
  · intro above node one two found
    exact (none found).elim
  · intro above node other one two three found
    exact (none found).elim

theorem nested_start (tree : Tree) (blocks : Bool) : Nested tree blocks start.layout := by
  have frames : start.layout.frames = #[⟨.program, none, none⟩] := by
    simp [layout, start, Scopes.ofProgram, Scope.frame]
  have single {id : ScopeId} {frame : Frame} (found : start.layout.frames[id]? = some frame) :
      id = Scopes.root := by
    rw [frames] at found
    exact Nat.lt_one_iff.1 (Array.getElem?_eq_some_iff.1 found).1
  constructor
  · rw [frames]
    exact Nat.zero_lt_one
  · intro node mark found
    exact absurd (mem_marks_of_getElem? found) (not_mem_marks_start node)
  · rw [frames]
    rfl
  · intro id frame found inner
    exact absurd (single found) inner
  · intro first second one two atFirst atSecond _
    rw [single atFirst, single atSecond]

/-- A node is marked before all nodes below it. -/
theorem Numbered.mark (numbered : Numbered tree layout) (unseen : Unseen tree layout node)
    (lasting : ∀ above ∈ tree.ancestors node, Lasts tree layout above) :
    Numbered tree (layout.mark node) where
  count := by
    have absent : layout.marks.contains node = false := by
      rw [← Bool.not_eq_true, ← Std.TreeMap.mem_iff_contains]
      exact unseen.not_mem
    rw [Layout.mark, Std.TreeMap.size_insert, absent, if_neg Bool.false_ne_true, numbered.count]
  full := by
    intro epoch later past
    by_cases last : epoch = layout.epoch + 1
    · exact ⟨node, ⟨layout.epoch + 1, layout.current⟩, by rw [getElem?_mark, if_pos rfl], last.symm⟩
    · have early : epoch ≤ layout.epoch := Nat.le_of_lt_succ (Nat.lt_of_le_of_ne past last)
      obtain ⟨other, mark, marked, same⟩ := numbered.full epoch later early
      have apart : node ≠ other := fun same => unseen.not_mem (same ▸ mem_marks_of_getElem? marked)
      exact ⟨other, mark, by rw [getElem?_mark, if_neg apart, marked], same⟩
  epoch := by
    intro other mark found
    rw [getElem?_mark] at found
    split at found
    · cases found
      exact ⟨Nat.succ_pos _, Nat.le_refl _⟩
    · have bounds := numbered.epoch other mark found
      exact ⟨bounds.1, Nat.le_succ_of_le bounds.2⟩
  distinct := by
    intro first second one two atFirst atSecond same
    rw [getElem?_mark] at atFirst atSecond
    split at atFirst <;> split at atSecond
    · rename_i here there
      exact here.symm.trans there
    · cases atFirst
      have bounds := numbered.epoch second two atSecond
      exact absurd (same ▸ bounds.2) (Nat.not_succ_le_self _)
    · cases atSecond
      have bounds := numbered.epoch first one atFirst
      exact absurd (same ▸ bounds.2) (Nat.not_succ_le_self _)
    · exact numbered.distinct first second one two atFirst atSecond same
  order := by
    intro above other one two atAbove atOther mem
    rw [getElem?_mark] at atAbove atOther
    split at atAbove
    · rename_i here
      subst here
      rw [if_neg (Nat.ne_of_gt (lt_of_mem_ancestors mem))] at atOther
      exact absurd (.tail _ mem) (unseen other (mem_marks_of_getElem? atOther))
    · split at atOther
      · cases atOther
        exact Nat.lt_succ_of_le (numbered.epoch above one atAbove).2
      · exact numbered.order above other one two atAbove atOther mem
  between := by
    intro above inner other one two three atAbove atInner atOther mem after before
    rw [getElem?_mark] at atAbove atInner atOther
    have last {place : NodeId} {mark : Mark} (found : layout.marks[place]? = some mark) :=
      (numbered.epoch place mark found).2
    split at atOther
    · -- The new node has the last epoch.
      cases atOther
      split at atInner
      · cases atInner
        exact absurd before (Nat.lt_irrefl _)
      · exact absurd (Nat.lt_trans before (Nat.lt_succ_of_le (last atInner))) (Nat.lt_irrefl _)
    · split at atAbove
      · cases atAbove
        exact absurd (Nat.lt_trans after (Nat.lt_succ_of_le (last atOther))) (Nat.lt_irrefl _)
      · split at atInner
        · rename_i here
          exact lasting above (here ▸ mem) other one three atAbove atOther after
        · exact numbered.between above inner other one two three atAbove atInner atOther mem after before

section

variable (nested : Nested tree blocks layout)
include nested

theorem Nested.not_opened (unmarked : node ∉ layout.marks) : ¬layout.Opened node := by
  rintro ⟨frame, mem, opened⟩
  obtain ⟨id, found⟩ := Array.mem_iff_getElem?.1 mem
  by_cases first : id = Scopes.root
  · rw [first, nested.program] at found
    cases found
    cases opened
  · obtain ⟨owner, mark, same, marked, _⟩ := nested.frame id frame found first
    cases same.symm.trans opened
    exact unmarked (mem_marks_of_getElem? marked)

theorem Nested.mark (unmarked : node ∉ layout.marks)
    (home : layout.current = layout.nearest (tree.around node)) :
    Nested tree blocks (layout.mark node) where
  current := nested.current
  scope := by
    intro other mark found
    rw [getElem?_mark] at found
    split at found
    · rename_i here
      cases found
      exact here ▸ home
    · exact nested.scope other mark found
  program := nested.program
  frame := by
    intro id frame found inner
    obtain ⟨owner, mark, opened, marked, rest⟩ := nested.frame id frame found inner
    refine ⟨owner, mark, opened, ?_, rest⟩
    have other : node ≠ owner := fun same => unmarked (same ▸ mem_marks_of_getElem? marked)
    rw [getElem?_mark, if_neg other, marked]
  once := nested.once

/-- A marked node opens one scope, and no node that has been marked stands in it. -/
theorem Nested.enter {kind : ScopeKind} {mark : Mark} (marked : layout.marks[node]? = some mark)
    (here : mark.scope = layout.current) (opens : tree.opens? blocks node = some kind)
    (closed : ¬layout.Opened node) (fresh : ∀ other ∈ layout.marks, node ∉ tree.around other) :
    Nested tree blocks (layout.enter kind node) where
  current := by simp [Layout.enter]
  scope := by
    intro other mark found
    rw [nested.scope other mark found]
    refine (nearest_congr fun around mem => ?_).symm
    have apart : node ≠ around := fun same =>
      fresh other (mem_marks_of_getElem? found) (same ▸ mem)
    rw [opener?_enter, if_neg apart, or_none]
  program := by
    have first : Scopes.root ≠ layout.frames.size := Nat.ne_of_lt (Nat.zero_lt_of_lt nested.current)
    rw [Layout.enter, Array.getElem?_push, if_neg first, nested.program]
  frame := by
    intro id frame found inner
    rw [Layout.enter, Array.getElem?_push] at found
    split at found
    · cases found
      exact ⟨node, mark, rfl, marked, by rw [if_pos nested.current, here], opens⟩
    · exact nested.frame id frame found inner
  once := by
    intro first second one two atFirst atSecond same
    rw [Layout.enter, Array.getElem?_push] at atFirst atSecond
    split at atFirst <;> split at atSecond
    · rename_i last alsoLast
      exact last.trans alsoLast.symm
    · cases atFirst
      exact absurd ⟨two, Array.mem_of_getElem? atSecond, same.symm⟩ closed
    · cases atSecond
      exact absurd ⟨one, Array.mem_of_getElem? atFirst, same⟩ closed
    · exact nested.once first second one two atFirst atSecond same

end

/-- From one layout to the other, nodes at or below this one have been marked and have opened scopes, and
nothing else has changed. -/
structure Grows (tree : Tree) (top : NodeId) (before after : Layout) : Prop where
  marks : ∀ (node : NodeId) (mark : Mark), after.marks[node]? = some mark →
    top ∈ tree.lineage node ∨ before.marks[node]? = some mark
  opener : ∀ node, top ∉ tree.lineage node → after.opener? node = before.opener? node
  size : before.frames.size ≤ after.frames.size

section Grows

variable {before middle after : Layout}

theorem Grows.refl (tree : Tree) (top : NodeId) (layout : Layout) : Grows tree top layout layout :=
  ⟨fun _ _ marked => .inr marked, fun _ _ => rfl, Nat.le_refl _⟩

theorem Grows.trans (one : Grows tree top before middle) (two : Grows tree top middle after) :
    Grows tree top before after where
  marks := fun node mark marked => (two.marks node mark marked).elim .inl (one.marks node mark)
  opener := fun node outside => (two.opener node outside).trans (one.opener node outside)
  size := Nat.le_trans one.size two.size

theorem Grows.above (grows : Grows tree node before after) (link : tree.parent node = some parent) :
    Grows tree parent before after := by
  have up {inner : NodeId} (mem : node ∈ tree.lineage inner) : parent ∈ tree.lineage inner := by
    refine lineage_trans mem ?_
    rw [lineage_of_parent link]
    exact .tail _ (tree.mem_lineage_self parent)
  exact ⟨fun other mark marked => (grows.marks other mark marked).imp_left up,
    fun other outside => grows.opener other fun mem => outside (up mem), grows.size⟩

theorem grows_mark (layout : Layout) (inside : top ∈ tree.lineage node) :
    Grows tree top layout (layout.mark node) where
  marks := by
    intro other mark marked
    rw [getElem?_mark] at marked
    split at marked
    · rename_i here
      exact .inl (here ▸ inside)
    · exact .inr marked
  opener := fun _ _ => rfl
  size := Nat.le_refl _

theorem grows_enter (tree : Tree) (layout : Layout) (kind : ScopeKind) (node : NodeId) :
    Grows tree node layout (layout.enter kind node) where
  marks := fun _ _ marked => .inr marked
  opener := by
    intro other outside
    have apart : node ≠ other := fun same => outside (same ▸ tree.mem_lineage_self other)
    rw [opener?_enter, if_neg apart, or_none]
  size := by simp [Layout.enter]

theorem Lasts.grows (lasts : Lasts tree before top) (above : top ∈ tree.ancestors other)
    (grows : Grows tree other before after) : Lasts tree after top := by
  intro node one two atTop atNode later
  rcases grows.marks node two atNode with below | old
  · exact lineage_trans below (.tail _ above)
  · have outside : other ∉ tree.lineage top := not_mem_lineage_of_lt (lt_of_mem_ancestors above)
    exact lasts node one two ((grows.marks top one atTop).resolve_left outside) old later

/-- The walk may go on to the node: nothing there has been seen, the nodes around it have not been left, and
the current scope is the one around. -/
structure Ready (tree : Tree) (layout : Layout) (node : NodeId) : Prop where
  unseen : Unseen tree layout node
  lasting : ∀ above ∈ tree.ancestors node, Lasts tree layout above
  outer : layout.current = layout.nearest (tree.ancestors node)
  home : layout.current = layout.nearest (tree.around node)

theorem Ready.beside (ready : Ready tree before node) (link : tree.parent node = some parent)
    (otherLink : tree.parent other = some parent) (different : node ≠ other)
    (grows : Grows tree other before after) (same : after.current = before.current) :
    Ready tree after node := by
  have kept {nodes : List NodeId} (above : nodes ⊆ tree.ancestors node) :
      after.nearest nodes = before.nearest nodes := by
    refine nearest_congr fun around mem => grows.opener around ?_
    have higher : around ∈ tree.lineage parent := by
      have mem := above mem
      rwa [ancestors_of_some link] at mem
    exact not_mem_lineage_of_lt
      (Nat.lt_of_lt_of_le (lt_of_parent otherLink).1 (le_of_mem_ancestors higher))
  refine ⟨fun marked seen inside => ?_, fun above mem => ?_, ?_, ?_⟩
  · obtain ⟨mark, found⟩ := exists_of_mem_marks seen
    rcases grows.marks marked mark found with below | old
    · rcases lineage_comparable inside below with up | up
      · exact not_mem_lineage_sibling link otherLink different up
      · exact not_mem_lineage_sibling otherLink link different.symm up
    · exact ready.unseen marked (mem_marks_of_getElem? old) inside
  · refine (ready.lasting above mem).grows ?_ grows
    rwa [ancestors_of_some otherLink, ← ancestors_of_some link]
  · rw [same, kept (Subset.refl _), ready.outer]
  · rw [same, kept (tree.around_subset node), ready.home]

end Grows

/-- A child of a node that opened no scope is in the scope that the node is in, also if it is its name. -/
theorem nearest_around_of_closed {child : NodeId} (link : tree.parent child = some node)
    (closed : layout.opener? node = none) :
    layout.nearest (tree.around child) = layout.nearest (tree.ancestors node) := by
  rw [around, link]
  dsimp only
  split
  · rfl
  · exact nearest_cons_of_none closed

theorem ready_of_closed {child : NodeId} (unseen : Unseen tree layout child)
    (lasting : ∀ above ∈ tree.ancestors child, Lasts tree layout above)
    (link : tree.parent child = some node) (closed : layout.opener? node = none)
    (outer : layout.current = layout.nearest (tree.ancestors node)) : Ready tree layout child := by
  refine ⟨unseen, lasting, ?_, ?_⟩
  · rw [ancestors_of_some link, nearest_cons_of_none closed, outer]
  · rw [nearest_around_of_closed link closed, outer]

theorem ready_enter {child : NodeId} (kind : ScopeKind) (unseen : Unseen tree layout child)
    (lasting : ∀ above ∈ tree.ancestors child, Lasts tree layout above)
    (link : tree.parent child = some node) (closed : layout.opener? node = none)
    (unnamed : ¬(tree.kind node = .function ∧ tree.child? node .name = some child)) :
    Ready tree (layout.enter kind node) child := by
  have opened : (layout.enter kind node).opener? node = some (layout.enter kind node).current := by
    rw [opener?_enter, closed, if_pos rfl, none_or, enter]
  refine ⟨unseen, lasting, ?_, ?_⟩
  · rw [ancestors_of_some link, nearest_cons_of_some opened]
  · rw [around, link]
    dsimp only
    rw [if_neg unnamed, lineage, nearest_cons_of_some opened]

/-- A layout of a walk. -/
structure Charted (tree : Tree) (blocks : Bool) (layout : Layout) : Prop
    extends Numbered tree layout, Nested tree blocks layout

theorem charted_start (tree : Tree) (blocks : Bool) : Charted tree blocks start.layout :=
  ⟨numbered_start tree, nested_start tree blocks⟩

namespace Charted

variable (charted : Charted tree blocks layout)
include charted

theorem mark (unseen : Unseen tree layout node)
    (lasting : ∀ above ∈ tree.ancestors node, Lasts tree layout above)
    (home : layout.current = layout.nearest (tree.around node)) :
    Charted tree blocks (layout.mark node) :=
  ⟨charted.toNumbered.mark unseen lasting, charted.toNested.mark unseen.not_mem home⟩

theorem enter {kind : ScopeKind} {mark : Mark} (marked : layout.marks[node]? = some mark)
    (here : mark.scope = layout.current) (opens : tree.opens? blocks node = some kind)
    (closed : layout.opener? node = none) (fresh : ∀ other ∈ layout.marks, node ∉ tree.around other) :
    Charted tree blocks (layout.enter kind node) :=
  ⟨{ charted.toNumbered with },
    charted.toNested.enter marked here opens (opener?_eq_none.1 closed) fresh⟩

theorem leave (held : scope < layout.frames.size) :
    Charted tree blocks { layout with current := scope } :=
  ⟨{ charted.toNumbered with },
    ⟨held, charted.scope, charted.program, charted.frame, charted.once⟩⟩

theorem opener?_of_unseen (unseen : Unseen tree layout node) : layout.opener? node = none :=
  opener?_eq_none.2 (charted.not_opened unseen.not_mem)

end Charted

theorem parent_of_tasks {next : Task} (proper : tree.ProperBelow task.node)
    (mem : next ∈ tree.tasks task) : tree.parent next.node = some task.node :=
  proper.parent_eq (mem_children_of_tasks mem)

/-- The arrival at a task, before its scope is opened. -/
theorem Charted.stops (charted : Charted tree blocks layout) (proper : tree.ProperBelow task.node)
    (ready : Ready tree layout task.node) :
    Charted tree blocks ((tree.stops task).foldl Layout.mark layout) ∧
      Grows tree task.node layout ((tree.stops task).foldl Layout.mark layout) ∧
      (∀ above ∈ tree.lineage task.node, Lasts tree ((tree.stops task).foldl Layout.mark layout) above) ∧
      ∀ next ∈ tree.tasks task, Unseen tree ((tree.stops task).foldl Layout.mark layout) next.node := by
  have here := charted.mark ready.unseen ready.lasting ready.home
  have grown := grows_mark layout (tree.mem_lineage_self task.node)
  have below {child : NodeId} (link : tree.parent child = some task.node) :
      Unseen tree (layout.mark task.node) child :=
    (ready.unseen.child link).mark (not_mem_lineage_of_lt (lt_of_parent link).1)
  have lasting (above : NodeId) (mem : above ∈ tree.lineage task.node) :
      Lasts tree (layout.mark task.node) above := by
    rcases mem_cons.1 mem with rfl | higher
    · intro node one two atTop atNode later
      rw [getElem?_mark, if_pos rfl] at atTop
      cases atTop
      exact absurd (here.epoch node two atNode).2 (Nat.not_le_of_lt later)
    · exact (ready.lasting above higher).grows higher grown
  have single : Charted tree blocks (layout.mark task.node) ∧
      Grows tree task.node layout (layout.mark task.node) ∧
      (∀ above ∈ tree.lineage task.node, Lasts tree (layout.mark task.node) above) ∧
      ∀ next ∈ tree.tasks task, Unseen tree (layout.mark task.node) next.node :=
    ⟨here, grown, lasting, fun next mem => below (parent_of_tasks proper mem)⟩
  cases task with
  | visit node =>
    cases label : tree.label? node with
    | none =>
      rw [stops, label]
      exact single
    | some name =>
      have link := proper.parent_eq (mem_children_of_label? label)
      have home : layout.current = layout.nearest (tree.around name) := by
        rw [nearest_around_of_closed link (charted.opener?_of_unseen ready.unseen)]
        exact ready.outer
      have around : tree.ancestors name = tree.lineage node := ancestors_of_some link
      rw [stops, label]
      refine ⟨here.mark (below link) (fun above mem => lasting above (around ▸ mem)) home,
        grown.trans (grows_mark _ ?_), fun above mem => ?_, fun next mem => ?_⟩
      · rw [lineage_of_parent link]
        exact .tail _ (tree.mem_lineage_self node)
      · exact (lasting above mem).grows (around ▸ mem) (grows_mark _ (tree.mem_lineage_self name))
      · have nextLink := parent_of_tasks proper mem
        exact (below nextLink).mark
          (not_mem_lineage_sibling nextLink link (label?_beside label mem))
  | bind pattern => exact single
  | note name => exact single
  | entry entry =>
    rw [stops]
    split
    · exact single
    refine ⟨charted, .refl _ _ _, fun above mem => ?_,
      fun next mem => ready.unseen.child (parent_of_tasks proper mem)⟩
    rcases mem_cons.1 mem with rfl | higher
    · intro node one two atTop
      exact absurd (mem_marks_of_getElem? atTop) ready.unseen.not_mem
    · exact ready.lasting above higher

theorem getElem?_stops (layout : Layout) (node : NodeId) :
    ((tree.stops (.visit node)).foldl Layout.mark layout).marks[node]? =
      some ⟨layout.epoch + 1, layout.current⟩ := by
  cases label : tree.label? node with
  | none =>
    rw [stops, label, toList_none, foldl_cons, foldl_nil, getElem?_mark, if_pos rfl]
  | some name =>
    have apart : name ≠ node := Nat.ne_of_lt (lt_of_mem_children (mem_children_of_label? label))
    rw [stops, label, toList_some, foldl_cons, foldl_cons, foldl_nil,
      getElem?_mark, if_neg apart, getElem?_mark, if_pos rfl]

theorem not_mem_around_of_stops {kind : ScopeKind} (proper : tree.ProperBelow node)
    (unseen : Unseen tree layout node) (opens : tree.opens? blocks node = some kind)
    (marked : other ∈ ((tree.stops (.visit node)).foldl Layout.mark layout).marks) :
    node ∉ tree.around other := by
  intro mem
  rcases mem_marks_foldl.1 marked with stop | old
  · rcases mem_cons.1 stop with rfl | label
    · exact Nat.lt_irrefl _ (lt_of_mem_ancestors (tree.around_subset _ mem))
    have label := mem_toList.1 label
    have link := proper.parent_eq (mem_children_of_label? label)
    rw [around, link] at mem
    dsimp only at mem
    rw [if_pos (function_of_label? label opens)] at mem
    exact Nat.lt_irrefl _ (lt_of_mem_ancestors mem)
  · exact unseen other old (.tail _ (tree.around_subset other mem))

/-- The arrival at a task leaves the tasks below it ready. -/
theorem Charted.arrive (charted : Charted tree blocks layout) (proper : tree.ProperBelow task.node)
    (ready : Ready tree layout task.node) :
    Charted tree blocks (tree.entered blocks task layout) ∧
      Grows tree task.node layout (tree.entered blocks task layout) ∧
      ∀ next ∈ tree.tasks task, Ready tree (tree.entered blocks task layout) next.node := by
  unfold entered
  obtain ⟨arrived, grown, lasting, unseen⟩ := charted.stops proper ready
  have around {next : Task} (mem : next ∈ tree.tasks task) (above : NodeId)
      (higher : above ∈ tree.ancestors next.node) :
      Lasts tree ((tree.stops task).foldl Layout.mark layout) above := by
    rw [ancestors_of_some (parent_of_tasks proper mem)] at higher
    exact lasting above higher
  have opener (node : NodeId) :
      ((tree.stops task).foldl Layout.mark layout).opener? node = layout.opener? node := by
    rw [opener?, frames_marks, opener?]
  have closed := (opener task.node).trans (charted.opener?_of_unseen ready.unseen)
  cases opening : tree.opening? blocks task with
  | none =>
    refine ⟨arrived, grown, fun next mem => ?_⟩
    refine ready_of_closed (unseen next mem) (around mem) (parent_of_tasks proper mem) closed ?_
    rw [enter?, current_marks, nearest_congr fun node _ => opener node]
    exact ready.outer
  | some kind =>
    cases task with
    | visit node =>
      refine ⟨arrived.enter (getElem?_stops layout node) (current_marks _ _).symm opening closed ?_,
        grown.trans (grows_enter tree _ kind node), fun next mem => ?_⟩
      · exact fun other marked => not_mem_around_of_stops proper ready.unseen opening marked
      · refine ready_enter kind (unseen next mem) (around mem) (parent_of_tasks proper mem) closed ?_
        exact fun named => role_of_tasks (.inl named.1) mem (role_of_child? named.2)
    | bind | entry | note => cases opening

/-- A walk of a proper tree keeps the layout a mirror of the syntax. -/
theorem Charted.walk (charted : Charted tree blocks layout) (proper : tree.ProperBelow task.node)
    (ready : Ready tree layout task.node) : Charted tree blocks (tree.walk blocks task layout) ∧
      Grows tree task.node layout (tree.walk blocks task layout) := by
  induction place : task.node using Nat.strongRecOn generalizing task layout with | ind _ ih
  subst place
  have all (tasks : List Task) (distinct : (tasks.map Task.node).Nodup)
      (parts : ∀ next ∈ tasks, next ∈ tree.tasks task) (inner : Layout)
      (charted : Charted tree blocks inner) (ready : ∀ next ∈ tasks, Ready tree inner next.node) :
      Charted tree blocks (tree.walkAll blocks tasks inner) ∧
        Grows tree task.node inner (tree.walkAll blocks tasks inner) := by
    induction tasks generalizing inner with
    | nil => exact ⟨charted, .refl _ _ _⟩
    | cons next rest ihRest =>
      rw [map_cons, nodup_cons] at distinct
      have link := parent_of_tasks proper (parts next (.head _))
      have below : tree.ProperBelow next.node := fun inner inside =>
        proper inner (mem_subtree_of_child (mem_children_of_tasks (parts next (.head _))) inside)
      obtain ⟨walked, grown⟩ := ih next.node (lt_of_parent link).1 charted below
        (ready next (.head _)) rfl
      have others (other : Task) (mem : other ∈ rest) :
          Ready tree (tree.walk blocks next inner) other.node := by
        have different : other.node ≠ next.node := fun same =>
          distinct.1 (same ▸ mem_map_of_mem mem)
        exact (ready other (.tail _ mem)).beside
          (parent_of_tasks proper (parts other (.tail _ mem))) link different grown
          (tree.current_walk blocks next inner)
      obtain ⟨chartedAll, grownAll⟩ := ihRest distinct.2
        (fun other mem => parts other (.tail _ mem)) _ walked others
      exact ⟨chartedAll, (grown.above link).trans grownAll⟩
  obtain ⟨arrived, grown, readyAll⟩ := charted.arrive proper ready
  obtain ⟨walked, grownAll⟩ :=
    all _ (nodup_tasks (proper task.node (tree.mem_subtree_self _)).1) (fun _ mem => mem) _ arrived readyAll
  have whole := grown.trans grownAll
  rw [walk_eq]
  exact ⟨walked.leave (Nat.lt_of_lt_of_le charted.current whole.size), whole.marks, whole.opener,
    whole.size⟩

end Layout

end LeakTrace
