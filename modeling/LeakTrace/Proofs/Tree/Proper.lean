import LeakTrace.Proofs.Flow.Visit
import LeakTrace.Tree.Build

namespace LeakTrace

open List Option

variable {tree : Tree} {top node child inner : NodeId} {first second : NodeId}

namespace Tree

/-- Every node has one place: it is a child once, and of the node that is its parent. -/
structure Proper (tree : Tree) : Prop where
  distinct : ∀ node, (tree.children node).Nodup
  parent : ∀ node, ∀ child ∈ tree.children node, tree.parent child = some node

theorem exists_parent_of_mem_subtree (inside : inner ∈ tree.subtree node) (different : inner ≠ node) :
    ∃ parent ∈ tree.subtree node, inner ∈ tree.children parent := by
  rcases (mem_subtree_iff_reflTransGen.1 inside).cases_tail with same | ⟨parent, within, link⟩
  · exact absurd same different
  · exact ⟨parent, mem_subtree_iff_reflTransGen.2 within, link⟩

theorem not_mem_subtree_child (mem : child ∈ tree.children node) : node ∉ tree.subtree child :=
  fun inside => Nat.lt_irrefl _ (Nat.lt_of_le_of_lt (le_of_mem_subtree inside) (lt_of_mem_children mem))

theorem nodup_of_subperm {nodes others : List NodeId} (sub : nodes.Subperm others) (distinct : others.Nodup) :
    nodes.Nodup := by
  obtain ⟨same, perm, sublist⟩ := sub
  exact perm.nodup_iff.1 (distinct.sublist sublist)

theorem mem_ancestors_of_mem_subtree
    (told : ∀ node, ∀ child ∈ tree.children node, tree.parent child = some node)
    (inside : node ∈ tree.subtree top) : top ∈ node :: tree.ancestors node := by
  rw [mem_subtree_iff_reflTransGen] at inside
  induction inside with
  | refl => exact .head _
  | tail _ link ih =>
    rw [ancestors_of_some (told _ _ link)]
    exact .tail _ ih

theorem isAncestor_iff_mem : tree.isAncestor top node = true ↔ top ∈ node :: tree.ancestors node := by
  simp [isAncestor]

section

variable (proper : tree.Proper)
include proper

theorem Proper.parent_unique (mem : child ∈ tree.children first)
    (alsoMember : child ∈ tree.children second) : first = second :=
  some.inj ((proper.parent first child mem).symm.trans (proper.parent second child alsoMember))

/-- Of two nodes with a node below both, one is below the other. -/
theorem Proper.comparable (inFirst : inner ∈ tree.subtree first) (inSecond : inner ∈ tree.subtree second) :
    first ∈ tree.subtree second ∨ second ∈ tree.subtree first := by
  -- There is one way up from the common node, and both lie on it.
  have oneWay : Relator.RightUnique fun inner outer => inner ∈ tree.children outer :=
    fun _ _ _ => proper.parent_unique
  rw [mem_subtree_iff_reflTransGen] at *
  rw [mem_subtree_iff_reflTransGen]
  exact (inFirst.swap.total_of_right_unique oneWay inSecond.swap).imp (·.swap) (·.swap)

theorem Proper.not_mem_subtree {other : NodeId} (mem : child ∈ tree.children node)
    (alsoMember : other ∈ tree.children node) (different : child ≠ other) : child ∉ tree.subtree other := by
  intro inside
  obtain ⟨parent, within, link⟩ := exists_parent_of_mem_subtree inside different
  cases proper.parent_unique link mem
  have up := lt_of_mem_children alsoMember
  exact Nat.lt_irrefl _ (Nat.lt_of_lt_of_le up (le_of_mem_subtree within))

theorem Proper.disjoint (mem : first ∈ tree.children node) (alsoMember : second ∈ tree.children node)
    (different : first ≠ second) (inside : inner ∈ tree.subtree first) : inner ∉ tree.subtree second := by
  intro alsoInside
  rcases proper.comparable inside alsoInside with below | below
  · exact proper.not_mem_subtree mem alsoMember different below
  · exact proper.not_mem_subtree alsoMember mem different.symm below

theorem Proper.nodup_subtree (node : NodeId) : (tree.subtree node).Nodup := by
  induction node using Nat.strongRecOn with | ind node ih
  rw [subtree_eq, nodup_cons, below, nodup_flatMap]
  refine ⟨fun mem => Nat.lt_irrefl _ (lt_of_mem_below mem),
    fun child mem => ih child (lt_of_mem_children mem), ?_⟩
  refine (proper.distinct node).pairwise_of_forall_ne fun first inFirst second inSecond different => ?_
  exact fun inner atFirst => proper.disjoint inFirst inSecond different atFirst

theorem Proper.nodup_below (node : NodeId) : (tree.below node).Nodup := by
  have nodup := proper.nodup_subtree node
  rw [subtree_eq] at nodup
  exact (nodup_cons.1 nodup).2

theorem mem_subtree_of_mem_ancestors (inside : node ∈ tree.preorder)
    (reach : top ≤ tree.root) (above : top ∈ node :: tree.ancestors node) : node ∈ tree.subtree top := by
  rw [preorder, mem_subtree_iff_reflTransGen] at inside
  induction inside with
  | refl => exact Nat.le_antisymm reach (le_of_mem_ancestors above) ▸ tree.mem_subtree_self _
  | tail _ link ih =>
    rcases mem_cons.1 above with rfl | higher
    · exact tree.mem_subtree_self _
    · rw [ancestors_of_some (proper.parent _ _ link)] at higher
      exact mem_subtree_trans (mem_subtree_child link) (ih higher)

theorem isAncestor_iff (inside : node ∈ tree.preorder) (reach : top ≤ tree.root) :
    tree.isAncestor top node = true ↔ node ∈ tree.subtree top := by
  rw [isAncestor_iff_mem]
  exact ⟨mem_subtree_of_mem_ancestors proper inside reach, mem_ancestors_of_mem_subtree proper.parent⟩

end

theorem ancestors_chain (node : NodeId) :
    (node :: tree.ancestors node).IsChain (tree.parent · = some ·) ∧
      tree.parent ((tree.ancestors node).getLastD node) = none := by
  fun_induction ancestors tree node with
  | case1 node top => exact ⟨.singleton node, top⟩
  | case2 node parent link ih =>
    rw [isChain_cons_cons, getLastD_cons]
    exact ⟨⟨link, ih.1⟩, ih.2⟩

theorem infix_subtree (inside : node ∈ tree.subtree top) : tree.subtree node <:+: tree.subtree top := by
  induction top using Nat.strongRecOn with | ind top ih
  by_cases same : node = top
  · subst same
    exact infix_rfl
  rw [subtree_eq, mem_cons] at inside
  obtain ⟨child, mem, inside⟩ := mem_flatMap.1 (inside.resolve_left same)
  obtain ⟨before, after, split⟩ := append_of_mem mem
  have part : tree.subtree child <:+: tree.subtree top := by
    rw [subtree_eq tree top, below, split, flatMap_append, flatMap_cons]
    exact ⟨top :: before.flatMap tree.subtree, after.flatMap tree.subtree, by simp⟩
  exact (ih child (lt_of_mem_children mem) inside).trans part

/-- The first node that has a property is below no other one that has it. -/
theorem Proper.eq_of_find?_preorder (proper : tree.Proper) {p : NodeId → Bool}
    (found : tree.preorder.find? p = some inner) (inside : node ∈ tree.preorder) (holds : p node = true)
    (under : inner ∈ tree.subtree node) : node = inner := by
  obtain ⟨before, after, split⟩ := infix_subtree inside
  have distinct := proper.nodup_subtree tree.root
  rw [preorder, ← split, subtree_eq, append_assoc, find?_append, cons_append,
    find?_cons_of_pos holds] at found
  rw [← split, append_assoc, nodup_append] at distinct
  cases early : before.find? p with
  | none =>
    rw [early, none_or] at found
    exact some.inj found
  | some first =>
    rw [early, some_or] at found
    cases found
    exact absurd rfl (distinct.2.2 inner (mem_of_find?_eq_some early) inner
      (mem_append_left _ under))

namespace Builder

theorem links_adopt {parent id : NodeId} (nodes : Array Node) {children : List (Option Role × NodeId)}
    (there : ∀ child ∈ children, child.2 < nodes.size) :
    ((adopt parent nodes children).getD id {}).children = (nodes.getD id {}).children ∧
      ((adopt parent nodes children).getD id {}).parent =
        if id ∈ children.map Prod.snd then some parent else (nodes.getD id {}).parent := by
  induction children generalizing nodes with
  | nil => exact ⟨rfl, rfl⟩
  | cons head rest ih =>
    obtain ⟨role, child⟩ := head
    obtain ⟨kept, told⟩ := ih (nodes.modify child fun node => { node with role, parent := some parent })
      fun entry among => by simpa using there entry (.tail _ among)
    rw [adopt, kept, told, Array.getD_eq_getD_getElem?, Array.getD_eq_getD_getElem?, Array.getElem?_modify]
    by_cases same : child = id
    · subst same
      rw [Array.getElem?_eq_getElem (there _ (.head _))]
      simp
    · have either : id ∈ ((role, child) :: rest).map Prod.snd ↔ id ∈ rest.map Prod.snd := by
        simp [Ne.symm same]
      simp only [if_neg same, either, and_self]

/-- What calls make that adopt nodes which are there and which no earlier call has adopted. -/
inductive Built : Builder → (adopted : List NodeId) → Prop
  | start : Built {} []
  | push {builder : Builder} {adopted : List NodeId} (kind : Kind) (span : Span) (text : Option String)
      (children : List (Option Role × NodeId)) (built : Built builder adopted)
      (free : ∀ child ∈ children, child.2 < builder.nodes.size ∧ child.2 ∉ adopted) :
      Built (builder.push kind span text children) (adopted ++ children.map Prod.snd)

variable {builder : Builder} {adopted : List NodeId} {kind : Kind} {span : Span} {text : Option String}
  {children : List (Option Role × NodeId)} {file : String} {language : Language} {source : String}
  {root : NodeId}

theorem size_push : (builder.push kind span text children).nodes.size = builder.nodes.size + 1 := by
  rw [push, Array.size_push, size_adopt]

theorem links_push (id : NodeId) (there : ∀ child ∈ children, child.2 < builder.nodes.size) :
    ((builder.push kind span text children).finish file language source root).children id =
        (if id = builder.nodes.size then children.map Prod.snd
          else (builder.finish file language source root).children id) ∧
      ((builder.push kind span text children).finish file language source root).parent id =
        if id ∈ children.map Prod.snd then some builder.nodes.size
        else (builder.finish file language source root).parent id := by
  have known : (children.filter fun child => child.2 < builder.nodes.size) = children :=
    filter_eq_self.2 fun child mem => decide_eq_true (there child mem)
  have nodes : (builder.push kind span text children).nodes.getD id {} =
      if id = builder.nodes.size then { kind, span, text, children := children.map Prod.snd }
      else (adopt builder.nodes.size builder.nodes children).getD id {} := by
    simp only [push, known, Array.getD_eq_getD_getElem?, Array.getElem?_push, size_adopt]
    split <;> rfl
  simp only [Tree.children, Tree.parent, Tree.node, finish, nodes]
  by_cases last : id = builder.nodes.size
  · have absent : id ∉ children.map Prod.snd := fun mem => by
      obtain ⟨entry, among, same⟩ := mem_map.1 mem
      exact Nat.ne_of_lt (there entry among) (same.trans last)
    rw [if_pos last, if_pos last, if_neg absent, last, Array.getD_eq_getD_getElem?,
      Array.getElem?_eq_none (Nat.le_refl _)]
    exact ⟨rfl, rfl⟩
  · rw [if_neg last, if_neg last]
    exact links_adopt builder.nodes there

/-- Links lead up as they lead down, and only adopted nodes have a parent. -/
structure Paired (tree : Tree) (adopted : List NodeId) : Prop where
  inverse : ∀ node child, tree.parent child = some node ↔ child ∈ tree.children node
  taken : ∀ node, ∀ child ∈ tree.children node, child ∈ adopted
  distinct : adopted.Nodup → ∀ node, (tree.children node).Nodup

theorem Built.paired (built : Built builder adopted) :
    Paired (builder.finish file language source root) adopted := by
  induction built with
  | start =>
    refine ⟨fun node child => ?_, fun node => forall_mem_nil _, fun _ node => .nil⟩
    exact iff_of_false (some_ne_none node).symm not_mem_nil
  | @push builder adopted kind span text children built free ih =>
    have links := fun id => @links_push builder kind span text children file language source root id
      fun child mem => (free child mem).1
    have new {child : NodeId} (mem : child ∈ children.map Prod.snd) : child ∉ adopted := by
      obtain ⟨entry, among, rfl⟩ := mem_map.1 mem
      exact (free entry among).2
    refine ⟨fun node child => ?_, fun node child => ?_, fun once node => ?_⟩
    · rw [(links child).2, (links node).1]
      split <;> split
      · simp_all
      · rename_i mem other
        refine ⟨fun same => absurd (some.inj same).symm other, fun inside => ?_⟩
        exact absurd (ih.taken node child inside) (new mem)
      · rename_i absent last
        refine ⟨fun link => ?_, fun mem => absurd mem absent⟩
        exact absurd (lt_of_parent link).2 (last ▸ Nat.lt_irrefl _)
      · exact ih.inverse node child
    · rw [(links node).1]
      split
      · exact mem_append_right _
      · exact fun mem => mem_append_left _ (ih.taken node child mem)
    · obtain ⟨earlier, fresh, _⟩ := nodup_append.1 once
      rw [(links node).1]
      split
      · exact fresh
      · exact ih.distinct earlier node

theorem Built.proper (built : Built builder adopted) (once : adopted.Nodup) :
    (builder.finish file language source root).Proper where
  distinct := built.paired.distinct once
  parent := fun node child => (built.paired.inverse node child).2

theorem Paired.mem_subtree_iff (paired : Paired tree adopted) :
    node ∈ tree.subtree top ↔ tree.isAncestor top node = true := by
  rw [isAncestor_iff_mem]
  refine ⟨mem_ancestors_of_mem_subtree fun node child => (paired.inverse node child).2, fun above => ?_⟩
  fun_induction ancestors tree node with
  | case1 node top => exact mem_singleton.1 above ▸ tree.mem_subtree_self _
  | case2 node parent link ih =>
    rcases mem_cons.1 above with rfl | higher
    · exact tree.mem_subtree_self _
    · exact mem_subtree_trans (mem_subtree_child ((paired.inverse parent node).1 link)) (ih higher)

/-- The links of the arena are those of a tree, and the walks along them agree. A call may name a child
twice; without such calls a walk meets every node once. -/
theorem Built.arena (built : Built builder adopted) (file : String) (language : Language)
    (source : String) (root : NodeId) :
    let tree := builder.finish file language source root
    (∀ node child, tree.parent child = some node ↔ child ∈ tree.children node) ∧
      (∀ node, (node :: tree.ancestors node).IsChain (tree.parent · = some ·) ∧
        tree.parent ((tree.ancestors node).getLastD node) = none) ∧
      ∀ top, tree.subtree top = top :: (tree.children top).flatMap tree.subtree ∧
        (∀ node, node ∈ tree.subtree top ↔
          Relation.ReflTransGen (fun outer inner => inner ∈ tree.children outer) top node) ∧
        (∀ node, node ∈ tree.subtree top ↔ tree.isAncestor top node = true) ∧
        (adopted.Nodup → (tree.subtree top).Nodup) := by
  have paired : Paired (builder.finish file language source root) adopted := built.paired
  refine ⟨paired.inverse, ancestors_chain, fun top => ⟨subtree_eq _ top, fun node => ?_, fun node => ?_, ?_⟩⟩
  · exact mem_subtree_iff_reflTransGen
  · exact paired.mem_subtree_iff
  · exact fun once => (built.proper once).nodup_subtree top

theorem Built.arena_pair :
    let builder := ((Builder.push {} .identifier {} (some "a") []).push .number {} none []).push .pair {} none
      [(some .key, 0), (some .value, 1)]
    let tree := builder.finish "test.js" .javascript "a: 1" 2
    Built builder [0, 1] ∧ tree.parent 1 = some 2 ∧ tree.isAncestor 2 1 = true ∧ (tree.subtree 2).Nodup := by
  intro builder tree
  have built : Built builder [0, 1] :=
    ((Built.start.push _ _ _ [] (by simp)).push _ _ _ [] (by simp)).push _ _ _ _ (by decide)
  obtain ⟨inverse, _, walks⟩ := built.arena "test.js" .javascript "a: 1" 2
  exact ⟨built, (inverse 2 1).2 (by decide), ((walks 2).2.2.1 1).1 (by decide +kernel),
    (walks 2).2.2.2 (by decide)⟩

theorem Built.lt_size (built : Built builder adopted) : ∀ id ∈ adopted, id < builder.nodes.size := by
  induction built with
  | start => exact forall_mem_nil _
  | push _ _ _ _ _ free ih =>
    intro id mem
    rw [size_push]
    rcases mem_append.1 mem with earlier | new
    · exact Nat.lt_succ_of_lt (ih id earlier)
    · obtain ⟨entry, among, rfl⟩ := mem_map.1 new
      exact Nat.lt_succ_of_lt (free entry among).1

/-- Every node has been adopted once at most, and those of a list have not been so far. -/
def Offers (builder : Builder) (orphans : List NodeId) : Prop :=
  ∃ adopted, Built builder adopted ∧ (adopted ++ orphans).Nodup ∧ ∀ id ∈ orphans, id < builder.nodes.size

theorem Offers.push {orphans : List NodeId} (offers : Offers builder (orphans ++ children.map Prod.snd)) :
    Offers (builder.push kind span text children) (orphans ++ [builder.nodes.size]) := by
  obtain ⟨adopted, built, once, there⟩ := offers
  have apart := (nodup_append.1 once).2.2
  have below : ∀ id ∈ adopted ++ (orphans ++ children.map Prod.snd), id < builder.nodes.size :=
    forall_mem_append.2 ⟨built.lt_size, there⟩
  refine ⟨_, built.push kind span text children fun child mem => ?_, ?_, fun id mem => ?_⟩
  · have among := mem_append_right orphans (mem_map_of_mem (f := Prod.snd) mem)
    exact ⟨there _ among, fun taken => apart _ taken _ among rfl⟩
  · have same : (adopted ++ children.map Prod.snd ++ (orphans ++ [builder.nodes.size])).Perm
        (builder.nodes.size :: (adopted ++ (orphans ++ children.map Prod.snd))) := by
      grind
    exact same.nodup_iff.2 (nodup_cons.2 ⟨fun mem => Nat.lt_irrefl _ (below _ mem), once⟩)
  · rw [size_push]
    rcases mem_append.1 mem with earlier | last
    · exact Nat.lt_succ_of_lt (there id (mem_append_left _ earlier))
    · exact mem_singleton.1 last ▸ Nat.lt_succ_self _

end Builder

end Tree

namespace Outline

open LeakTrace.Tree.Builder

mutual

theorem offers_graft (index : LineIndex) {builder : Tree.Builder} {orphans : List NodeId}
    (offers : Offers builder orphans) : (outline : Outline) →
    Offers (graft index builder outline) (orphans ++ [(graft index builder outline).nodes.size - 1])
  | node kind _ start stop text children => by
    rw [graft, size_push, Nat.add_sub_cancel]
    exact (offers_graftAll index offers children).push

theorem offers_graftAll (index : LineIndex) {builder : Tree.Builder} {orphans : List NodeId}
    (offers : Offers builder orphans) : (outlines : List Outline) →
    Offers (graftAll index builder outlines).1
      (orphans ++ (graftAll index builder outlines).2.map Prod.snd)
  | [] => by simpa [graftAll] using offers
  | outline :: rest => by
    have all := offers_graftAll index (offers_graft index offers outline) rest
    rw [append_assoc, singleton_append] at all
    exact all

end

/-- The trees that are read from source text are proper. -/
theorem proper_toTree (outline : Outline) (file : String) (language : Language) (source : String) :
    (outline.toTree file language source).Proper := by
  have start : Offers {} [] := ⟨[], .start, .nil, forall_mem_nil _⟩
  obtain ⟨adopted, built, once, _⟩ := offers_graft (LineIndex.ofSource source) start outline
  exact built.proper (once.sublist (sublist_append_left ..))

end Outline

end LeakTrace
