import LeakTrace.Proofs.Flow.Alias
import LeakTrace.Proofs.Flow.Continued
import LeakTrace.Proofs.Flow.Nesting
import LeakTrace.Proofs.Tree.Respelled

namespace LeakTrace

open List LeakTrace.Tree Model Chain Option Pass

variable {pass : Pass} {child outer inner : NodeId} {link : Link} {copy : Mark} {blocks : Bool}
  {limits : Limits} {chain : Chain} {tree : Tree} {Region : NodeId → Prop} {before after : Pass}
  {trace : List NodeId} {node : NodeId}

namespace Pass

theorem Move.fixed_none (step : Move tree Region before after)
    (bare : tree.kind node = .comment ∨ tree.kind node = .other) (absent : before.fixed[node]? = none) :
    after.fixed[node]? = none := by
  cases step with
  | @fix other shape _ made =>
    have different : other ≠ node := by
      rintro rfl
      obtain ⟨earlier, _, _, run, _⟩ := made.made
      unfold fixedShape at run
      rcases bare with kind | kind
      · rw [kind] at run
        cases run
      · rw [kind] at run
        cases run
    exact (getElem?_insert_of_ne different).trans absent
  | refer =>
    rw [reference_eq]
    exact absent
  | _ => exact absent

/-- Comments and tokens have no values. -/
theorem Course.fixed_none (course : Course tree Region before trace after)
    (bare : tree.kind node = .comment ∨ tree.kind node = .other) (absent : before.fixed[node]? = none) :
    after.fixed[node]? = none := by
  induction course with
  | start => exact absent
  | mark _ _ ih => exact ih absent
  | name _ _ _ _ _ ih => exact ih absent
  | move _ step ih => exact step.fixed_none bare (ih absent)
  | scope kind site _ _ ih ihInner => exact ihInner (ih absent)

theorem exists_mark_root
    (run : Pass.run tree blocks limits = .ok pass) : ∃ mark, pass.marks[tree.root]? = some mark := by
  unfold Pass.run at run
  split at run
  · cases run
  have visits := (visits_and_binds tree blocks limits.maxDepth (limits.maxDepth + 1)).1
  obtain ⟨trace, course, inside⟩ := visits run sound_start
  have absent : tree.root ∉ trace := fun mem =>
    Nat.lt_irrefl _ (lt_of_mem_below (inside.subset mem))
  exact ⟨_, (course.marks_eq absent).trans Std.TreeMap.getElem?_insert_self⟩

/-- A path that hangs off a binding starts at a shape that the name at its root starts at. -/
theorem Sound.start_chain? (sound : pass.Sound) {id : BindingId} {name : String}
    (found : pass.chain? tree node = some chain) (root : chain.root = .binding id name) :
    ∃ identifier own binding, tree.rootIdentifier? node = some identifier ∧
      pass.scopes.resolution? identifier = some (.bound own) ∧ pass.scopes.binding? own = some binding ∧
      ∀ shape, (pass.scopes.binding? id).bind Binding.shape = some shape →
        binding.Start pass.scopes.bindings shape := by
  obtain ⟨holder, _, atHolder, pathless, _⟩ := sound.holder_chain? found root
  rw [Pass.chain?, resolve?_eq] at found
  split at found
  · obtain ⟨written, atNode, rfl⟩ := map_eq_some_iff.1 found
    rcases pass.scopes.expandAlias_cases written with
      same | ⟨own, text, binding, path, hangs, atOwn, isPath, leads⟩
    · rw [same] at root
      rcases root_written? atNode with
        ⟨identifier, text, atRoot, _, undeclared | ⟨own, bound, hangs⟩⟩ | unnamed
      · cases undeclared.symm.trans root
      · cases hangs.symm.trans root
        refine ⟨identifier, id, holder, atRoot, bound, atHolder, fun shape holds => .holder pathless ?_⟩
        rwa [atHolder] at holds
      · rw [isUnnamed, root] at unnamed
        cases unnamed
    · rcases root_written? atNode with
        ⟨identifier, text, atRoot, _, undeclared | ⟨other, bound, alsoHangs⟩⟩ | unnamed
      · cases undeclared.symm.trans hangs
      · cases alsoHangs.symm.trans hangs
        refine ⟨identifier, own, binding, atRoot, bound, atOwn, fun shape holds => ?_⟩
        rw [atHolder] at holds
        exact .other isPath (leads.symm.trans root) atHolder holds
      · rw [isUnnamed, hangs] at unnamed
        cases unnamed
  · cases found

end Pass

namespace Model

variable {model : Model} {mark : Mark}

theorem epochOf_of_markOf? (found : model.markOf? node = some mark) :
    model.epochOf node = mark.epoch := by
  rw [epochOf, found]

end Model

/-- The expressions that the value of an expression is drawn from: it draws from itself, an assignment from
what is assigned, and a text that is put together from its parts. -/
inductive Tree.Draws (tree : Tree) : NodeId → NodeId → Prop
  | self (node : NodeId) : Draws tree node node
  | assigned {node right source : NodeId} : tree.kind node = .assignment →
      tree.child? node .right = some right → Draws tree right source → Draws tree node source
  | joined {node part source : NodeId} : tree.kind node = .template ∨ tree.kind node = .binary →
      part ∈ tree.children node → Draws tree part source → Draws tree node source

/-- An assignment has written through a path with a chosen access around the node, at the very epoch of the
node, so that the node shows what is assigned after it. -/
def Model.SeesOwnWrite (model : Model) (Chosen : NodeId → Prop) (node : NodeId) : Prop :=
  ∃ site target access, model.tree.child? site .left = some target ∧
    access ∈ model.tree.subtree target ∧ Chosen access ∧ node ∈ model.tree.subtree access ∧
    ∃ id shape, model.shapes.get? id = some shape ∧
      ∃ write ∈ shape.writes, write.node = site ∧ write.epoch = model.epochOf node

namespace Tree

theorem Proper.above (proper : tree.Proper) (mem : child ∈ tree.children node)
    (below : child ∈ tree.below outer) : outer = node ∨ node ∈ tree.below outer := by
  obtain ⟨parent, within, link⟩ := exists_parent_of_mem_subtree (mem_subtree_of_below below)
    (Nat.ne_of_lt (lt_of_mem_below below))
  cases proper.parent_unique link mem
  rw [subtree_eq, mem_cons] at within
  exact within.imp_left Eq.symm

end Tree

namespace Respelling

variable {r : Respelling} {apart : r.Apart} {other : Pass} {mark : Mark}

theorem exists_twin_of_run (apart : r.Apart) {limitsTwin : Limits}
    (run : Pass.run r.base blocks limits = .ok pass)
    (runTwin : Pass.run r.other blocks limitsTwin = .ok other) :
    ∃ link, (r.pairing apart).Twin link pass other := by
  have start : (r.pairing apart).Twin [] start start := Pairing.twin_start sound_start sound_start
    (fun _ _ => Std.TreeMap.getElem?_emptyc) fun _ _ => Std.TreeMap.getElem?_emptyc
  unfold Pass.run at run runTwin
  split at run
  · cases run
  split at runTwin
  · cases runTwin
  · rw [r.root] at runTwin
    obtain ⟨link, _, twin⟩ := (Pairing.visitsTwin_visit blocks limits.maxDepth limitsTwin.maxDepth
      (limits.maxDepth + 1) (limitsTwin.maxDepth + 1)).1 r.plain_root start run runTwin
    exact ⟨link, twin⟩

theorem ancestors_rename (node : NodeId) :
    r.other.ancestors (r.rename node) = (r.base.ancestors node).map r.rename := by
  fun_induction ancestors r.base node with
  | case1 node top =>
    rw [ancestors_of_none (by rw [r.parent, top]; rfl)]
    rfl
  | case2 node parent up ih =>
    rw [ancestors_of_some (by rw [r.parent, up]; rfl), ih]
    rfl

theorem properBelow_root (r : Respelling) : r.other.ProperBelow r.other.root := by
  intro node inside
  rw [r.root, subtree_eq] at inside
  obtain ⟨origin, _, rfl⟩ := mem_map.1 inside
  rw [r.children]
  refine ⟨(r.proper.distinct origin).map r.injective, fun child mem => ?_⟩
  obtain ⟨part, among, rfl⟩ := mem_map.1 mem
  rw [r.parent, r.proper.parent origin part among]
  rfl

/-- The epochs of the second pass number its nodes. Each node comes after those around it, and what comes
between a node and one below it lies below it. -/
structure Orderly (r : Respelling) (other : Pass) : Prop where
  full : ∀ time, 0 < time → time ≤ other.epoch →
    ∃ node mark, other.marks[r.rename node]? = some mark ∧ mark.epoch = time
  distinct : ∀ first second one two, other.marks[r.rename first]? = some one →
    other.marks[r.rename second]? = some two → one.epoch = two.epoch → first = second
  order : ∀ outer inner one two, inner ∈ r.base.below outer → other.marks[r.rename outer]? = some one →
    other.marks[r.rename inner]? = some two → one.epoch < two.epoch
  between : ∀ outer inner node one two three, inner ∈ r.base.below outer →
    other.marks[r.rename outer]? = some one → other.marks[r.rename inner]? = some two →
    other.marks[r.rename node]? = some three → one.epoch < three.epoch → three.epoch < two.epoch →
    node ∈ r.base.subtree outer

theorem orderly_of_run (run : Pass.run r.other blocks limits = .ok other) : r.Orderly other := by
  have charted := (charted_run r.properBelow_root run).1
  have reached {node : NodeId} {mark : Mark} (marked : other.marks[node]? = some mark) :
      ∃ origin ∈ r.base.preorder, r.rename origin = node := by
    have inside := (within_run run).late sound_start marked (charted.epoch node mark marked).1
    rw [preorder, r.root, subtree_eq] at inside
    exact mem_map.1 inside
  have above {outer inner : NodeId} (below : inner ∈ r.base.below outer) :
      r.rename outer ∈ r.other.ancestors (r.rename inner) := by
    have around := mem_ancestors_of_mem_subtree r.proper.parent (mem_subtree_of_below below)
    rw [ancestors_rename]
    exact mem_map_of_mem
      ((mem_cons.1 around).resolve_left (Nat.ne_of_gt (lt_of_mem_below below)))
  refine ⟨fun time first last => ?_, fun first second one two atFirst atSecond same => ?_,
    fun outer inner one two below atOuter atInner => charted.order _ _ one two atOuter atInner (above below),
    fun outer inner node one two three below atOuter atInner atNode after before => ?_⟩
  · obtain ⟨node, mark, marked, same⟩ := charted.full time first last
    obtain ⟨origin, _, rfl⟩ := reached marked
    exact ⟨origin, mark, marked, same⟩
  · exact r.injective (charted.distinct _ _ one two atFirst atSecond same)
  · have around := charted.between _ _ _ one two three atOuter atInner atNode (above below) after before
    rw [lineage, ancestors_rename, ← map_cons, List.mem_map_of_injective r.injective] at around
    obtain ⟨origin, inside, same⟩ := reached atNode
    cases r.injective same
    obtain ⟨top, insideTop, same⟩ := reached atOuter
    cases r.injective same
    exact mem_subtree_of_mem_ancestors r.proper inside (le_of_mem_subtree insideTop) around

theorem forall₂_filter {α β : Type} {R S : α → β → Prop} {first : List α} {second : List β} {p : α → Bool}
    {q : β → Bool} (all : Forall₂ R first second) (same : ∀ a ∈ first, ∀ b, R a b → q b = p a)
    (step : ∀ a b, R a b → q b = true → S a b) : Forall₂ S (first.filter p) (second.filter q) := by
  induction all with
  | nil => exact .nil
  | @cons a b _ _ related _ ih =>
    have rest := ih fun a mem => same a (.tail _ mem)
    rw [filter_cons, filter_cons, ← same a (.head _) b related]
    split
    · rename_i kept
      exact .cons (step a b related kept) rest
    · exact rest

theorem not_below_both {access part : NodeId} (mem : part ∈ r.base.children access)
    (around : outer ∈ r.base.below access) : part ∉ r.base.below outer := by
  intro below
  have under := lt_of_mem_below around
  rcases r.proper.above mem below with rfl | higher
  · exact Nat.lt_irrefl _ under
  · exact Nat.lt_irrefl _ (Nat.lt_trans under (lt_of_mem_below higher))

end Respelling

namespace Pairing

/-- From one time on up to another the second pass comes to extra parts alone. -/
def Alone (r : Pairing) (now : Moment) (time later : Nat) : Prop :=
  ∀ node mark copy, r.Both now node mark copy → time < copy.epoch → later < copy.epoch

/-- Shapes that correspond. A literal among them is put together by the time, or after both passes have
gone on. -/
def HeldBy (r : Pairing) (link : Link) (now : Moment) (time : Nat) (id twin : ShapeId) : Prop :=
  ∃ birth, link.Born id twin birth ∧ (r.Alone now time birth → birth ≤ time)

namespace Twin

open Respelling

variable {r : Respelling} {apart : r.Apart} {other : Pass} {mark : Mark}

variable (twin : (r.pairing apart).Twin link pass other) {top : Mark}
include twin

theorem both (plain : ¬r.Extra node) (copied : other.marks[r.rename node]? = some copy) :
    ∃ mark, (r.pairing apart).Both (pass.moment other) node mark copy := by
  have related := twin.marks node plain
  rw [copied] at related
  obtain ⟨mark, marked, _⟩ := exists_of_rel_some related
  exact ⟨mark, plain, marked, copied⟩

theorem epochOf_child (mem : child ∈ r.base.children node) (unmarked : pass.marks[child]? = none) :
    (pass.model r.base).epochOf child = (pass.model r.base).epochOf node ∧
      (¬r.Extra child → (other.model r.other).epochOf (r.rename child) =
        (other.model r.other).epochOf (r.rename node)) := by
  have up := r.proper.parent node child mem
  refine ⟨?_, fun plain => ?_⟩
  · have same : (pass.model r.base).markOf? child = (pass.model r.base).markOf? node :=
      markOf?_of_parent unmarked up
    rw [epochOf, same, epochOf]
  have related := twin.marks child plain
  rw [unmarked] at related
  have upTwin : r.other.parent (r.rename child) = some (r.rename node) := by
    rw [r.parent, up]
    rfl
  have same : (other.model r.other).markOf? (r.rename child) = (other.model r.other).markOf? (r.rename node) :=
    markOf?_of_parent (eq_none_of_rel related) upTwin
  rw [epochOf, same, epochOf]

/-- Every node has a node with a mark around it, and the same one in both trees. -/
theorem exists_place (atRoot : pass.marks[r.base.root]? = some top) (inside : node ∈ r.base.preorder)
    (plain : ¬r.Extra node) :
    ∃ outer mark copy, (r.pairing apart).Both (pass.moment other) outer mark copy ∧
      node ∈ r.base.subtree outer ∧ (pass.model r.base).epochOf node = mark.epoch ∧
      (other.model r.other).epochOf (r.rename node) = copy.epoch := by
  -- The induction climbs from the node to its parent.
  induction distance : r.base.root - node using Nat.strongRecOn generalizing node with | ind _ ih
  subst distance
  have related := twin.marks node plain
  cases marked : pass.marks[node]? with
  | some mark =>
    rw [marked] at related
    obtain ⟨copy, atCopy, _⟩ := exists_of_rel related
    exact ⟨node, mark, copy, ⟨plain, marked, atCopy⟩, r.base.mem_subtree_self node,
      epochOf_of_markOf? (markOf?_of_marked marked),
      epochOf_of_markOf? (markOf?_of_marked atCopy)⟩
  | none =>
    have below : node ≠ r.base.root := by
      rintro rfl
      cases marked.symm.trans atRoot
    obtain ⟨parent, within, mem⟩ := exists_parent_of_mem_subtree inside below
    have higher := lt_of_mem_children mem
    have closer : r.base.root - parent < r.base.root - node :=
      Nat.sub_lt_sub_left (Nat.lt_of_lt_of_le higher (le_of_mem_subtree within)) higher
    obtain ⟨outer, mark, copy, both, around, now, time⟩ := ih _ closer within (plain_of_child mem) rfl
    obtain ⟨same, sameTwin⟩ := twin.epochOf_child mem marked
    exact ⟨outer, mark, copy, both, mem_subtree_trans (mem_subtree_child mem) around, same.trans now,
      (sameTwin plain).trans time⟩

variable (orderly : r.Orderly other)
include orderly

section

variable (both : (r.pairing apart).Both (pass.moment other) outer mark copy) {birth : Nat} {id : ShapeId}
include both

/-- What the second pass comes to alone after a node are parts of an access around the node. -/
theorem exists_extra {time later : Nat} (alone : (r.pairing apart).Alone (pass.moment other) copy.epoch later)
    (after : copy.epoch < time) (before : time ≤ later) (past : time ≤ other.epoch) :
    ∃ access part late, r.Chosen access ∧ r.Extra part ∧ part ∈ r.base.children access ∧
      other.marks[r.rename part]? = some late ∧ late.epoch = time ∧ outer ∈ r.base.subtree access ∧
      (time = copy.epoch + 1 → outer ∈ r.base.below access) := by
  obtain ⟨part, late, marked, rfl⟩ := orderly.full time (Nat.zero_lt_of_lt after) past
  have extra : r.Extra part := by
    by_contra plain
    obtain ⟨_, bothPart⟩ := twin.both plain marked
    exact absurd (alone part _ late bothPart after) (Nat.not_lt_of_le before)
  obtain ⟨access, chosen, mem, beside⟩ := extra
  obtain ⟨first, atAccess, apart⟩ := twin.follows access part late chosen mem beside marked
  have below : part ∈ r.base.below access :=
    mem_flatMap.2 ⟨part, mem, r.base.mem_subtree_self part⟩
  have earlier := orderly.order access part first late below atAccess marked
  have reached : first.epoch ≤ copy.epoch := by
    by_contra behind
    obtain ⟨_, bothAccess⟩ := twin.both (plain_of_child mem) atAccess
    have := alone access _ first bothAccess (Nat.lt_of_not_le behind)
    omega
  have around : outer ∈ r.base.subtree access := by
    rcases Nat.lt_or_eq_of_le reached with less | same
    · exact orderly.between access part outer first late copy below atAccess marked both.copied less after
    · rw [orderly.distinct access outer first copy atAccess both.copied same]
      exact r.base.mem_subtree_self outer
  refine ⟨access, part, late, chosen, ⟨access, chosen, mem, beside⟩, mem, marked, rfl, around,
    fun next => ?_⟩
  rw [Tree.subtree_eq, mem_cons] at around
  refine around.resolve_left ?_
  rintro rfl
  cases atAccess.symm.trans both.copied
  exact apart next.symm

/-- Where both passes go on to a node below, nothing comes between. -/
theorem aged_of_below (inside : inner ∈ r.base.below outer) {innerMark innerCopy : Mark}
    (bothInner : (r.pairing apart).Both (pass.moment other) inner innerMark innerCopy)
    (past : birth ≤ other.epoch) (alone : (r.pairing apart).Alone (pass.moment other) copy.epoch birth) :
    birth ≤ copy.epoch := by
  by_contra late
  have next : copy.epoch + 1 ≤ birth := Nat.lt_of_not_le late
  obtain ⟨access, part, first, chosen, extra, mem, marked, same, _, around⟩ :=
    twin.exists_extra orderly both alone (Nat.lt_succ_self _) next (Nat.le_trans next past)
  have later := orderly.order outer inner copy innerCopy inside both.copied bothInner.copied
  have after := alone inner innerMark innerCopy bothInner later
  have within := orderly.between outer inner part copy innerCopy first inside both.copied bothInner.copied
    marked (by omega) (by omega)
  rw [Tree.subtree_eq, mem_cons] at within
  rcases within with rfl | below
  · exact both.plain extra
  · exact not_below_both mem (around rfl) below

variable (inside : node ∈ r.base.subtree outer)
include inside

/-- What is found at a node, or at one around it, is put together in time. -/
theorem aged_of_framed (framed : (r.pairing apart).Framed (pass.moment other) birth node)
    (past : birth ≤ other.epoch) (alone : (r.pairing apart).Alone (pass.moment other) copy.epoch birth) :
    birth ≤ copy.epoch := by
  rcases framed with rfl | ⟨owner, first, place, kept, marked, below⟩
  · exact Nat.zero_le _
  by_contra late
  have next : copy.epoch + 1 ≤ birth := Nat.lt_of_not_le late
  obtain ⟨access, part, second, chosen, _, mem, atPart, same, _, around⟩ :=
    twin.exists_extra orderly both alone (Nat.lt_succ_self _) next (Nat.le_trans next past)
  have around := around rfl
  have stands : owner ∈ r.base.subtree outer ∨ outer ∈ r.base.children owner := by
    rcases place with rfl | child
    · exact .inl inside
    rw [Tree.subtree_eq, mem_cons] at inside
    rcases inside with rfl | deeper
    · exact .inr child
    · rcases r.proper.above child deeper with rfl | higher
      · exact .inl (r.base.mem_subtree_self outer)
      · exact .inl (mem_subtree_of_below higher)
  rcases stands with within | child
  · rw [Tree.subtree_eq, mem_cons] at within
    rcases within with rfl | deeper
    · cases marked.symm.trans both.copied
      exact not_below_both mem around (below part second atPart (by omega) (by omega))
    · obtain ⟨_, bothOwner⟩ := twin.both kept.plain marked
      exact late (twin.aged_of_below orderly both deeper bothOwner past alone)
  · have earlier := orderly.order owner outer first copy
      (mem_flatMap.2 ⟨outer, child, r.base.mem_subtree_self outer⟩) marked both.copied
    have inner := below part second atPart (by omega) (by omega)
    rcases r.proper.above child around with rfl | higher
    · exact kept.same chosen
    · exact not_below_both mem higher inner

/-- Of two writes that correspond either both have been made at the epoch of a node or none. -/
theorem write_made (now : (pass.model r.base).epochOf node = mark.epoch)
    (unseen : ¬(pass.model r.base).SeesOwnWrite r.Chosen node)
    (aged : (r.pairing apart).Alone (pass.moment other) copy.epoch birth → birth ≤ copy.epoch) {shape : Shape}
    (found : pass.shapes.get? id = some shape) {write image : Write} (mem : write ∈ shape.writes)
    (related : (r.pairing apart).WriteTwin link (pass.moment other) birth write image) :
    image.epoch ≤ copy.epoch ↔ write.epoch ≤ mark.epoch := by
  have level := related.level outer mark copy both
  refine ⟨level.2, fun made => ?_⟩
  by_contra late
  have same : write.epoch = mark.epoch := by omega
  have marks := twin.marks outer both.plain
  rw [show pass.marks[outer]? = some mark from both.marked,
    show other.marks[r.rename outer]? = some copy from both.copied, rel_some_some] at marks
  have alone : (r.pairing apart).Alone (pass.moment other) copy.epoch image.epoch := by
    intro place placeMark placeCopy bothPlace after
    have first := (marks.level place placeMark placeCopy bothPlace).1.2 after
    exact (related.level place placeMark placeCopy bothPlace).1.1 (by omega)
  rcases related.cause with own | ⟨target, left, plain, last⟩
  · exact late (own ▸ aged (own ▸ alone))
  -- The last part that the second pass has come to is one of a chosen access in the target.
  obtain ⟨access, part, first, chosen, extra, among, atPart, atEnd, around, _⟩ :=
    twin.exists_extra orderly both alone (Nat.lt_of_not_le late) (Nat.le_refl _) related.made.2
  have within : access ∈ r.base.subtree target := by
    have reached := last part first atPart atEnd
    rw [Tree.subtree_eq, mem_cons] at reached
    rcases reached with rfl | below
    · exact absurd extra plain
    · rcases r.proper.above among below with rfl | higher
      · exact r.base.mem_subtree_self target
      · exact mem_subtree_of_below higher
  exact unseen ⟨write.node, target, access, left, within, chosen, mem_subtree_trans inside around, id,
    shape, found, write, mem, rfl, same.trans now.symm⟩

/-- What both passes show at a node that sees no write of an assignment around it. -/
theorem mirrors_at (now : (pass.model r.base).epochOf node = mark.epoch)
    (unseen : ¬(pass.model r.base).SeesOwnWrite r.Chosen node) :
    (r.pairing apart).Mirrors ((r.pairing apart).HeldBy link (pass.moment other) copy.epoch)
      pass.shapes other.shapes mark.epoch copy.epoch := by
  refine ⟨fun id image held => ?_, fun id image shape twinShape held found atImage => ?_⟩
  · obtain ⟨birth, born, _⟩ := held
    exact twin.mirrors.outline id image ⟨birth, born⟩
  obtain ⟨birth, born, aged⟩ := held
  have writes := (twin.store.related id image birth shape twinShape born found atImage).writes
  refine forall₂_filter writes (fun write mem image related => ?_) fun write image related made => ?_
  · exact decide_eq_decide.2 (twin.write_made orderly both inside now unseen aged found mem related)
  · obtain ⟨valueBirth, before, valueBorn⟩ := related.value
    exact ⟨related.key, related.node, valueBirth, valueBorn, fun _ =>
      Nat.le_trans before (of_decide_eq_true made)⟩

theorem starts (found : pass.chain? r.base node = some chain) (id : BindingId) (name : String)
    (root : chain.root = .binding id name) :
    Option.Rel ((r.pairing apart).HeldBy link (pass.moment other) copy.epoch)
      ((pass.scopes.binding? id).bind Binding.shape)
      ((other.scopes.binding? id).bind Binding.shape) := by
  obtain ⟨identifier, own, binding, atIdentifier, bound, atOwn, starts⟩ :=
    twin.sound.start_chain? found root
  have within := mem_subtree_trans (mem_subtree_rootIdentifier? atIdentifier) inside
  have related := twin.scopes.held id
  cases holds : (pass.scopes.binding? id).bind Binding.shape with
  | none =>
    rw [holds] at related
    rw [eq_none_of_rel related]
    exact .none
  | some shape =>
    rw [holds] at related
    obtain ⟨image, atImage, birth, born⟩ := exists_of_rel related
    rw [atImage]
    have framed := twin.boundAt identifier own binding shape image birth bound atOwn (starts shape holds) born
    exact .some ⟨birth, born, twin.aged_of_framed orderly both within framed
      (twin.store.handles shape image birth born).2⟩

theorem heldBy_parent (time : (other.model r.other).epochOf (r.rename node) = copy.epoch)
    (mem : child ∈ r.base.children node) (plain : ¬r.Extra child) {image : ShapeId}
    (held : (r.pairing apart).HeldBy link (pass.moment other)
      ((other.model r.other).epochOf (r.rename child)) id image) :
    (r.pairing apart).HeldBy link (pass.moment other) copy.epoch id image := by
  cases marked : pass.marks[child]? with
  | none => rwa [(twin.epochOf_child mem marked).2 plain, time] at held
  | some childMark =>
    obtain ⟨birth, born, _⟩ := held
    have related := twin.marks child plain
    rw [marked] at related
    obtain ⟨childCopy, copied, _⟩ := exists_of_rel related
    have below : child ∈ r.base.below outer := by
      have around := mem_subtree_trans (mem_subtree_child mem) inside
      rw [Tree.subtree_eq, mem_cons] at around
      refine around.resolve_left (Nat.ne_of_lt ?_)
      exact Nat.lt_of_lt_of_le (lt_of_mem_children mem) (le_of_mem_subtree inside)
    exact ⟨birth, born, twin.aged_of_below orderly both below ⟨plain, marked, copied⟩
      (twin.store.handles id image birth born).2⟩

end

theorem shapeOf?_rel (atRoot : pass.marks[r.base.root]? = some top) (inside : node ∈ r.base.preorder)
    (plain : ¬r.Extra node)
    (unseen : ∀ source, r.base.Draws node source → ¬(pass.model r.base).SeesOwnWrite r.Chosen source) :
    Option.Rel ((r.pairing apart).HeldBy link (pass.moment other)
      ((other.model r.other).epochOf (r.rename node)))
      ((pass.model r.base).shapeOf? node) ((other.model r.other).shapeOf? (r.rename node)) := by
  induction node using Nat.strongRecOn with | ind node ih
  obtain ⟨outer, mark, copy, both, around, now, time⟩ := twin.exists_place atRoot inside plain
  have mirrors := twin.mirrors_at orderly both around now (unseen node (.self node))
  rw [shapeOf?_eq, shapeOf?_eq, now, time]
  have path : Option.Rel ((r.pairing apart).HeldBy link (pass.moment other) copy.epoch)
      (((pass.model r.base).chain? node).bind fun chain =>
        pass.scopes.terminus pass.shapes chain mark.epoch)
      (((other.model r.other).chain? (r.rename node)).bind fun chain =>
        other.scopes.terminus other.shapes chain copy.epoch) := by
    rw [show (other.model r.other).chain? (r.rename node) =
      ((pass.model r.base).chain? node).map (Chain.rename r.rename) from twin.chain?_eq plain]
    cases found : (pass.model r.base).chain? node with
    | none => exact .none
    | some chain => exact mirrors.terminus (twin.starts orderly both around found)
  have fixed := twin.fixed node plain
  cases memo : pass.fixed[node]? with
  | some shape =>
    rw [memo] at fixed
    obtain ⟨image, atImage, birth, born⟩ := exists_of_rel fixed
    simp only [model_fixed, memo, atImage]
    exact .some ⟨birth, born, twin.aged_of_framed orderly both around
      (twin.fixedAt node shape image birth memo born) (twin.store.handles shape image birth born).2⟩
  | none =>
    rw [memo] at fixed
    simp only [model_fixed, memo, eq_none_of_rel fixed, model_tree]
    rcases (r.pairing apart).kind_plain plain with same | ⟨before, after⟩
    · rw [same]
      cases kind : r.base.kind node with
      | identifier | member | index => exact path
      | assignment =>
        have kept : (r.pairing apart).Kept node := Pairing.kept_of_kind plain (by rw [kind]; decide)
        simp only [child?_kept kept, bind_map]
        cases found : r.base.child? node .right with
        | none => exact .none
        | some right =>
          have mem := mem_children_of_child? found
          have within := mem_subtree_child mem
          have related := ih right (lt_of_mem_children mem) (mem_subtree_trans within inside)
            (plain_of_mem kept mem) fun source draws => unseen source (.assigned kind found draws)
          exact rel_imp related fun _ _ =>
            twin.heldBy_parent orderly both around time mem (plain_of_mem kept mem)
      | _ => exact .none
    · rw [before, after]
      exact path

theorem stringValue?_eq (atRoot : pass.marks[r.base.root]? = some top) (inside : node ∈ r.base.preorder)
    (plain : ¬r.Extra node)
    (unseen : ∀ source, r.base.Draws node source → ¬(pass.model r.base).SeesOwnWrite r.Chosen source) :
    (other.model r.other).stringValue? (r.rename node) = (pass.model r.base).stringValue? node := by
  induction node using Nat.strongRecOn with | ind node ih
  have text : ((other.model r.other).shapeOf? (r.rename node)).bind
        (fun shape => (other.shapes.get? shape).bind Shape.text?) =
      ((pass.model r.base).shapeOf? node).bind
        fun shape => (pass.shapes.get? shape).bind Shape.text? := by
    refine bind_eq_of_rel (twin.shapeOf?_rel orderly atRoot inside plain unseen) fun id image held => ?_
    exact twin.mirrors.text? (held.imp fun _ both => both.1)
  have joined : r.other.concatenation (r.rename node) (fun child =>
        if child < r.rename node then (other.model r.other).stringValue? child else none) =
      r.base.concatenation node fun child =>
        if child < node then (pass.model r.base).stringValue? child else none := by
    refine concatenation_eq (r := r.pairing apart) plain fun kind child mem plainChild => ?_
    have below := lt_of_mem_children mem
    have memberTwin : r.rename child ∈ r.other.children (r.rename node) := by
      rw [r.children]
      exact mem_map_of_mem mem
    have belowTwin := lt_of_mem_children memberTwin
    have within := mem_subtree_child mem
    rw [if_pos below, if_pos belowTwin]
    exact ih child below (mem_subtree_trans within inside) plainChild
      fun source draws => unseen source (.joined kind mem draws)
  rw [Model.stringValue?_eq, Model.stringValue?_eq (pass.model r.base)]
  simp only [bind_assoc, model_tree, model_shapes]
  rcases (r.pairing apart).kind_plain plain with same | ⟨before, after⟩
  · rw [same]
    cases r.base.kind node with
    | identifier | member | index => exact text
    | _ => exact joined
  · rw [before, after]
    exact text

end Twin

end Pairing

/-- What is not a part that both trees have alike, and no name that is written anew, is a comment or a
token. -/
theorem Respelling.Extra.bare {r : Respelling} (extra : r.Extra node)
    (lasting : ∀ access, r.Chosen access → r.base.child? access .property ≠ some node) :
    r.base.kind node = .comment ∨ r.base.kind node = .other := by
  refine extra.part.2.resolve_left ?_
  rintro ⟨access, chosen, key⟩
  exact lasting access chosen key

namespace Model

variable {limitsOther : Limits} {model other : Model}

theorem blank_of_bare (analysed : ofTree tree blocks limits = .ok model)
    (bare : tree.kind node = .comment ∨ tree.kind node = .other) :
    model.chain? node = none ∧ model.shapeOf? node = none ∧ model.stringValue? node = none := by
  obtain ⟨pass, run, rfl⟩ := ofTree_eq_ok.1 analysed
  obtain ⟨trace, course, _⟩ := within_run run
  have unfixed : pass.fixed[node]? = none := course.fixed_none bare Std.TreeMap.getElem?_emptyc
  rw [shapeOf?_eq, stringValue?_eq, chain?, resolve?_eq, concatenation]
  simp only [model_tree, model_fixed, unfixed]
  rcases bare with kind | kind
  · rw [kind]
    exact ⟨rfl, rfl, rfl⟩
  · rw [kind]
    exact ⟨rfl, rfl, rfl⟩

/-- Writing accesses `o.p` as `o["p"]` changes nothing of what is known, up to the names of the nodes. Paths
are the same. So are texts and what is found by any classifier, where the node does not draw from one that
stands in the target of an assignment, inside an access that is written anew, and sees what is written. -/
theorem respelling_unseen (r : Respelling) (apart : r.Apart)
    (analysed : ofTree r.base blocks limits = .ok model)
    (analysedOther : ofTree r.other blocks limitsOther = .ok other) (inside : node ∈ r.base.preorder)
    (lasting : ∀ access, r.Chosen access → r.base.child? access .property ≠ some node) :
    other.chain? (r.rename node) = (model.chain? node).map (Chain.rename r.rename) ∧
    ((∀ source, r.base.Draws node source → ¬model.SeesOwnWrite r.Chosen source) →
      other.stringValue? (r.rename node) = model.stringValue? node ∧
      ∀ (classifier : Classifier) (name : String) (subject : Subject),
        ((other.shapeOf? (r.rename node)).map fun shape =>
          classifier.ofShape other.shapes (other.epochOf (r.rename node)) name shape subject) =
        (model.shapeOf? node).map fun shape =>
          classifier.ofShape model.shapes (model.epochOf node) name shape subject) := by
  by_cases extra : r.Extra node
  · have bare := extra.bare lasting
    have bareOther : r.other.kind (r.rename node) = .comment ∨ r.other.kind (r.rename node) = .other := by
      rwa [r.kind_eq_iff (by decide) node, r.kind_eq_iff (by decide) node]
    obtain ⟨chain, shape, text⟩ := blank_of_bare analysed bare
    obtain ⟨chainOther, shapeOther, textOther⟩ := blank_of_bare analysedOther bareOther
    rw [chain, chainOther, shape, shapeOther, text, textOther]
    exact ⟨rfl, fun _ => ⟨rfl, fun _ _ _ => rfl⟩⟩
  · obtain ⟨pass, run, rfl⟩ := ofTree_eq_ok.1 analysed
    obtain ⟨passOther, runOther, rfl⟩ := ofTree_eq_ok.1 analysedOther
    obtain ⟨link, twin⟩ := Respelling.exists_twin_of_run apart run runOther
    obtain ⟨top, atRoot⟩ := exists_mark_root run
    have orderly := Respelling.orderly_of_run runOther
    refine ⟨twin.chain?_eq extra, fun unseen => ⟨twin.stringValue?_eq orderly atRoot inside extra unseen, ?_⟩⟩
    intro classifier name subject
    obtain ⟨_, _, _, both, around, now, time⟩ := twin.exists_place atRoot inside extra
    have related := twin.shapeOf?_rel orderly atRoot inside extra unseen
    rw [time] at related
    rw [now, time, map_eq_bind, map_eq_bind]
    refine Pairing.bind_eq_of_rel related fun shape image held => congrArg some ?_
    exact (twin.mirrors_at orderly both around now (unseen node (.self node))).ofShape classifier name subject
      held

/-- In `const u = {}; u.e = "x"; u.e;` the last access has the text `x`, and it has so with `u["e"]`. In the
target of the assignment `u` shows the field `e` with the dot alone. -/
theorem respelling_unseen_read :
    ∃ (r : Respelling) (model other : Model),
      r.base = Script.tree "dot.js" "const u = {};\nu.e = \"x\";\nu.e;\n" ∧
      r.other = Script.tree "dot.js" "const u = {};\nu[\"e\"] = \"x\";\nu[\"e\"];\n" ∧
      ofTree r.base false {} = .ok model ∧ ofTree r.other false {} = .ok other ∧
      r.Chosen 6 ∧ r.Chosen 12 ∧ (model.chain? 12).isSome = true ∧
      other.chain? (r.rename 12) = (model.chain? 12).map (Chain.rename r.rename) ∧
      model.stringValue? 12 = some "x" ∧ other.stringValue? (r.rename 12) = some "x" ∧
      (model.shapeOf? 4).map (fun shape => (model.shapes.visibleFields shape (model.epochOf 4)).length) =
        some 1 ∧
      (other.shapeOf? (r.rename 4)).map (fun shape =>
        (other.shapes.visibleFields shape (other.epochOf (r.rename 4))).length) = some 0 := by
  let base := Script.tree "dot.js" "const u = {};\nu.e = \"x\";\nu.e;\n"
  let spelt := Script.tree "dot.js" "const u = {};\nu[\"e\"] = \"x\";\nu[\"e\"];\n"
  have same : base.RespeltAt spelt [(6, 4, 5), (12, 10, 11)] := by
    decide +kernel
  let r := Respelling.inPlace (Outline.proper_toTree _ _ _ _) same
  have apart : r.Apart := fun access chosen => (by decide +kernel : ∀ access ∈ [6, 12],
    ∀ outer ∈ base.parent access, base.kind outer ≠ .objectPattern) access chosen
  have facts : base.kind 12 = .member ∧ base.role 12 ≠ some .property := by
    decide +kernel
  obtain ⟨model, analysed, known, text, shown, never⟩ : ∃ model, ofTree base false {} = .ok model ∧
      (model.chain? 12).isSome = true ∧ model.stringValue? 12 = some "x" ∧
      (model.shapeOf? 4).map (fun shape => (model.shapes.visibleFields shape (model.epochOf 4)).length) =
        some 1 ∧
      ∀ shape ∈ model.shapes.shapes.toList, ∀ write ∈ shape.writes, write.epoch ≠ model.epochOf 12 := by
    decide +kernel
  obtain ⟨other, analysedOther, without⟩ : ∃ model, ofTree spelt false {} = .ok model ∧
      (model.shapeOf? 4).map (fun shape => (model.shapes.visibleFields shape (model.epochOf 4)).length) =
        some 0 := by
    decide +kernel
  -- The access draws from itself alone, and no write has its epoch.
  have unseen : ∀ source, r.base.Draws 12 source → ¬model.SeesOwnWrite r.Chosen source := by
    rintro source (_ | ⟨assignment, _⟩ | ⟨text | text, _⟩)
    · rintro ⟨_, _, _, _, _, _, _, id, shape, found, write, member, _, now⟩
      exact never shape (Array.mem_toList_iff.2 (Array.mem_of_getElem? found)) write member now
    · cases facts.1.symm.trans assignment
    · cases facts.1.symm.trans text
    · cases facts.1.symm.trans text
  have inside : 12 ∈ r.base.preorder := (same.respelt (12, 10, 11) (by decide)).inside
  have lasting : ∀ access, r.Chosen access → r.base.child? access .property ≠ some 12 :=
    fun _ _ found => facts.2 (role_of_child? found)
  obtain ⟨chains, values⟩ := respelling_unseen r apart analysed analysedOther inside lasting
  exact ⟨r, model, other, rfl, rfl, analysed, analysedOther, (by decide : 6 ∈ [6, 12]),
    (by decide : 12 ∈ [6, 12]), known, chains, text, (values unseen).1.trans text, shown, without⟩

end Model

end LeakTrace
