import LeakTrace.Pattern.Compile
import LeakTrace.Pattern.Match
import LeakTrace.Proofs.Flow.Visit
import Mathlib.Data.List.TakeDrop

namespace LeakTrace

open List

variable {name : String} {targets : List NodeId} {result : Partial} {slots : Slots} {captures : Captures}
  {key : String} {node : NodeId}

namespace Captures

theorem get?_insert (absent : captures.get? name = none) :
    (captures.insert name node).get? key = if key = name then some node else captures.get? key := by
  have whole := takeWhile_append_dropWhile (p := fun entry : String × NodeId =>
    decide (entry.1 < name)) (l := captures.entries)
  rw [get?, ← whole, lookup_append, Option.or_eq_none_iff] at absent
  rw [get?, get?, insert, span_eq_takeWhile_dropWhile, lookup_append, lookup_cons]
  conv => rhs; rw [← whole, lookup_append]
  by_cases same : key = name
  · rw [same, if_pos rfl, absent.1, beq_self_eq_true, Option.none_or]
  · rw [if_neg same, beq_false_of_ne same]

theorem mem_of_get? (found : captures.get? name = some node) : (name, node) ∈ captures.entries := by
  obtain ⟨before, after, split, _⟩ := lookup_eq_some_iff.1 found
  rw [split]
  exact mem_append_right _ (.head _)

/-- No name is listed twice. -/
def Distinct (captures : Captures) : Prop := (captures.entries.map Prod.fst).Nodup

theorem Distinct.insert (distinct : captures.Distinct) (absent : captures.get? name = none) :
    (captures.insert name node).Distinct := by
  have whole := takeWhile_append_dropWhile (p := fun entry : String × NodeId =>
    decide (entry.1 < name)) (l := captures.entries)
  have fresh : name ∉ captures.entries.map Prod.fst := by
    intro mem
    obtain ⟨entry, among, rfl⟩ := mem_map.1 mem
    simpa using lookup_eq_none_iff.1 absent entry among
  have names : ((captures.insert name node).entries.map Prod.fst).Perm
      (name :: captures.entries.map Prod.fst) := by
    rw [Captures.insert, span_eq_takeWhile_dropWhile]
    refine (perm_middle.map Prod.fst).trans ?_
    rw [map_cons, whole]
  exact names.nodup_iff.2 (nodup_cons.2 ⟨fresh, distinct⟩)

theorem Distinct.mem_entries (distinct : captures.Distinct) :
    (name, node) ∈ captures.entries ↔ captures.get? name = some node := by
  refine ⟨fun mem => ?_, mem_of_get?⟩
  obtain ⟨before, after, split⟩ := append_of_mem mem
  rw [Distinct, split, map_append, map_cons, nodup_append] at distinct
  refine lookup_eq_some_iff.2 ⟨before, after, split, fun entry among => ?_⟩
  have apart := distinct.2.2 entry.1 (mem_map_of_mem among) name (.head _)
  simpa using apart.symm

end Captures

/-- A part of a template with the node that it is given. -/
structure Placement where
  part : Template
  node : NodeId

/-- The node that a placement gives to a name. -/
def Placement.given? (name : String) (place : Placement) : Option NodeId :=
  match place.part with
  | .capture key _ => if key = name then some place.node else none
  | _ => none

/-- The node that a placement puts into focus. -/
def Placement.focused? (place : Placement) : Option NodeId :=
  match place.part with
  | .focus _ => some place.node
  | _ => none

namespace Tree

/-- The node is an operand of a comparison. -/
def Compared (tree : Tree) (id : NodeId) : Prop :=
  ∃ parent, tree.parent id = some parent ∧ tree.kind parent = .binary ∧
    ∃ operator ∈ comparisons, tree.text parent = some operator

/-- A capture may take the node: it is code of an allowed kind and no text that is compared. -/
structure Capturable (tree : Tree) (kinds : List Kind) (id : NodeId) : Prop where
  code : tree.kind id ≠ .comment
  allowed : kinds = [] ∨ tree.kind id ∈ kinds
  free : ¬(tree.kind id = .string ∧ tree.Compared id)

/-- The node does not play another part than the expected one. -/
def Suits (tree : Tree) (expected : Option Role) (id : NodeId) : Prop :=
  ∀ role ∈ expected, ∀ actual ∈ tree.role id, actual = role

mutual

/-- The template lies over the node. The placements tell which of its parts are given which nodes,
inner parts before outer ones; the alternative that is not taken gives none. -/
inductive Embeds (tree : Tree) : Template → NodeId → List Placement → Prop
  | wildcard {id : NodeId} (code : tree.kind id ≠ .comment) :
      Embeds tree .wildcard id [⟨.wildcard, id⟩]
  | variadic {id : NodeId} (code : tree.kind id ≠ .comment) :
      Embeds tree .variadic id [⟨.variadic, id⟩]
  | capture {name : String} {kinds : List Kind} {id : NodeId} (free : tree.Capturable kinds id) :
      Embeds tree (.capture name kinds) id [⟨.capture name kinds, id⟩]
  | first {one two : Template} {id : NodeId} {placed : List Placement}
      (inner : Embeds tree one id placed) :
      Embeds tree (.either one two) id (placed ++ [⟨.either one two, id⟩])
  | second {one two : Template} {id : NodeId} {placed : List Placement}
      (inner : Embeds tree two id placed) :
      Embeds tree (.either one two) id (placed ++ [⟨.either one two, id⟩])
  | focus {template : Template} {id : NodeId} {placed : List Placement}
      (inner : Embeds tree template id placed) :
      Embeds tree (.focus template) id (placed ++ [⟨.focus template, id⟩])
  | anchored {kind : Kind} {text : Option String} {slots : Slots} {id : NodeId}
      {placed : List Placement} (sort : tree.kind id = kind)
      (same : ∀ expected ∈ text, tree.text id = some expected)
      (children : InOrder tree slots (tree.codeChildren id) placed) :
      Embeds tree (.node kind text true slots) id (placed ++ [⟨.node kind text true slots, id⟩])
  | loose {kind : Kind} {text : Option String} {slots : Slots} {id : NodeId}
      {chosen : List NodeId} {placed : List Placement} (sort : tree.kind id = kind)
      (same : ∀ expected ∈ text, tree.text id = some expected)
      (distinct : chosen.Subperm (tree.codeChildren id))
      (children : OneEach tree slots chosen placed) :
      Embeds tree (.node kind text false slots) id (placed ++ [⟨.node kind text false slots, id⟩])

/-- The slots lie over the whole list in its order. A variadic slot passes over some nodes, and every
other slot over one. -/
inductive InOrder (tree : Tree) : Slots → List NodeId → List Placement → Prop
  | done : InOrder tree .none [] []
  | skip {role : Option Role} {rest : Slots} {targets : List NodeId} {placed : List Placement}
      (skipped : List NodeId) (others : InOrder tree rest targets placed) :
      InOrder tree (.some role .variadic rest) (skipped ++ targets) placed
  | next {role : Option Role} {template : Template} {rest : Slots} {id : NodeId}
      {targets : List NodeId} {here there : List Placement}
      (single : template.isVariadic = false) (suits : tree.Suits role id)
      (inner : Embeds tree template id here) (others : InOrder tree rest targets there) :
      InOrder tree (.some role template rest) (id :: targets) (here ++ there)

/-- Each slot that is not variadic lies over its own node of the list. -/
inductive OneEach (tree : Tree) : Slots → List NodeId → List Placement → Prop
  | done : OneEach tree .none [] []
  | skip {role : Option Role} {rest : Slots} {chosen : List NodeId} {placed : List Placement}
      (others : OneEach tree rest chosen placed) :
      OneEach tree (.some role .variadic rest) chosen placed
  | next {role : Option Role} {template : Template} {rest : Slots} {id : NodeId}
      {chosen : List NodeId} {here there : List Placement}
      (single : template.isVariadic = false) (suits : tree.Suits role id)
      (inner : Embeds tree template id here) (others : OneEach tree rest chosen there) :
      OneEach tree (.some role template rest) (id :: chosen) (here ++ there)

end

variable {tree : Tree} {id : NodeId} {placed : List Placement}

theorem within_concat {part : Template} (inner : ∀ place ∈ placed, place.node ∈ tree.subtree id) :
    ∀ place ∈ placed ++ [⟨part, id⟩], place.node ∈ tree.subtree id := by
  intro place mem
  rcases mem_append.1 mem with old | last
  · exact inner place old
  · cases mem_singleton.1 last
    exact tree.mem_subtree_self id

theorem within_children (children : targets ⊆ tree.codeChildren id)
    (inner : ∀ place ∈ placed, ∃ target ∈ targets, place.node ∈ tree.subtree target) :
    ∀ place ∈ placed, place.node ∈ tree.subtree id := by
  intro place mem
  obtain ⟨target, among, inside⟩ := inner place mem
  exact mem_subtree_of_child (mem_children_of_codeChildren (children among)) inside

/-- Of the nodes that slots pass over in their order, each slot has its own. -/
theorem InOrder.oneEach {slots : Slots} {targets : List NodeId} {placed : List Placement} :
    tree.InOrder slots targets placed → ∃ chosen, chosen.Sublist targets ∧ tree.OneEach slots chosen placed
  | .done => ⟨[], .slnil, .done⟩
  | .skip skipped others =>
    have ⟨chosen, among, each⟩ := others.oneEach
    ⟨chosen, among.trans (sublist_append_right ..), .skip each⟩
  | .next single suits inner others =>
    have ⟨_, among, each⟩ := others.oneEach
    ⟨_, among.cons_cons _, .next single suits inner each⟩

mutual

theorem Embeds.within {template : Template} {id : NodeId} {placed : List Placement} :
    tree.Embeds template id placed → ∀ place ∈ placed, place.node ∈ tree.subtree id
  | .wildcard _ | .variadic _ | .capture _ => within_concat (forall_mem_nil _)
  | .first inner | .second inner | .focus inner => within_concat inner.within
  | .anchored _ _ children =>
    have ⟨_, among, each⟩ := children.oneEach
    within_concat (within_children among.subset each.within)
  | .loose _ _ distinct children => within_concat (within_children distinct.subset children.within)

theorem OneEach.within {slots : Slots} {chosen : List NodeId} {placed : List Placement} :
    tree.OneEach slots chosen placed →
      ∀ place ∈ placed, ∃ target ∈ chosen, place.node ∈ tree.subtree target
  | .done => forall_mem_nil _
  | .skip others => others.within
  | .next _ _ inner others => forall_mem_append.2 ⟨fun place mem => ⟨_, .head _, inner.within place mem⟩,
    fun place mem => (others.within place mem).imp fun _ both => ⟨.tail _ both.1, both.2⟩⟩

end

end Tree

namespace Partial

/-- What is found when the placement is added. A name that is taken already stays where it is. -/
def add (found : Partial) (place : Placement) : Partial :=
  match place.part with
  | .capture name _ =>
    if (found.captures.get? name).isSome then found
    else { found with captures := found.captures.insert name place.node }
  | .focus _ => { found with focus := some place.node }
  | _ => found

/-- What is found when the placements are added in their order. -/
def after (found : Partial) (placed : List Placement) : Partial := placed.foldl add found

variable {found middle : Partial} {placed more : List Placement}

theorem get?_add (place : Placement) :
    (found.add place).captures.get? name =
      (found.captures.get? name).or (place.given? name) := by
  obtain ⟨part, node⟩ := place
  cases part with
  | capture key kinds =>
    simp only [add, Placement.given?]
    cases taken : found.captures.get? key with
    | some earlier =>
      by_cases same : key = name
      · rw [← same, taken]
        exact taken
      · simp [same]
    | none =>
      rw [Option.isSome_none, if_neg Bool.false_ne_true, Captures.get?_insert taken]
      by_cases same : key = name
      · rw [← same, taken, if_pos rfl, Option.none_or]
      · rw [if_neg (Ne.symm same), if_neg same, Option.or_none]
  | _ => simp [add, Placement.given?]

theorem get?_after :
    (found.after placed).captures.get? name =
      (found.captures.get? name).or (placed.findSome? (Placement.given? name)) := by
  induction placed generalizing found with
  | nil => simp [after]
  | cons place rest ih =>
    rw [after, foldl_cons, ← after, ih, get?_add, Option.or_assoc, findSome?_cons]
    cases place.given? name <;> simp

theorem distinct_add (distinct : found.captures.Distinct) (place : Placement) :
    (found.add place).captures.Distinct := by
  unfold add
  split
  · split
    · exact distinct
    · rename_i free
      exact distinct.insert (by simpa using free)
  · exact distinct
  · exact distinct

theorem distinct_after (distinct : found.captures.Distinct) :
    (found.after placed).captures.Distinct := by
  induction placed generalizing found with
  | nil => exact distinct
  | cons place rest ih => exact ih (distinct_add distinct place)

theorem focus_add (place : Placement) : (found.add place).focus = place.focused?.or found.focus := by
  obtain ⟨part, node⟩ := place
  cases part with
  | capture key kinds =>
    simp only [add, Placement.focused?, Option.none_or]
    split <;> rfl
  | _ => simp [add, Placement.focused?]

theorem focus_after :
    (found.after placed).focus = (placed.filterMap Placement.focused?).getLast?.or found.focus := by
  induction placed generalizing found with
  | nil => simp [after]
  | cons place rest ih =>
    rw [after, foldl_cons, ← after, ih, focus_add, ← Option.or_assoc, filterMap_cons]
    cases focused : place.focused? with
    | none => simp
    | some node => simp [getLast?_cons, Option.or_some]

/-- The placements lead from what was found before to the result. Each capture among them takes a node
that it may take, with the content of the node that the result has under its name. -/
structure Takes (tree : Tree) (found : Partial) (placed : List Placement) (result : Partial) : Prop where
  after : result = found.after placed
  agrees : ∀ name kinds node, ⟨.capture name kinds, node⟩ ∈ placed → tree.Capturable kinds node ∧
    ∃ reported, result.captures.get? name = some reported ∧ tree.content node = tree.content reported

variable {tree : Tree}

theorem Takes.nil : Takes tree found [] found :=
  ⟨rfl, fun _ _ _ mem => absurd mem not_mem_nil⟩

theorem Takes.append (first : Takes tree found placed middle) (second : Takes tree middle more result) :
    Takes tree found (placed ++ more) result where
  after := by rw [second.after, first.after, Partial.after, Partial.after, ← foldl_append]; rfl
  agrees := by
    intro name kinds node mem
    rcases mem_append.1 mem with early | late
    · obtain ⟨capturable, reported, taken, same⟩ := first.agrees name kinds node early
      exact ⟨capturable, reported, by rw [second.after, get?_after, taken, Option.some_or], same⟩
    · exact second.agrees name kinds node late

theorem Takes.concat (takes : Takes tree found placed middle) {place : Placement}
    (nameless : ∀ name, place.given? name = none) :
    Takes tree found (placed ++ [place]) (middle.add place) := by
  refine takes.append ⟨rfl, fun name kinds node mem => ?_⟩
  have given : place.given? name = some node := by
    rw [← mem_singleton.1 mem]
    exact if_pos rfl
  rw [nameless] at given
  cases given

end Partial

namespace Tree

variable {tree : Tree} {id : NodeId} {α : Type} {nodes others : List NodeId}

theorem suits_of_rolesAgree {expected : Option Role} (agree : tree.rolesAgree expected id = true) :
    tree.Suits expected id := by
  intro role wanted actual played
  unfold rolesAgree at agree
  rw [wanted, played] at agree
  exact (beq_iff_eq.1 agree).symm

theorem isCompared_iff : tree.isCompared id = true ↔ tree.Compared id := by
  simp only [isCompared, Compared, Option.any_eq_true, Bool.and_eq_true, beq_iff_eq,
    contains_iff_mem]
  constructor
  · rintro ⟨parent, link, binary, operator, text, mem⟩
    exact ⟨parent, link, binary, operator, mem, text⟩
  · rintro ⟨parent, link, binary, operator, mem, text⟩
    exact ⟨parent, link, binary, operator, text, mem⟩

theorem exists_skipped_of_firstSuffix {attempt : List NodeId → Option α} {answer : α}
    (run : firstSuffix attempt nodes = some answer) :
    ∃ skipped suffix, nodes = skipped ++ suffix ∧ attempt suffix = some answer ∧
      ∀ fewer more, skipped = fewer ++ more → more ≠ [] → attempt (more ++ suffix) = none := by
  induction nodes with
  | nil =>
    refine ⟨[], [], rfl, run, fun fewer more split some => ?_⟩
    exact absurd (append_eq_nil_iff.1 split.symm).2 some
  | cons node rest ih =>
    unfold firstSuffix at run
    split at run
    · rename_i success
      cases run
      refine ⟨[], node :: rest, rfl, success, fun fewer more split some => ?_⟩
      exact absurd (append_eq_nil_iff.1 split.symm).2 some
    rename_i fails
    obtain ⟨skipped, suffix, rfl, success, earlier⟩ := ih run
    refine ⟨node :: skipped, suffix, rfl, success, fun fewer more split some => ?_⟩
    cases fewer with
    | nil =>
      rw [← nil_append more, ← split]
      exact fails
    | cons first fewer => exact earlier fewer more (cons.inj split).2 some

theorem pick_eq_some {attempt : NodeId → Option α} {answer : α} :
    pick attempt nodes = some (answer, others) ↔ ∃ before id after, nodes = before ++ id :: after ∧
      others = before ++ after ∧ attempt id = some answer ∧ ∀ earlier ∈ before, attempt earlier = none := by
  constructor
  · intro run
    induction nodes generalizing others with
    | nil => cases run
    | cons node rest ih =>
      unfold pick at run
      split at run
      · rename_i success
        cases run
        exact ⟨[], node, rest, rfl, rfl, success, forall_mem_nil _⟩
      rename_i fails
      obtain ⟨⟨_, left⟩, picked, same⟩ := Option.map_eq_some_iff.1 run
      cases same
      obtain ⟨before, id, after, rfl, rfl, success, refused⟩ := ih picked
      exact ⟨node :: before, id, after, rfl, rfl, success, forall_mem_cons.2 ⟨fails, refused⟩⟩
  · rintro ⟨before, id, after, rfl, rfl, success, refused⟩
    induction before with
    | nil => rw [nil_append, pick, success, nil_append]
    | cons node before ih =>
      obtain ⟨fails, refused⟩ := forall_mem_cons.1 refused
      rw [cons_append, pick, fails, ih refused, Option.map_some, cons_append]

theorem perm_of_pick {attempt : NodeId → Option α} {answer : α}
    (run : pick attempt nodes = some (answer, others)) :
    ∃ node, attempt node = some answer ∧ nodes.Perm (node :: others) := by
  obtain ⟨before, id, after, rfl, rfl, success, _⟩ := pick_eq_some.1 run
  exact ⟨id, success, perm_middle⟩

/-- A capture that succeeds takes a node that it may take, and agrees with an earlier one. -/
theorem takes_capture? {kinds : List Kind} {found : Partial}
    (run : tree.capture? name kinds id found = some result) :
    tree.Capturable kinds id ∧ found.Takes tree [⟨.capture name kinds, id⟩] result := by
  simp only [capture?] at run
  split at run
  · cases run
  rename_i allowed
  split at run
  · cases run
  rename_i free
  simp only [Bool.or_eq_true, beq_iff_eq, Bool.and_eq_true, Bool.not_eq_true', not_or, not_and,
    isEmpty_eq_false_iff, Bool.not_eq_false, contains_iff_mem] at allowed
  have capturable : tree.Capturable kinds id := by
    refine ⟨allowed.1, or_iff_not_imp_left.2 allowed.2, ?_⟩
    rintro ⟨text, compared⟩
    exact free (by simp [text, isCompared_iff.2 compared])
  refine ⟨capturable, ?_⟩
  split at run
  · rename_i earlier taken
    split at run
    · rename_i same
      cases run
      refine ⟨?_, fun key sorts node mem => ?_⟩
      · simp [Partial.after, Partial.add, taken]
      · cases mem_singleton.1 mem
        exact ⟨capturable, earlier, taken, (beq_iff_eq.1 same).symm⟩
    · cases run
  · rename_i taken
    cases run
    refine ⟨?_, fun key sorts node mem => ?_⟩
    · simp [Partial.after, Partial.add, taken]
    · cases mem_singleton.1 mem
      exact ⟨capturable, id, by rw [Captures.get?_insert taken, if_pos rfl], rfl⟩

-- What was found before is arbitrary in the induction: an attempt starts with what its caller has found,
-- and what a failed attempt has found is in no placement of the one that succeeds.
mutual

/-- A template that fits at a node lies over it, and what is found is what its placements give. -/
theorem embeds_fit : (template : Template) → {id : NodeId} → {found result : Partial} →
    tree.fit template id found = some result →
    ∃ placed, tree.Embeds template id placed ∧ found.Takes tree placed result
  | .wildcard, id, found, result, run => by
    unfold fit at run
    split at run
    · cases run
    · rename_i code
      cases run
      exact ⟨_, .wildcard (by simpa using code), Partial.Takes.nil.concat fun _ => rfl⟩
  | .variadic, id, found, result, run => by
    unfold fit at run
    split at run
    · cases run
    · rename_i code
      cases run
      exact ⟨_, .variadic (by simpa using code), Partial.Takes.nil.concat fun _ => rfl⟩
  | .capture name kinds, id, found, result, run => by
    obtain ⟨capturable, takes⟩ := takes_capture? run
    exact ⟨_, .capture capturable, takes⟩
  | .either first second, id, found, result, run => by
    unfold fit at run
    split at run
    · rename_i fits
      cases run
      obtain ⟨placed, embeds, takes⟩ := embeds_fit first fits
      exact ⟨_, .first embeds, takes.concat fun _ => rfl⟩
    · obtain ⟨placed, embeds, takes⟩ := embeds_fit second run
      exact ⟨_, .second embeds, takes.concat fun _ => rfl⟩
  | .focus inner, id, found, result, run => by
    obtain ⟨middle, fits, rfl⟩ := Option.map_eq_some_iff.1 run
    obtain ⟨placed, embeds, takes⟩ := embeds_fit inner fits
    exact ⟨_, .focus embeds, takes.concat fun _ => rfl⟩
  | .node kind text anchored children, id, found, result, run => by
    unfold fit at run
    split at run
    · cases run
    rename_i sort
    simp only [Bool.or_eq_true, bne_iff_ne, Bool.and_eq_true, not_or, not_and, Decidable.not_not] at sort
    have same : ∀ expected ∈ text, tree.text id = some expected := by
      rintro expected rfl
      exact sort.2 rfl
    split at run
    · obtain ⟨placed, ordered, takes⟩ := inOrder_fitSequence children run
      cases anchored with
      | true => exact ⟨_, .anchored sort.1 same ordered, takes.concat fun _ => rfl⟩
      | false => contradiction
    · obtain ⟨chosen, placed, distinct, each, takes⟩ := oneEach_fitSubset children run
      cases anchored with
      | true => contradiction
      | false => exact ⟨_, .loose sort.1 same distinct each, takes.concat fun _ => rfl⟩

theorem inOrder_fitSequence : (slots : Slots) → {targets : List NodeId} → {found result : Partial} →
    tree.fitSequence slots targets found = some result →
    ∃ placed, tree.InOrder slots targets placed ∧ found.Takes tree placed result
  | .none, targets, found, result, run => by
    unfold fitSequence at run
    split at run
    · rename_i empty
      cases run
      cases isEmpty_iff.1 empty
      exact ⟨[], .done, .nil⟩
    · cases run
  | .some role template rest, targets, found, result, run => by
    unfold fitSequence at run
    split at run
    · rename_i variadic
      obtain ⟨skipped, suffix, rfl, fits, _⟩ := exists_skipped_of_firstSuffix run
      obtain ⟨placed, ordered, takes⟩ := inOrder_fitSequence rest fits
      cases template with
      | variadic => exact ⟨placed, .skip skipped ordered, takes⟩
      | _ => cases variadic
    · rename_i single
      split at run
      · cases run
      split at run
      · rename_i agree
        split at run
        · rename_i fits
          obtain ⟨here, embeds, first⟩ := embeds_fit template fits
          obtain ⟨there, ordered, second⟩ := inOrder_fitSequence rest run
          exact ⟨here ++ there, .next (by simpa using single) (suits_of_rolesAgree agree) embeds ordered,
            first.append second⟩
        · cases run
      · cases run

theorem oneEach_fitSubset : (slots : Slots) → {targets : List NodeId} → {found result : Partial} →
    tree.fitSubset slots targets found = some result →
    ∃ chosen placed, chosen.Subperm targets ∧ tree.OneEach slots chosen placed ∧
      found.Takes tree placed result
  | .none, targets, found, result, run => by
    cases run
    exact ⟨[], [], nil_subperm, .done, .nil⟩
  | .some role template rest, targets, found, result, run => by
    unfold fitSubset at run
    split at run
    · rename_i variadic
      obtain ⟨chosen, placed, distinct, each, takes⟩ := oneEach_fitSubset rest run
      cases template with
      | variadic => exact ⟨chosen, placed, distinct, .skip each, takes⟩
      | _ => cases variadic
    · rename_i single
      simp only [] at run
      split at run
      · rename_i picked
        -- the slot takes its node out of the list, and later slots have theirs among the others
        obtain ⟨target, fits, perm⟩ := perm_of_pick picked
        split at fits
        · rename_i agree
          obtain ⟨here, embeds, first⟩ := embeds_fit template fits
          obtain ⟨chosen, there, distinct, each, second⟩ := oneEach_fitSubset rest run
          exact ⟨target :: chosen, here ++ there,
            ((subperm_cons target).2 distinct).trans perm.symm.subperm,
            .next (by simpa using single) (suits_of_rolesAgree agree) embeds each,
            first.append second⟩
        · cases fits
      · cases run

end

end Tree

theorem Pattern.embeds_matchAt? {pattern : Pattern} {tree : Tree} {id : NodeId} {found : Match}
    (run : pattern.matchAt? tree id = some found) :
    tree.kind id ≠ .comment ∧ ∃ placed result, tree.Embeds pattern.template id placed ∧
      Partial.Takes tree {} placed result ∧
      found = { node := result.focus.getD id, root := id, captures := result.captures } := by
  unfold matchAt? at run
  split at run
  · cases run
  · rename_i code
    obtain ⟨result, fits, rfl⟩ := Option.map_eq_some_iff.1 run
    obtain ⟨placed, embeds, takes⟩ := Tree.embeds_fit pattern.template fits
    exact ⟨by simpa using code, placed, result, embeds, takes, rfl⟩

namespace Partial.Takes

variable {tree : Tree} {placed : List Placement}

theorem get? (takes : Takes tree {} placed result) (name : String) :
    result.captures.get? name = placed.findSome? (Placement.given? name) := by
  rw [takes.after, get?_after]
  exact Option.none_or

theorem distinct (takes : Takes tree {} placed result) : result.captures.Distinct := by
  rw [takes.after]
  exact distinct_after nodup_nil

end Partial.Takes

/-- The match is what an embedding of the template gives: each name has the node of its first capture,
and all its captures have the same content. -/
structure Match.Genuine (found : Match) (tree : Tree) (template : Template) (id : NodeId)
    (placed : List Placement) : Prop where
  code : tree.kind id ≠ .comment
  embeds : tree.Embeds template id placed
  within : ∀ place ∈ placed, place.node ∈ tree.subtree id
  captured : ∀ name kinds node, ⟨.capture name kinds, node⟩ ∈ placed → tree.Capturable kinds node ∧
    ∃ reported, found.captures.get? name = some reported ∧ tree.content node = tree.content reported
  named : ∀ name, found.captures.get? name = placed.findSome? (Placement.given? name)
  listed : ∀ name node, (name, node) ∈ found.captures.entries ↔ found.captures.get? name = some node
  root : found.root = id
  node : found.node = (placed.filterMap Placement.focused?).getLast?.getD id

namespace Pattern

/-- Every match of a pattern is an embedding of its template. What a failed alternative, a failed split
or a failed candidate has captured is not part of it. -/
theorem match_genuine {pattern : Pattern} {tree : Tree} {id : NodeId} {found : Match}
    (run : pattern.matchAt? tree id = some found) :
    ∃ placed, found.Genuine tree pattern.template id placed := by
  obtain ⟨code, placed, result, embeds, takes, rfl⟩ := embeds_matchAt? run
  refine ⟨placed, code, embeds, embeds.within, takes.agrees, takes.get?,
    fun name node => takes.distinct.mem_entries, rfl, ?_⟩
  rw [takes.after, Partial.focus_after, Option.or_none]

/-- The split that gives `b` to the name fails, and the match has `c` under it. -/
theorem match_genuine_later_split :
    let tree := Script.tree "f.js" "send(b, c, { z: d, a: c });\n"
    ∃ pattern found placed, compile .javascript "r" "send($<...>, $<X>, { a: $<X> })" = .ok pattern ∧
      pattern.matchAt? tree 11 = some found ∧ found.captures.entries = [("X", 2)] ∧
      found.Genuine tree pattern.template 11 placed := by
  intro tree
  obtain ⟨pattern, compiled, found, fits, entries⟩ :
      ∃ pattern, compile .javascript "r" "send($<...>, $<X>, { a: $<X> })" = .ok pattern ∧
      ∃ found ∈ pattern.matchAt? tree 11, found.captures.entries = [("X", 2)] := by
    decide +kernel
  obtain ⟨placed, genuine⟩ := match_genuine fits
  exact ⟨pattern, found, placed, compiled, fits, entries, genuine⟩

end Pattern

end LeakTrace
