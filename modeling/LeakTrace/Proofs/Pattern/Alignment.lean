import LeakTrace.Proofs.Pattern.Balance
import LeakTrace.Proofs.Pattern.Simulation

namespace LeakTrace

open List Option

variable {tree : Tree} {found result : Partial} {targets suffix : List NodeId} {passed : List Nat}
  {role : Option Role} {rest : Slots} {names : List String} {here : List Placement} {name : String}

/-- The slots that are not variadic. -/
def Slots.singles : Slots → List (Option Role × Template)
  | .none => []
  | .some role template rest =>
    if template.isVariadic then rest.singles else (role, template) :: rest.singles

mutual

/-- Of the children that a part finds in any order, at most one is not variadic. -/
def Template.isSparse : Template → Bool
  | .node _ _ anchored children => children.isSparse && (anchored || children.singles.length ≤ 1)
  | .capture _ _ => true
  | .wildcard => true
  | .variadic => true
  | .either first second => first.isSparse && second.isSparse
  | .focus inner => inner.isSparse

def Slots.isSparse : Slots → Bool
  | .none => true
  | .some _ template rest => template.isSparse && rest.isSparse

end

mutual

/-- The names of one slot are not among those of the slots behind it. The two sides of an alternative may
share names, since only one of them is placed. -/
def Template.capturesOnce : Template → Bool
  | .node _ _ _ children => children.capturesOnce
  | .capture _ _ => true
  | .wildcard => true
  | .variadic => true
  | .either first second => first.capturesOnce && second.capturesOnce
  | .focus inner => inner.capturesOnce

def Slots.capturesOnce : Slots → Bool
  | .none => true
  | .some _ template rest => template.capturesOnce && rest.capturesOnce &&
    template.captureNames.all fun name => !rest.captureNames.contains name

end

variable {template : Template}

theorem Slots.capturesOnce_some :
    (Slots.some role template rest).capturesOnce = true ↔ template.capturesOnce = true ∧
      rest.capturesOnce = true ∧ ∀ name ∈ template.captureNames, name ∉ rest.captureNames := by
  simp [capturesOnce, and_assoc]

/-- The names under which the placements capture, as often as they do. -/
def namesOf (placed : List Placement) : List String := placed.filterMap Placement.name?

/-- The slots lie over the whole list in its order. `passed` tells over how many nodes each variadic slot
passes, from left to right. -/
inductive Slots.Over (Fits : Option Role → Template → NodeId → Prop) : Slots → List NodeId → List Nat → Prop
  | done : Over Fits .none [] []
  | skip {role : Option Role} {rest : Slots} {targets : List NodeId} {passed : List Nat}
      (skipped : List NodeId) (others : Over Fits rest targets passed) :
      Over Fits (.some role .variadic rest) (skipped ++ targets) (skipped.length :: passed)
  | next {role : Option Role} {template : Template} {rest : Slots} {id : NodeId}
      {targets : List NodeId} {passed : List Nat} (single : template.isVariadic = false)
      (fits : Fits role template id) (others : Over Fits rest targets passed) :
      Over Fits (.some role template rest) (id :: targets) passed

theorem Slots.Over.mono {Fits Larger : Option Role → Template → NodeId → Prop} {slots : Slots}
    (laid : slots.Over Fits targets passed)
    (larger : ∀ role template id, Fits role template id → Larger role template id) :
    slots.Over Larger targets passed := by
  induction laid with
  | done => exact .done
  | skip skipped _ ih => exact .skip skipped ih
  | next single fits _ ih => exact .next single (larger _ _ _ fits) ih

namespace Tree

/-- The node plays the expected part, and the template can be placed there. -/
def Admits (tree : Tree) (role : Option Role) (template : Template) (id : NodeId) : Prop :=
  tree.Suits role id ∧ ∃ placed, tree.Embeds template id placed

/-- The variadic slots pass over as few nodes as any alignment of the list lets them, the first slot
counting most. The other slots have the nodes that the placements give them. -/
structure Fewest (tree : Tree) (placed : List Placement) (slots : Slots) (targets : List NodeId)
    (passed : List Nat) : Prop where
  laid : slots.Over (fun _ template id => ⟨template, id⟩ ∈ placed) targets passed
  least : ∀ others, slots.Over tree.Admits targets others →
    passed = others ∨ Lex (· < ·) passed others

/-- If the placement is that of a part with ordered children, its variadic slots pass over the fewest. -/
def Thrifty (tree : Tree) (placed : List Placement) (place : Placement) : Prop :=
  ∀ kind text slots, place.part = .node kind text true slots →
    ∃ passed, tree.Fewest placed slots (tree.codeChildren place.node) passed

end Tree

namespace Partial

/-- None of the names is taken. -/
def FreeOf (found : Partial) (names : List String) : Prop := ∀ name ∈ names, found.captures.get? name = none

theorem freeOf_nothing (names : List String) : FreeOf {} names := fun _ _ => rfl

theorem FreeOf.mono {fewer : List String} (free : found.FreeOf names)
    (subset : fewer ⊆ names) : found.FreeOf fewer := fun name mem => free name (subset mem)

theorem findSome?_given?_eq_none :
    here.findSome? (Placement.given? name) = none ↔ name ∉ namesOf here := by
  rw [findSome?_eq_none_iff, namesOf, mem_filterMap, not_exists]
  simp only [not_and, ← Placement.isSome_given?, Bool.not_eq_true, isSome_eq_false_iff,
    isNone_iff_eq_none]

end Partial

theorem namesOf_append_subset {there : List Placement} {first second : List String}
    (inHere : namesOf here ⊆ first) (inThere : namesOf there ⊆ second) :
    namesOf (here ++ there) ⊆ first ++ second := by
  rw [namesOf, filterMap_append]
  exact append_subset.2 ⟨subset_append_of_subset_left _ inHere,
    subset_append_of_subset_right _ inThere⟩

namespace Tree

mutual

theorem Embeds.names_subset {template : Template} {id : NodeId} {placed : List Placement} :
    tree.Embeds template id placed → namesOf placed ⊆ template.captureNames
  | .wildcard _ | .variadic _ | .capture _ => Subset.refl _
  | .first inner => by
    rw [namesOf, names_concat rfl]
    exact subset_append_of_subset_left _ inner.names_subset
  | .second inner => by
    rw [namesOf, names_concat rfl]
    exact subset_append_of_subset_right _ inner.names_subset
  | .focus inner => by
    rw [namesOf, names_concat rfl]
    exact inner.names_subset
  | .anchored _ _ children => by
    obtain ⟨_, _, each⟩ := children.oneEach
    rw [namesOf, names_concat rfl]
    exact each.names_subset
  | .loose _ _ _ children => by
    rw [namesOf, names_concat rfl]
    exact children.names_subset

theorem OneEach.names_subset {slots : Slots} {chosen : List NodeId} {placed : List Placement} :
    tree.OneEach slots chosen placed → namesOf placed ⊆ slots.captureNames
  | .done => Subset.refl _
  | .skip others => others.names_subset
  | .next _ _ inner others => namesOf_append_subset inner.names_subset others.names_subset

end

section

variable {id : NodeId} {template : Template} {α : Type} {nodes : List NodeId}

/-- What a template has captured leaves the names of other templates free. -/
theorem freeOf_fit (run : tree.fit template id found = some result) (free : found.FreeOf names)
    (apart : ∀ name ∈ template.captureNames, name ∉ names) : result.FreeOf names := by
  intro name mem
  obtain ⟨placed, embeds, takes⟩ := embeds_fit template run
  rw [takes.after, Partial.get?_after, free name mem, none_or,
    Partial.findSome?_given?_eq_none]
  exact fun given => apart name (embeds.names_subset given) mem

theorem rolesAgree_of_suits {expected : Option Role} (suits : tree.Suits expected id) :
    tree.rolesAgree expected id = true := by
  unfold rolesAgree
  split
  · rename_i wanted played
    exact beq_iff_eq.2 (suits _ rfl _ played).symm
  · rfl

theorem capture?_of_capturable {kinds : List Kind} (capturable : tree.Capturable kinds id)
    (unused : found.captures.get? name = none) :
    ∃ result, tree.capture? name kinds id found = some result := by
  obtain ⟨code, allowed, free⟩ := capturable
  have permitted : ¬((tree.kind id == .comment ||
      (!kinds.isEmpty && !kinds.contains (tree.kind id))) = true) := by
    rcases allowed with rfl | mem
    · simpa using code
    · simpa [mem] using code
  have plain : ¬((tree.kind id == .string && tree.isCompared id) = true) := by
    rw [Bool.and_eq_true, beq_iff_eq, isCompared_iff]
    exact free
  simp only [capture?]
  rw [if_neg permitted, if_neg plain, unused]
  exact ⟨_, rfl⟩

theorem not_refused {kind : Kind} {text : Option String} (sort : tree.kind id = kind)
    (same : ∀ expected ∈ text, tree.text id = some expected) :
    ¬(tree.kind id != kind || (text.isSome && tree.text id != text)) = true := by
  rw [sort]
  cases text with
  | none => simp
  | some expected => simp [same expected rfl]

theorem firstSuffix_of_suffix {attempt : List NodeId → Option α} {answer : α} (part : suffix <:+ nodes)
    (success : attempt suffix = some answer) : ∃ first, firstSuffix attempt nodes = some first := by
  induction nodes with
  | nil => exact ⟨answer, by rw [firstSuffix, ← suffix_nil.1 part, success]⟩
  | cons node rest ih =>
    unfold firstSuffix
    split
    · exact ⟨_, rfl⟩
    rename_i fails
    rcases suffix_cons_iff.1 part with rfl | shorter
    · rw [fails] at success
      cases success
    · exact ih shorter

theorem pick_of_mem {attempt : NodeId → Option α} {answer : α} (mem : id ∈ nodes)
    (success : attempt id = some answer) : ∃ picked, pick attempt nodes = some picked := by
  induction nodes with
  | nil => cases mem
  | cons node rest ih =>
    unfold pick
    split
    · exact ⟨_, rfl⟩
    rename_i fails
    rcases mem_cons.1 mem with rfl | later
    · rw [fails] at success
      cases success
    · obtain ⟨picked, run⟩ := ih later
      exact ⟨_, by rw [run, map_some]⟩

theorem fitSubset_of_singles_nil : (slots : Slots) → slots.singles = [] → (targets : List NodeId) →
    (found : Partial) → tree.fitSubset slots targets found = some found
  | .none, _, targets, found => by rw [fitSubset]
  | .some role template rest, bare, targets, found => by
    rw [Slots.singles] at bare
    split at bare
    · rename_i variadic
      rw [fitSubset, if_pos variadic]
      exact fitSubset_of_singles_nil rest bare targets found
    · cases bare

theorem oneEach_of_singles_nil : (slots : Slots) → slots.singles = [] → tree.OneEach slots [] []
  | .none, _ => .done
  | .some role template rest, bare => by
    rw [Slots.singles] at bare
    split at bare
    · rename_i variadic
      cases template with
      | variadic => exact .skip (oneEach_of_singles_nil rest bare)
      | _ => cases variadic
    · cases bare

theorem inOrder_of_over {slots : Slots}
    (laid : slots.Over tree.Admits targets passed) : ∃ placed, tree.InOrder slots targets placed := by
  induction laid with
  | done => exact ⟨_, .done⟩
  | skip skipped _ ih =>
    obtain ⟨placed, ordered⟩ := ih
    exact ⟨_, .skip skipped ordered⟩
  | next single fits _ ih =>
    obtain ⟨suits, here, embeds⟩ := fits
    obtain ⟨there, ordered⟩ := ih
    exact ⟨_, .next single suits embeds ordered⟩

end

section Thrifty

variable {placed more : List Placement} {slots : Slots}

theorem Fewest.mono (fewest : tree.Fewest placed slots targets passed) (subset : placed ⊆ more) :
    tree.Fewest more slots targets passed :=
  ⟨fewest.laid.mono fun _ _ _ mem => subset mem, fewest.least⟩

theorem Thrifty.mono {place : Placement} (thrifty : tree.Thrifty placed place) (subset : placed ⊆ more) :
    tree.Thrifty more place := by
  intro kind text slots part
  obtain ⟨passed, fewest⟩ := thrifty kind text slots part
  exact ⟨passed, fewest.mono subset⟩

theorem thrifty_append (first : ∀ place ∈ placed, tree.Thrifty placed place)
    (second : ∀ place ∈ more, tree.Thrifty more place) :
    ∀ place ∈ placed ++ more, tree.Thrifty (placed ++ more) place := by
  intro place mem
  rcases mem_append.1 mem with early | late
  · exact (first place early).mono (subset_append_left _ _)
  · exact (second place late).mono (subset_append_right _ _)

theorem thrifty_concat {last : Placement} (others : ∀ place ∈ placed, tree.Thrifty placed place)
    (thrifty : tree.Thrifty placed last) :
    ∀ place ∈ placed ++ [last], tree.Thrifty (placed ++ [last]) place := by
  intro place mem
  rcases mem_append.1 mem with early | late
  · exact (others place early).mono (subset_append_left _ _)
  · cases mem_singleton.1 late
    exact thrifty.mono (subset_append_left _ _)

/-- Passing over the fewest nodes first, and then over the fewest again, is best on the whole. -/
theorem Fewest.skip {skipped : List NodeId} (fewest : tree.Fewest placed rest suffix passed)
    (earlier : ∀ fewer more, skipped = fewer ++ more → more ≠ [] →
      ¬∃ placed, tree.InOrder rest (more ++ suffix) placed) :
    tree.Fewest placed (.some role .variadic rest) (skipped ++ suffix) (skipped.length :: passed) := by
  refine ⟨.skip skipped fewest.laid, fun others laid => ?_⟩
  generalize whole : skipped ++ suffix = nodes at laid
  cases laid with
  | next single => cases single
  | skip instead laid =>
    rcases Nat.lt_trichotomy skipped.length instead.length with less | same | more
    · exact .inr (.rel less)
    · obtain ⟨rfl, rfl⟩ := append_inj whole same
      rcases fewest.least _ laid with same | less
      · exact .inl (by rw [same])
      · exact .inr (.cons less)
    · rcases append_eq_append_iff.1 whole with ⟨_, longer, _⟩ | ⟨beyond, shorter, split⟩
      · rw [longer, length_append] at more
        omega
      · refine absurd (split ▸ inOrder_of_over laid) (earlier instead beyond shorter ?_)
        rintro rfl
        simp [shorter] at more

theorem Fewest.next {template : Template} {id : NodeId} (fewest : tree.Fewest placed rest targets passed)
    (single : template.isVariadic = false) (embeds : tree.Embeds template id here) :
    tree.Fewest (here ++ placed) (.some role template rest) (id :: targets) passed := by
  refine ⟨.next single (mem_append_left _ (by cases embeds <;> simp))
    (fewest.mono (subset_append_right _ _)).laid, fun others laid => ?_⟩
  generalize whole : id :: targets = nodes at laid
  cases laid with
  | skip => cases single
  | next _ _ laid =>
    cases whole
    exact fewest.least _ laid

end Thrifty

/-- The run gives what an alignment of this kind finds, one in which all variadic slots pass over the fewest
nodes. -/
def Finds (tree : Tree) (found : Partial) (run : Option Partial) (Lies : List Placement → Prop) : Prop :=
  ∃ result placed, run = some result ∧ Lies placed ∧ found.Takes tree placed result ∧
    ∀ place ∈ placed, tree.Thrifty placed place

theorem finds_leaf {template : Template} {id : NodeId}
    (run : ∃ result, tree.fit template id found = some result)
    (leaf : ∀ placed, tree.Embeds template id placed → placed = [⟨template, id⟩])
    (other : ∀ kind text slots, template ≠ .node kind text true slots) :
    tree.Finds found (tree.fit template id found) (tree.Embeds template id) := by
  obtain ⟨result, run⟩ := run
  obtain ⟨placed, embeds, takes⟩ := embeds_fit template run
  refine ⟨result, placed, run, embeds, takes, fun place mem kind text slots part => ?_⟩
  rw [leaf placed embeds, mem_singleton] at mem
  cases mem
  exact absurd part (other kind text slots)

-- That the names are free is all that matters of what was found before. It passes on to the slots behind,
-- whose names are different, whichever alignment has been found for the slots in front.
mutual

theorem finds_fit : (template : Template) → {id : NodeId} → {found : Partial} →
    {placed : List Placement} → template.isSparse = true → template.capturesOnce = true →
    found.FreeOf template.captureNames → tree.Embeds template id placed →
    tree.Finds found (tree.fit template id found) (tree.Embeds template id)
  | .wildcard, id, found, placed, sparse, once, free, embeds => by
    refine finds_leaf ?_ (fun _ lies => by cases lies; rfl) fun _ _ _ same => by cases same
    cases embeds with | wildcard code
    rw [fit, if_neg (by simpa using code)]
    exact ⟨_, rfl⟩
  | .variadic, id, found, placed, sparse, once, free, embeds => by
    refine finds_leaf ?_ (fun _ lies => by cases lies; rfl) fun _ _ _ same => by cases same
    cases embeds with | variadic code
    rw [fit, if_neg (by simpa using code)]
    exact ⟨_, rfl⟩
  | .capture name kinds, id, found, placed, sparse, once, free, embeds => by
    refine finds_leaf ?_ (fun _ lies => by cases lies; rfl) fun _ _ _ same => by cases same
    cases embeds with | capture capturable
    exact capture?_of_capturable capturable (free name (.head _))
  | .either first second, id, found, placed, sparse, once, free, embeds => by
    rw [Template.isSparse, Bool.and_eq_true] at sparse
    rw [Template.capturesOnce, Bool.and_eq_true] at once
    by_cases direct : ∃ placed, tree.Embeds first id placed
    · obtain ⟨_, lies⟩ := direct
      obtain ⟨result, placed, run, embeds, takes, thrifty⟩ := finds_fit first sparse.1 once.1
        (free.mono (subset_append_left _ _)) lies
      exact ⟨result, _, by rw [fit, run], .first embeds, takes.concat fun _ => rfl,
        thrifty_concat thrifty fun _ _ _ part => by cases part⟩
    · have fails : tree.fit first id found = none := by
        refine eq_none_iff_forall_ne_some.2 fun result run => direct ?_
        obtain ⟨placed, lies, _⟩ := embeds_fit first run
        exact ⟨placed, lies⟩
      cases embeds with
      | first inner => exact absurd ⟨_, inner⟩ direct
      | second inner =>
        obtain ⟨result, placed, run, embeds, takes, thrifty⟩ := finds_fit second sparse.2 once.2
          (free.mono (subset_append_right _ _)) inner
        exact ⟨result, _, by rw [fit, fails, run], .second embeds, takes.concat fun _ => rfl,
          thrifty_concat thrifty fun _ _ _ part => by cases part⟩
  | .focus inner, id, found, placed, sparse, once, free, embeds => by
    cases embeds with | focus lies
    obtain ⟨result, placed, run, embeds, takes, thrifty⟩ := finds_fit inner sparse once free lies
    exact ⟨_, _, by rw [fit, run]; rfl, .focus embeds, takes.concat fun _ => rfl,
      thrifty_concat thrifty fun _ _ _ part => by cases part⟩
  | .node kind text anchored children, id, found, placed, sparse, once, free, embeds => by
    rw [Template.isSparse, Bool.and_eq_true] at sparse
    cases embeds with
    | anchored sort same ordered =>
      obtain ⟨result, placed, run, ⟨ordered, passed, fewest⟩, takes, thrifty⟩ :=
        finds_fitSequence children sparse.1 once free ordered
      refine ⟨result, _, by rw [fit, if_neg (not_refused sort same), if_pos rfl, run],
        .anchored sort same ordered, takes.concat fun _ => rfl, thrifty_concat thrifty ?_⟩
      intro kind text slots part
      cases part
      exact ⟨passed, fewest⟩
    | loose sort same distinct each =>
      have few : children.singles.length ≤ 1 := by simpa using sparse.2
      obtain ⟨result, placed, run, ⟨chosen, among, each⟩, takes, thrifty⟩ :=
        finds_fitSubset children sparse.1 once few free distinct each
      exact ⟨result, _, by rw [fit, if_neg (not_refused sort same), if_neg Bool.false_ne_true, run],
        .loose sort same among each, takes.concat fun _ => rfl,
        thrifty_concat thrifty fun _ _ _ part => by cases part⟩

theorem finds_fitSequence : (slots : Slots) → {targets : List NodeId} → {found : Partial} →
    {placed : List Placement} → slots.isSparse = true → slots.capturesOnce = true →
    found.FreeOf slots.captureNames → tree.InOrder slots targets placed →
    tree.Finds found (tree.fitSequence slots targets found) fun placed =>
      tree.InOrder slots targets placed ∧ ∃ passed, tree.Fewest placed slots targets passed
  | .none, targets, found, placed, sparse, once, free, ordered => by
    cases ordered with | done
    refine ⟨found, [], by rw [fitSequence, if_pos isEmpty_nil], ⟨.done, [], .done, ?_⟩, .nil,
      forall_mem_nil _⟩
    intro others laid
    cases laid
    exact .inl rfl
  | .some role template rest, targets, found, placed, sparse, once, free, ordered => by
    rw [Slots.isSparse, Bool.and_eq_true] at sparse
    obtain ⟨one, two, apart⟩ := Slots.capturesOnce_some.1 once
    have there : found.FreeOf rest.captureNames := free.mono (subset_append_right _ _)
    cases ordered with
    | skip skipped others =>
      have succeeds {targets : List NodeId} {placed : List Placement}
          (lies : tree.InOrder rest targets placed) := finds_fitSequence rest sparse.2 two there lies
      obtain ⟨_, _, run, _⟩ := succeeds others
      obtain ⟨result, run⟩ : ∃ result,
          firstSuffix (fun targets => tree.fitSequence rest targets found) (skipped ++ _) = some result :=
        firstSuffix_of_suffix (suffix_append skipped _) run
      obtain ⟨passedOver, suffix, split, fits, earlier⟩ := exists_skipped_of_firstSuffix run
      obtain ⟨_, lies, _⟩ := inOrder_fitSequence rest fits
      obtain ⟨_, placed, again, ⟨ordered, passed, fewest⟩, takes, thrifty⟩ := succeeds lies
      cases fits.symm.trans again
      rw [fitSequence_skip, split]
      refine ⟨result, placed, split ▸ run, ⟨.skip passedOver ordered, _, fewest.skip ?_⟩, takes, thrifty⟩
      -- an alignment that passes over fewer nodes would have been found before
      rintro fewer more rfl some ⟨_, lies⟩
      obtain ⟨_, _, success, _⟩ := succeeds lies
      rw [earlier fewer more rfl some] at success
      cases success
    | next single suits inner others =>
      obtain ⟨middle, here, fits, lies, first, thrifty⟩ := finds_fit template sparse.1 one
        (free.mono (subset_append_left _ _)) inner
      obtain ⟨result, there, run, ⟨ordered, passed, fewest⟩, second, beyond⟩ :=
        finds_fitSequence rest sparse.2 two (freeOf_fit fits there apart) others
      exact ⟨result, here ++ there,
        by rw [fitSequence_next single, attempt_eq_some.2 ⟨rolesAgree_of_suits suits, fits⟩,
          bind_some, run],
        ⟨.next single suits lies ordered, passed, fewest.next single lies⟩, first.append second,
        thrifty_append thrifty beyond⟩

theorem finds_fitSubset : (slots : Slots) → {targets chosen : List NodeId} → {found : Partial} →
    {placed : List Placement} → slots.isSparse = true → slots.capturesOnce = true →
    slots.singles.length ≤ 1 → found.FreeOf slots.captureNames → chosen.Subperm targets →
    tree.OneEach slots chosen placed →
    tree.Finds found (tree.fitSubset slots targets found) fun placed =>
      ∃ chosen, chosen.Subperm targets ∧ tree.OneEach slots chosen placed
  | .none, targets, chosen, found, placed, sparse, once, few, free, among, each =>
    ⟨found, [], by rw [fitSubset], ⟨[], nil_subperm, .done⟩, .nil, forall_mem_nil _⟩
  | .some role template rest, targets, chosen, found, placed, sparse, once, few, free, among, each => by
    rw [Slots.isSparse, Bool.and_eq_true] at sparse
    obtain ⟨one, two, apart⟩ := Slots.capturesOnce_some.1 once
    cases each with
    | skip others =>
      obtain ⟨result, placed, run, ⟨chosen, among, each⟩, found⟩ :=
        finds_fitSubset rest sparse.2 two few free among others
      exact ⟨result, placed, by rw [fitSubset_skip, run], ⟨chosen, among, .skip each⟩, found⟩
    | next single suits inner others =>
      rw [Slots.singles, if_neg (Bool.eq_false_iff.1 single), length_cons] at few
      have bare : rest.singles = [] := length_eq_zero_iff.1 (by omega)
      have succeeds {id : NodeId} {placed : List Placement} (lies : tree.Embeds template id placed) :=
        finds_fit template sparse.1 one (free.mono (subset_append_left _ _)) lies
      obtain ⟨_, _, fits, _⟩ := succeeds inner
      obtain ⟨⟨middle, left⟩, picked⟩ := pick_of_mem (among.subset (.head _))
        (attempt_eq_some.2 ⟨rolesAgree_of_suits suits, fits⟩)
      obtain ⟨id, success, perm⟩ := perm_of_pick picked
      obtain ⟨agree, fits⟩ := attempt_eq_some.1 success
      obtain ⟨_, lies, _⟩ := embeds_fit template fits
      obtain ⟨_, here, again, embeds, takes, thrifty⟩ := succeeds lies
      cases fits.symm.trans again
      have alone := OneEach.next single (suits_of_rolesAgree agree) embeds
        (oneEach_of_singles_nil rest bare)
      rw [append_nil] at alone
      rw [fitSubset_next single, picked, bind_some, fitSubset_of_singles_nil rest bare]
      refine ⟨middle, here, rfl, ⟨[id], ?_, alone⟩, takes, thrifty⟩
      exact ((subperm_cons id).2 nil_subperm).trans perm.symm.subperm

end

end Tree

theorem Match.Genuine.of_takes {id : NodeId} {placed : List Placement} (code : tree.kind id ≠ .comment)
    (embeds : tree.Embeds template id placed) (takes : Partial.Takes tree {} placed result) :
    Match.Genuine { node := result.focus.getD id, root := id, captures := result.captures } tree template
      id placed := by
  refine ⟨code, embeds, embeds.within, takes.agrees, takes.get?, fun name node =>
    takes.distinct.mem_entries, rfl, ?_⟩
  rw [takes.after, Partial.focus_after, or_none]

namespace Pattern

/-- Matching is complete, and thrifty with variadic slots. Let no two parts of a template that can be
placed together share a name, and let the parts with unordered children ask for one of these at most. Then
the pattern matches at a node of code if and only if its template has an alignment there, and a match
comes from an alignment in which every list of ordered children is passed over as little as any alignment
of that list allows. -/
theorem match_complete {pattern : Pattern} (once : pattern.template.capturesOnce = true)
    (sparse : pattern.template.isSparse = true) {tree : Tree} {id : NodeId} (code : tree.kind id ≠ .comment) :
    ((pattern.matchAt? tree id).isSome = true ↔ ∃ placed, tree.Embeds pattern.template id placed) ∧
    ∀ found, pattern.matchAt? tree id = some found →
      ∃ placed, found.Genuine tree pattern.template id placed ∧
        ∀ place ∈ placed, tree.Thrifty placed place := by
  have succeeds {placed : List Placement} (embeds : tree.Embeds pattern.template id placed) :=
    Tree.finds_fit pattern.template sparse once (Partial.freeOf_nothing _) embeds
  have unfolded : pattern.matchAt? tree id = (tree.fit pattern.template id {}).map fun result =>
      { node := result.focus.getD id, root := id, captures := result.captures } := by
    rw [matchAt?, if_neg (by simpa using code)]
  refine ⟨⟨fun run => ?_, ?_⟩, fun found run => ?_⟩
  · obtain ⟨found, run⟩ := isSome_iff_exists.1 run
    obtain ⟨_, placed, _, embeds, _⟩ := embeds_matchAt? run
    exact ⟨placed, embeds⟩
  · rintro ⟨placed, embeds⟩
    obtain ⟨result, _, fits, _⟩ := succeeds embeds
    rw [unfolded, fits]
    rfl
  · obtain ⟨_, _, _, lies, _⟩ := embeds_matchAt? run
    obtain ⟨result, placed, fits, embeds, takes, thrifty⟩ := succeeds lies
    rw [unfolded, fits] at run
    cases run
    exact ⟨placed, .of_takes code embeds takes, thrifty⟩

/-- The second variadic slot has to pass over the first `"x"`, since one node must be left behind the next
one; the first variadic slot passes over nothing. -/
theorem match_complete_later_text :
    let tree := Script.tree "f.js" "log(p, q, \"x\", r, \"x\", s);\n"
    ∃ pattern found placed,
      compile .javascript "r" "log($<...>, $<A>, $<...>, \"x\", $<B>)" = .ok pattern ∧
      pattern.template.capturesOnce = true ∧ pattern.template.isSparse = true ∧
      pattern.matchAt? tree 8 = some found ∧ found.captures.entries = [("A", 1), ("B", 6)] ∧
      found.Genuine tree pattern.template 8 placed ∧ ∀ place ∈ placed, tree.Thrifty placed place := by
  intro tree
  obtain ⟨pattern, compiled, once, sparse, code, found, fits, entries⟩ :
      ∃ pattern, compile .javascript "r" "log($<...>, $<A>, $<...>, \"x\", $<B>)" = .ok pattern ∧
      pattern.template.capturesOnce = true ∧ pattern.template.isSparse = true ∧ tree.kind 8 ≠ .comment ∧
      ∃ found ∈ pattern.matchAt? tree 8, found.captures.entries = [("A", 1), ("B", 6)] := by
    decide +kernel
  obtain ⟨placed, genuine, thrifty⟩ := (match_complete once sparse code).2 found fits
  exact ⟨pattern, found, placed, compiled, once, sparse, fits, entries, genuine, thrifty⟩

end Pattern

end LeakTrace
