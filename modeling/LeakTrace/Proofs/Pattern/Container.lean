import LeakTrace.Proofs.Pattern.Alignment

namespace LeakTrace

open List Option

variable {targets : List NodeId} {tree : Tree}

namespace Tree

/-- The node plays the part that the slot asks for, and the template of the slot fits there by itself. -/
def Meets (tree : Tree) (slot : Option Role × Template) (id : NodeId) : Prop :=
  tree.Suits slot.1 id ∧ (tree.fit slot.2 id {}).isSome = true

/-- Each slot has a node of its own among the targets. -/
structure Assigns (tree : Tree) (slots : List (Option Role × Template)) (targets chosen : List NodeId) :
    Prop where
  meets : Forall₂ tree.Meets slots chosen
  distinct : chosen.Subperm targets

/-- Each slot in turn has the first of the nodes that are left and meet it. -/
inductive FirstFit (tree : Tree) : List (Option Role × Template) → List NodeId → List NodeId → Prop
  | done {targets : List NodeId} : FirstFit tree [] targets []
  | next {slot : Option Role × Template} {slots : List (Option Role × Template)}
      {before after chosen : List NodeId} {id : NodeId} (meets : tree.Meets slot id)
      (refused : ∀ earlier ∈ before, ¬tree.Meets slot earlier)
      (others : FirstFit tree slots (before ++ after) chosen) :
      FirstFit tree (slot :: slots) (before ++ id :: after) (id :: chosen)

/-- Where two slots compete for a node, all nodes that meet the earlier slot meet the later one too. -/
def Orderly (tree : Tree) (slots : List (Option Role × Template)) (targets : List NodeId) : Prop :=
  slots.Pairwise fun earlier later =>
    (∃ id ∈ targets, tree.Meets earlier id ∧ tree.Meets later id) →
      ∀ id ∈ targets, tree.Meets earlier id → tree.Meets later id

section

variable {slots : List (Option Role × Template)} {slot : Option Role × Template}

theorem Orderly.mono {fewer : List NodeId} (orderly : tree.Orderly slots targets)
    (subset : fewer ⊆ targets) : tree.Orderly slots fewer := by
  refine Pairwise.imp (fun nested => ?_) orderly
  rintro ⟨id, mem, both⟩ other among
  exact nested ⟨id, subset mem, both⟩ other (subset among)

variable {chosen : List NodeId}

theorem FirstFit.assigns (fits : tree.FirstFit slots targets chosen) :
    tree.Assigns slots targets chosen := by
  induction fits with
  | done => exact ⟨.nil, nil_subperm⟩
  | next meets _ _ ih =>
    exact ⟨.cons meets ih.meets, ((subperm_cons _).2 ih.distinct).trans perm_middle.symm.subperm⟩

/-- A node that meets a slot has a first one before it, or is it itself. -/
theorem exists_first_of_meets {id : NodeId} (mem : id ∈ targets) (meets : tree.Meets slot id) :
    ∃ before first after, targets = before ++ first :: after ∧ tree.Meets slot first ∧
      ∀ earlier ∈ before, ¬tree.Meets slot earlier := by
  induction targets with
  | nil => cases mem
  | cons target rest ih =>
    by_cases here : tree.Meets slot target
    · exact ⟨[], target, rest, rfl, here, forall_mem_nil _⟩
    · have later : id ∈ rest := (mem_cons.1 mem).resolve_left fun same => here (same ▸ meets)
      obtain ⟨before, first, after, rfl, success, refused⟩ := ih later
      exact ⟨target :: before, first, after, rfl, success, forall_mem_cons.2 ⟨here, refused⟩⟩

/-- Whichever slot has the one node may have the other instead. -/
theorem forall₂_meets_replace {front back : List NodeId} {old new : NodeId}
    (both : Forall₂ tree.Meets slots (front ++ old :: back))
    (swap : ∀ slot ∈ slots, tree.Meets slot old → tree.Meets slot new) :
    Forall₂ tree.Meets slots (front ++ new :: back) := by
  induction front generalizing slots with
  | nil =>
    cases both with
    | cons meets both => exact .cons (swap _ (.head _) meets) both
  | cons id front ih =>
    cases both with | cons meets both
    exact .cons meets (ih both fun slot mem => swap slot (.tail _ mem))

/-- The first node of the first slot can be taken out of an assignment: the slot that has it in the
assignment takes the one that the first slot had there. -/
theorem Assigns.exchange {first : NodeId} (orderly : tree.Orderly (slot :: slots) targets)
    (assigns : tree.Assigns (slot :: slots) targets chosen) (mem : first ∈ targets)
    (meets : tree.Meets slot first) :
    ∃ others, Forall₂ tree.Meets slots others ∧ (first :: others).Subperm targets := by
  obtain ⟨both, distinct⟩ := assigns
  cases both with | @cons _ id _ more had both
  by_cases taken : first ∈ more
  · obtain ⟨front, back, rfl⟩ := append_of_mem taken
    have swapped : (first :: (front ++ id :: back)).Perm (id :: (front ++ first :: back)) :=
      ((perm_middle.cons first).trans (.swap _ _ _)).trans (perm_middle.symm.cons id)
    refine ⟨front ++ id :: back, forall₂_meets_replace both fun later among holds => ?_,
      swapped.subperm.trans distinct⟩
    have nested := (pairwise_cons.1 orderly).1 later among
    exact nested ⟨first, mem, meets, holds⟩ id (distinct.subset (.head _)) had
  · refine ⟨more, both, cons_subperm_of_not_mem_of_mem taken mem ?_⟩
    exact (sublist_cons_self id more).subperm.trans distinct

/-- If competing slots are in order, the first fit reaches every slot as soon as an assignment does. -/
theorem exists_firstFit_of_assigns (orderly : tree.Orderly slots targets)
    (assigns : tree.Assigns slots targets chosen) : ∃ picked, tree.FirstFit slots targets picked := by
  induction slots generalizing targets chosen with
  | nil => exact ⟨[], .done⟩
  | cons slot slots ih =>
    obtain ⟨id, meets, among⟩ : ∃ id, tree.Meets slot id ∧ id ∈ targets := by
      obtain ⟨both, distinct⟩ := assigns
      cases both with
      | cons meets => exact ⟨_, meets, distinct.subset mem_cons_self⟩
    obtain ⟨before, first, after, rfl, success, refused⟩ := exists_first_of_meets among meets
    obtain ⟨others, both, distinct⟩ := assigns.exchange orderly
      (mem_append_right _ (.head _)) success
    have left : others.Subperm (before ++ after) :=
      (subperm_cons first).1 (distinct.trans perm_middle.subperm)
    have fewer : before ++ after ⊆ before ++ first :: after :=
      append_subset.2 ⟨subset_append_left _ _,
        subset_append_of_subset_right _ (subset_cons_self _ _)⟩
    obtain ⟨picked, fits⟩ := ih (Orderly.mono (pairwise_cons.1 orderly).2 fewer) ⟨both, left⟩
    exact ⟨first :: picked, .next success refused fits⟩

end

-- The two runs may capture different nodes and take different alternatives. What matters for the parts that
-- follow is only that their names stay free in both.
mutual

/-- Whether a template fits does not depend on what was found before, if its names are free. -/
theorem fit_of_freeOf : (template : Template) → {id : NodeId} → {found other : Partial} →
    template.capturesOnce = true → found.FreeOf template.captureNames →
    other.FreeOf template.captureNames →
    Option.Rel (fun _ _ => True) (tree.fit template id found) (tree.fit template id other)
  | .wildcard, id, found, other, once, free, alsoFree => by
    rw [fit, fit]
    split
    · exact .none
    · exact .some trivial
  | .variadic, id, found, other, once, free, alsoFree => by
    rw [fit, fit]
    split
    · exact .none
    · exact .some trivial
  | .capture name kinds, id, found, other, once, free, alsoFree => by
    rw [fit, fit, capture?, capture?, free name mem_cons_self, alsoFree name mem_cons_self]
    split
    · exact .none
    · split
      · exact .none
      · exact .some trivial
  | .either first second, id, found, other, once, free, alsoFree => by
    rw [Template.capturesOnce, Bool.and_eq_true] at once
    rw [fit_either, fit_either]
    have names := subset_append_left first.captureNames second.captureNames
    have others := subset_append_right first.captureNames second.captureNames
    exact rel_or (fit_of_freeOf first once.1 (free.mono names) (alsoFree.mono names))
      (fit_of_freeOf second once.2 (free.mono others) (alsoFree.mono others))
  | .focus inner, id, found, other, once, free, alsoFree => by
    rw [fit, fit, map_eq_bind, map_eq_bind]
    exact rel_bind (fit_of_freeOf inner once free alsoFree) fun _ _ _ => .some trivial
  | .node kind text anchored children, id, found, other, once, free, alsoFree =>
    rel_mono ((parallel_of_freeOf children once _).fit_node rfl rfl (map_id _).symm ⟨free, alsoFree⟩
      kind text anchored) fun _ _ _ _ _ => trivial

theorem parallel_of_freeOf : (slots : Slots) → slots.capturesOnce = true → (nodes : List NodeId) →
    slots.Parallel id tree tree nodes
      (fun slots found other => found.FreeOf slots.captureNames ∧ other.FreeOf slots.captureNames) slots
  | .none, _, nodes => .none
  | .some role template rest, once, nodes => by
    obtain ⟨one, two, apart⟩ := Slots.capturesOnce_some.1 once
    have names := subset_append_left template.captureNames rest.captureNames
    have others := subset_append_right template.captureNames rest.captureNames
    refine .slot rfl (fun _ found other free => ⟨free.1.mono others, free.2.mono others⟩)
      (fun _ id _ found other free => ?_) (parallel_of_freeOf rest two nodes)
    obtain ⟨free, alsoFree⟩ := free
    rw [attempt, attempt, id_eq]
    split
    · refine rel_mono (fit_of_freeOf template one (free.mono names) (alsoFree.mono names)) ?_
      exact fun _ _ run also _ => ⟨freeOf_fit run (free.mono others) apart,
        freeOf_fit also (alsoFree.mono others) apart⟩
    · exact .none

end

theorem exists_attempt_iff {role : Option Role} {template : Template} {found : Partial} {id : NodeId}
    (once : template.capturesOnce = true) (free : found.FreeOf template.captureNames) :
    (∃ result, tree.attempt (role, template) found id = some result) ↔ tree.Meets (role, template) id := by
  have same : (tree.fit template id found).isSome = (tree.fit template id {}).isSome :=
    isSome_of_rel (fit_of_freeOf template once free (Partial.freeOf_nothing _))
  rw [Meets, ← same, isSome_iff_exists]
  simp only [attempt_eq_some, exists_and_left]
  exact and_congr_left fun _ => ⟨suits_of_rolesAgree, rolesAgree_of_suits⟩

/-- Unordered children are found if and only if the first fit reaches every slot. -/
theorem fitSubset_iff_firstFit : (slots : Slots) → {targets : List NodeId} → {found : Partial} →
    slots.capturesOnce = true → found.FreeOf slots.captureNames →
    ((∃ result, tree.fitSubset slots targets found = some result) ↔
      ∃ chosen, tree.FirstFit slots.singles targets chosen)
  | .none, targets, found, once, free => ⟨fun _ => ⟨[], .done⟩, fun _ => ⟨found, by rw [fitSubset]⟩⟩
  | .some role template rest, targets, found, once, free => by
    obtain ⟨one, two, apart⟩ := Slots.capturesOnce_some.1 once
    have here : found.FreeOf template.captureNames := free.mono (subset_append_left _ _)
    have there : found.FreeOf rest.captureNames := free.mono (subset_append_right _ _)
    rw [Slots.singles]
    by_cases variadic : template.isVariadic = true
    · cases template with
      | variadic =>
        exact fitSubset_iff_firstFit rest two there
      | _ => cases variadic
    · have single : template.isVariadic = false := by simpa using variadic
      have succeeds (id : NodeId) : (∃ result, tree.attempt (role, template) found id = some result) ↔
          tree.Meets (role, template) id := exists_attempt_iff one here
      rw [if_neg variadic, fitSubset_next single]
      constructor
      · rintro ⟨result, run⟩
        obtain ⟨⟨middle, left⟩, picked, later⟩ := bind_eq_some_iff.1 run
        obtain ⟨before, id, after, rfl, rfl, success, refused⟩ := pick_eq_some.1 picked
        have freed := freeOf_fit (attempt_eq_some.1 success).2 there apart
        obtain ⟨chosen, fits⟩ := (fitSubset_iff_firstFit rest two freed).1 ⟨result, later⟩
        refine ⟨id :: chosen, .next ((succeeds id).1 ⟨middle, success⟩) (fun earlier mem meets => ?_) fits⟩
        obtain ⟨instead, taken⟩ := (succeeds earlier).2 meets
        rw [refused earlier mem] at taken
        cases taken
      · rintro ⟨chosen, fits⟩
        cases fits with | @next _ _ before after chosen id meets refused fits
        obtain ⟨middle, success⟩ := (succeeds id).2 meets
        have freed := freeOf_fit (attempt_eq_some.1 success).2 there apart
        obtain ⟨result, later⟩ := (fitSubset_iff_firstFit rest two freed).2 ⟨chosen, fits⟩
        have denied : ∀ earlier ∈ before, tree.attempt (role, template) found earlier = none := by
          intro earlier mem
          rw [eq_none_iff_forall_ne_some]
          exact fun instead taken => refused earlier mem ((succeeds earlier).1 ⟨instead, taken⟩)
        rw [pick_eq_some.2 ⟨before, id, after, rfl, rfl, success, denied⟩]
        exact ⟨result, later⟩

end Tree

namespace Slots

theorem mem_captureNames {name : String} : (slots : Slots) →
    (name ∈ slots.captureNames ↔ ∃ slot ∈ slots.singles, name ∈ slot.2.captureNames)
  | .none => by simp [captureNames, singles]
  | .some role template rest => by
    rw [captureNames, mem_append, mem_captureNames rest, singles]
    cases template with
    | variadic => simp [Template.captureNames, Template.isVariadic]
    | _ => simp [Template.isVariadic]

theorem capturesOnce_iff : (slots : Slots) → (slots.capturesOnce = true ↔
    (∀ slot ∈ slots.singles, slot.2.capturesOnce = true) ∧
      slots.singles.Pairwise fun first second => List.Disjoint first.2.captureNames second.2.captureNames)
  | .none => by simp [capturesOnce, singles]
  | .some role template rest => by
    have disjoint : (∀ name ∈ template.captureNames, name ∉ rest.captureNames) ↔
        ∀ slot ∈ rest.singles, List.Disjoint template.captureNames slot.2.captureNames := by
      simp only [mem_captureNames rest, not_exists, not_and, List.Disjoint]
      exact ⟨fun apart slot mem name here there => apart name here slot mem there,
        fun apart name here slot mem there => apart slot mem here there⟩
    rw [capturesOnce_some, capturesOnce_iff rest, disjoint, singles]
    split
    · rename_i variadic
      cases template with
      | variadic => simp [Template.capturesOnce, Template.captureNames]
      | _ => cases variadic
    rw [forall_mem_cons, pairwise_cons]
    constructor
    · rintro ⟨one, ⟨each, pairs⟩, apart⟩
      exact ⟨⟨one, each⟩, apart, pairs⟩
    · rintro ⟨⟨one, each⟩, apart, pairs⟩
      exact ⟨one, ⟨each, pairs⟩, apart⟩

variable {slots others : Slots}

theorem capturesOnce_of_perm (same : others.singles.Perm slots.singles) (once : slots.capturesOnce = true) :
    others.capturesOnce = true := by
  obtain ⟨each, pairs⟩ := (capturesOnce_iff slots).1 once
  exact (capturesOnce_iff others).2 ⟨fun slot mem => each slot (same.subset mem),
    same.symm.pairwise pairs fun apart _ here there => apart there here⟩

theorem captureNames_subset_of_perm (same : others.singles.Perm slots.singles) :
    others.captureNames ⊆ slots.captureNames := by
  intro name mem
  obtain ⟨slot, among, inside⟩ := (mem_captureNames others).1 mem
  exact (mem_captureNames slots).2 ⟨slot, same.subset among, inside⟩

end Slots

namespace Tree

variable {slots : Slots} {found : Partial}

section

variable (once : slots.capturesOnce = true)
include once

variable (free : found.FreeOf slots.captureNames)
include free

theorem exists_assigns_of_fitSubset (run : ∃ result, tree.fitSubset slots targets found = some result) :
    ∃ chosen, tree.Assigns slots.singles targets chosen := by
  obtain ⟨chosen, fits⟩ := (fitSubset_iff_firstFit slots once free).1 run
  exact ⟨chosen, fits.assigns⟩

theorem fitSubset_of_assigns (orderly : tree.Orderly slots.singles targets)
    (assigned : ∃ chosen, tree.Assigns slots.singles targets chosen) :
    ∃ result, tree.fitSubset slots targets found = some result := by
  obtain ⟨chosen, assigns⟩ := assigned
  exact (fitSubset_iff_firstFit slots once free).2 (exists_firstFit_of_assigns orderly assigns)

/-- The order of slots and nodes makes no difference if competing slots are in order. -/
theorem fitSubset_of_perm {others : Slots} {nodes : List NodeId}
    (sameSlots : others.singles.Perm slots.singles) (sameNodes : nodes.Perm targets)
    (orderly : tree.Orderly others.singles nodes)
    (run : ∃ result, tree.fitSubset slots targets found = some result) :
    ∃ result, tree.fitSubset others nodes found = some result := by
  obtain ⟨chosen, assigns⟩ := exists_assigns_of_fitSubset once free run
  obtain ⟨picked, both, perm⟩ := perm_comp_forall₂ sameSlots assigns.meets
  exact fitSubset_of_assigns (Slots.capturesOnce_of_perm sameSlots once)
    (free.mono (Slots.captureNames_subset_of_perm sameSlots)) orderly
    ⟨picked, both, (perm.subperm.trans assigns.distinct).trans sameNodes.symm.subperm⟩

end

/-- Unordered children are found by first fit. A part without repeated names matches a node of its kind
and text if and only if each of its slots in turn finds a node among those that are left, taking the first
one. Then each slot has a node of its own; but that each could have one is enough only if, where two slots
compete, whatever meets the earlier one meets the later one as well. As far as that holds, the order of
the slots and of the children makes no difference. -/
theorem unordered_first_fit {kind : Kind} {text : Option String} (once : slots.capturesOnce = true)
    {id : NodeId} (sort : tree.kind id = kind) (same : ∀ expected ∈ text, tree.text id = some expected)
    (free : found.FreeOf slots.captureNames) :
    let matched := (tree.fit (.node kind text false slots) id found).isSome = true
    let children := tree.codeChildren id
    (matched ↔ ∃ chosen, tree.FirstFit slots.singles children chosen) ∧
    (matched → ∃ chosen, tree.Assigns slots.singles children chosen) ∧
    (tree.Orderly slots.singles children →
      (matched ↔ ∃ chosen, tree.Assigns slots.singles children chosen)) ∧
    ∀ others nodes, others.singles.Perm slots.singles → nodes.Perm children →
      tree.Orderly slots.singles children → tree.Orderly others.singles children →
        ((tree.fitSubset others nodes found).isSome = true ↔ matched) := by
  intro matched children
  have unfolded : matched ↔ ∃ result, tree.fitSubset slots children found = some result := by
    rw [← isSome_iff_exists]
    simp only [matched]
    rw [fit, if_neg (not_refused sort same), if_neg Bool.false_ne_true]
  rw [unfolded]
  refine ⟨fitSubset_iff_firstFit slots once free, exists_assigns_of_fitSubset once free,
    fun orderly => ⟨exists_assigns_of_fitSubset once free, fitSubset_of_assigns once free orderly⟩,
    fun others nodes sameSlots sameNodes orderly alsoOrderly => ?_⟩
  rw [isSome_iff_exists]
  constructor
  · exact fitSubset_of_perm (Slots.capturesOnce_of_perm sameSlots once)
      (free.mono (Slots.captureNames_subset_of_perm sameSlots)) sameSlots.symm sameNodes.symm orderly
  · exact fitSubset_of_perm once free sameSlots sameNodes (alsoOrderly.mono sameNodes.subset)

end Tree

/-- An entry of an object with this key. -/
def Template.entry (key : String) : Template :=
  .node .pair none true (.ofList
    [(some .key, .either (.leaf .identifier (some key)) (.leaf .string (some key))), (some .value, .wildcard)])

/-- The slot for any entry takes the only entry `b`, and the slot for `b` finds none, though each could have
an entry of its own. -/
theorem Tree.unordered_first_fit_taken :
    let tree := Script.tree "f.js" "send({ b: 1, a: 2 });\n"
    let slots := Slots.ofList [(none, .wildcard), (none, .entry "b")]
    (tree.fit (.node .object none false slots) 7 {}).isSome = false ∧
      (∃ chosen, tree.Assigns slots.singles (tree.codeChildren 7) chosen) ∧
      (¬∃ chosen, tree.FirstFit slots.singles (tree.codeChildren 7) chosen) ∧
      ¬tree.Orderly slots.singles (tree.codeChildren 7) := by
  intro tree slots
  have facts : slots.capturesOnce = true ∧ tree.kind 7 = .object ∧ tree.codeChildren 7 = [3, 6] ∧
      (tree.fit (.node .object none false slots) 7 {}).isSome = false ∧
      (tree.fit .wildcard 6 {}).isSome = true ∧ (tree.fit (.entry "b") 3 {}).isSome = true := by
    decide +kernel
  obtain ⟨once, sort, children, fails, any, named⟩ := facts
  have same : ∀ expected ∈ (none : Option String), tree.text 7 = some expected := by simp
  have free (id : NodeId) : tree.Suits none id := by simp [Tree.Suits]
  have assigned : ∃ chosen, tree.Assigns slots.singles (tree.codeChildren 7) chosen := by
    rw [children]
    exact ⟨[6, 3], .cons ⟨free 6, any⟩ (.cons ⟨free 3, named⟩ .nil), (Perm.swap 3 6 []).subperm⟩
  obtain ⟨first, _, orderly, _⟩ := unordered_first_fit once sort same (Partial.freeOf_nothing _)
  have unmatched := Bool.eq_false_iff.1 fails
  exact ⟨fails, assigned, fun fits => unmatched (first.2 fits),
    fun holds => unmatched ((orderly holds).2 assigned)⟩

end LeakTrace
