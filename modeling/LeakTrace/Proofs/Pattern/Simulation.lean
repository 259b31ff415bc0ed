import LeakTrace.Pattern.Match

namespace LeakTrace

open List LeakTrace.Tree

variable {first second : Tree} {place : NodeId → NodeId} {found : Partial} {tree : Tree}
  {role : Option Role} {template : Template}

namespace Tree

/-- The attempt of a slot at a node. -/
def attempt (tree : Tree) (slot : Option Role × Template) (found : Partial) (id : NodeId) : Option Partial :=
  if tree.rolesAgree slot.1 id then tree.fit slot.2 id found else none

theorem attempt_eq_some {result : Partial} {id : NodeId} :
    tree.attempt (role, template) found id = some result ↔
      tree.rolesAgree role id = true ∧ tree.fit template id found = some result := by
  unfold attempt
  split <;> simp [*]

theorem fit_either (one two : Template) (id : NodeId) (found : Partial) :
    tree.fit (.either one two) id found = (tree.fit one id found).or (tree.fit two id found) := by
  rw [fit]
  cases tree.fit one id found <;> rfl

theorem fitSequence_skip (role : Option Role) (rest : Slots) (targets : List NodeId) (found : Partial) :
    tree.fitSequence (.some role .variadic rest) targets found =
      firstSuffix (fun targets => tree.fitSequence rest targets found) targets := by
  rfl

theorem fitSequence_next (single : template.isVariadic = false) (rest : Slots) (id : NodeId)
    (targets : List NodeId) (found : Partial) :
    tree.fitSequence (.some role template rest) (id :: targets) found =
      (tree.attempt (role, template) found id).bind (tree.fitSequence rest targets) := by
  rw [fitSequence.eq_def, attempt]
  simp only [single, Bool.false_eq_true, if_false]
  split
  · cases tree.fit template id found <;> rfl
  · rfl

theorem fitSubset_skip (role : Option Role) (rest : Slots) (targets : List NodeId) (found : Partial) :
    tree.fitSubset (.some role .variadic rest) targets found = tree.fitSubset rest targets found := by
  rfl

theorem fitSubset_next (single : template.isVariadic = false) (rest : Slots) (targets : List NodeId)
    (found : Partial) : tree.fitSubset (.some role template rest) targets found =
      (pick (tree.attempt (role, template) found) targets).bind fun picked =>
        tree.fitSubset rest picked.2 picked.1 := by
  have same : (fun id => if tree.rolesAgree role id then tree.fit template id found else none) =
      tree.attempt (role, template) found := rfl
  rw [fitSubset]
  simp only [single, Bool.false_eq_true, if_false, same]
  cases pick (tree.attempt (role, template) found) targets <;> rfl

section

variable {α β : Type} {Like : α → β → Prop} {one three : Option α} {two four : Option β} {nodes : List NodeId}

theorem rel_or (here : Option.Rel Like one two) (later : Option.Rel Like three four) :
    Option.Rel Like (one.or three) (two.or four) := by
  cases here with
  | some like => exact .some like
  | none => exact later

theorem rel_bind {γ δ : Type} {Next : γ → δ → Prop} {f : α → Option γ} {g : β → Option δ}
    (here : Option.Rel Like one two) (later : ∀ x y, Like x y → Option.Rel Next (f x) (g y)) :
    Option.Rel Next (one.bind f) (two.bind g) := by
  cases here with
  | some like => exact later _ _ like
  | none => exact .none

section

variable (alike : Option.Rel Like one two)
include alike

theorem rel_mono {Next : α → β → Prop} (larger : ∀ x y, one = some x → two = some y → Like x y → Next x y) :
    Option.Rel Next one two := by
  cases alike with
  | some like => exact .some (larger _ _ rfl rfl like)
  | none => exact .none

theorem isSome_of_rel : one.isSome = two.isSome := by
  cases alike <;> rfl

theorem map_eq_of_rel {γ : Type} {f : α → γ} {g : β → γ} (same : ∀ x y, Like x y → f x = g y) :
    one.map f = two.map g := by
  cases alike with
  | some like => exact congrArg some (same _ _ like)
  | none => rfl

end

theorem firstSuffix_rel {one : List NodeId → Option α} {two : List NodeId → Option β}
    (alike : ∀ suffix, suffix <:+ nodes → Option.Rel Like (one (suffix.map place)) (two suffix)) :
    Option.Rel Like (firstSuffix one (nodes.map place)) (firstSuffix two nodes) := by
  induction nodes with
  | nil => exact alike [] (suffix_refl _)
  | cons node rest ih =>
    have later := ih fun suffix part => alike suffix (part.trans (suffix_cons _ _))
    have cons {γ : Type} (run : List NodeId → Option γ) (node : NodeId) (rest : List NodeId) :
        firstSuffix run (node :: rest) = (run (node :: rest)).or (firstSuffix run rest) := by
      rw [firstSuffix]
      cases run (node :: rest) <;> rfl
    rw [map_cons, cons, cons]
    exact rel_or (alike _ (suffix_refl _)) later

theorem pick_rel {one : NodeId → Option α} {two : NodeId → Option β}
    (alike : ∀ node ∈ nodes, Option.Rel Like (one (place node)) (two node)) :
    Option.Rel (fun picked other => Like picked.1 other.1 ∧ picked.2 = other.2.map place ∧ other.2 ⊆ nodes)
      (pick one (nodes.map place)) (pick two nodes) := by
  induction nodes with
  | nil => exact .none
  | cons node rest ih =>
    have here := alike node (.head _)
    have later := ih fun other mem => alike other (.tail _ mem)
    rw [map_cons]
    unfold pick
    generalize one (place node) = success, two node = twin at here
    cases here with
    | some like => exact .some ⟨like, rfl, subset_cons_self _ _⟩
    | none =>
      generalize pick one (rest.map place) = picked, pick two rest = other at later
      cases later with
      | none => exact .none
      | some both => exact .some ⟨both.1, congrArg _ both.2.1, cons_subset_cons _ both.2.2⟩

/-- Two runs have found the same, and it is good. -/
def Same (Good : α → Prop) (found other : α) : Prop := found = other ∧ Good other

theorem rel_of_eq {Good : α → Prop} {run other : Option α} (same : run = other)
    (good : ∀ result, other = some result → Good result) : Option.Rel (Same Good) run other := by
  subst same
  cases run with
  | none => exact .none
  | some result => exact .some ⟨rfl, good result rfl⟩

theorem eq_of_rel {Good : α → Prop} {run other : Option α} (alike : Option.Rel (Same Good) run other) :
    run = other := by
  cases alike with
  | none => rfl
  | some same => rw [same.1]

end

end Tree

/-- The slots of two runs go in step, one over some nodes and the other over their places in another tree:
the same slots are variadic, and the others succeed at the same nodes. What the runs have found in front of
some slots is related by `Like` for these. -/
inductive Slots.Parallel (place : NodeId → NodeId) (first second : Tree) (nodes : List NodeId)
    (Like : Slots → Partial → Partial → Prop) : Slots → Slots → Prop
  | none : Parallel place first second nodes Like .none .none
  | slot {role twinRole : Option Role} {template twin : Template} {rest others : Slots}
      (same : twin.isVariadic = template.isVariadic)
      (skip : template.isVariadic = true → ∀ found other,
        Like (.some role template rest) found other → Like rest found other)
      (step : template.isVariadic = false → ∀ id ∈ nodes, ∀ found other,
        Like (.some role template rest) found other → Option.Rel (Like rest)
          (first.attempt (role, template) found (place id)) (second.attempt (twinRole, twin) other id))
      (later : Parallel place first second nodes Like rest others) :
      Parallel place first second nodes Like (.some role template rest) (.some twinRole twin others)

namespace Slots.Parallel

variable {nodes targets : List NodeId} {Like : Slots → Partial → Partial → Prop} {slots others : Slots}
  {other : Partial}

theorem eq_variadic (variadic : template.isVariadic = true) : template = .variadic := by
  cases template with
  | variadic => rfl
  | _ => cases variadic

theorem fitSequence (parallel : Parallel place first second nodes Like slots others)
    (among : targets ⊆ nodes) (like : Like slots found other) :
    Option.Rel (Like .none) (first.fitSequence slots (targets.map place) found)
      (second.fitSequence others targets other) := by
  induction parallel generalizing targets found other with
  | none =>
    rw [fitSequence, fitSequence, isEmpty_map]
    split
    · exact .some like
    · exact .none
  | @slot role twinRole template twin rest others same skip step _ ih =>
    cases variadic : template.isVariadic with
    | true =>
      have next := skip variadic _ _ like
      cases eq_variadic variadic
      cases eq_variadic (same.trans variadic)
      exact firstSuffix_rel fun suffix part => ih (fun _ inside => among (part.subset inside)) next
    | false =>
      cases targets with
      | nil =>
        rw [fitSequence.eq_def, fitSequence.eq_def]
        simp only [variadic, same, Bool.false_eq_true, if_false]
        exact .none
      | cons id targets =>
        rw [map_cons, fitSequence_next variadic, fitSequence_next (same.trans variadic)]
        refine rel_bind (step variadic id (among (.head _)) found other like) fun _ _ => ?_
        exact ih fun _ inside => among (.tail _ inside)

theorem fitSubset (parallel : Parallel place first second nodes Like slots others)
    (among : targets ⊆ nodes)
    (like : Like slots found other) : Option.Rel (Like .none) (first.fitSubset slots (targets.map place) found)
      (second.fitSubset others targets other) := by
  induction parallel generalizing targets found other with
  | none =>
    exact .some like
  | @slot role twinRole template twin rest others same skip step _ ih =>
    cases variadic : template.isVariadic with
    | true =>
      have next := skip variadic _ _ like
      cases eq_variadic variadic
      cases eq_variadic (same.trans variadic)
      exact ih among next
    | false =>
      rw [fitSubset_next variadic, fitSubset_next (same.trans variadic)]
      refine rel_bind (pick_rel fun id mem =>
        step variadic id (among mem) found other like) ?_
      rintro ⟨_, left⟩ ⟨_, _⟩ ⟨like, rfl, inside⟩
      exact ih (fun _ mem => among (inside mem)) like

theorem fit_node {id : NodeId}
    (parallel : Parallel place first second (second.codeChildren id) Like slots others)
    (sameKind : first.kind (place id) = second.kind id) (sameText : first.text (place id) = second.text id)
    (children : first.codeChildren (place id) = (second.codeChildren id).map place)
    (like : Like slots found other) (kind : Kind) (text : Option String) (anchored : Bool) :
    Option.Rel (Like .none) (first.fit (.node kind text anchored slots) (place id) found)
      (second.fit (.node kind text anchored others) id other) := by
  rw [fit, fit, sameKind, sameText, children]
  split
  · exact .none
  · split
    · exact parallel.fitSequence (Subset.refl _) like
    · exact parallel.fitSubset (Subset.refl _) like

end Slots.Parallel

end LeakTrace
