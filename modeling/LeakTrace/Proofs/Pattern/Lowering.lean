import LeakTrace.Pattern.Compile
import Mathlib.Data.List.Nodup

namespace LeakTrace

open List Template

variable {name : String} {names more : List String}

mutual

/-- The names under which a template captures nodes, as often as they occur. -/
def Template.captureNames : Template → List String
  | .node _ _ _ children => children.captureNames
  | .capture name _ => [name]
  | .wildcard => []
  | .variadic => []
  | .either first second => first.captureNames ++ second.captureNames
  | .focus inner => inner.captureNames

def Slots.captureNames : Slots → List String
  | .none => []
  | .some _ template rest => template.captureNames ++ rest.captureNames

end

namespace Placeholder

theorem mem_note {other : String} : other ∈ note names name ↔ other ∈ names ∨ other = name := by
  unfold note
  split <;> simp_all

theorem mem_foldl_note : name ∈ more.foldl note names ↔ name ∈ names ∨ name ∈ more := by
  induction more generalizing names with
  | nil => simp
  | cons other more ih => rw [foldl_cons, ih, mem_note, mem_cons, or_assoc]

theorem nodup_foldl_note (distinct : names.Nodup) (more : List String) :
    (more.foldl note names).Nodup := by
  induction more generalizing names with
  | nil => exact distinct
  | cons name more ih =>
    refine ih ?_
    unfold note
    split
    · exact distinct
    · rename_i fresh
      rw [← concat_eq_append, nodup_concat]
      exact ⟨fun known => fresh (contains_iff_mem.2 known), distinct⟩

theorem foldl_note_of_subset (known : more ⊆ names) : more.foldl note names = names := by
  induction more with
  | nil => rfl
  | cons name more ih =>
    obtain ⟨here, later⟩ := cons_subset.1 known
    rw [foldl_cons, note, if_pos (contains_iff_mem.2 here), ih later]

/-- Lowering one thing after the other collects the names of all. -/
theorem mapM_note {α β : Type} {f : α → StateM (List String) β} {g : α → β} {h : β → List String}
    (each : ∀ input names, f input names = (g input, (h (g input)).foldl note names)) (inputs : List α)
    (names : List String) :
    inputs.mapM f names = (inputs.map g, ((inputs.map g).flatMap h).foldl note names) := by
  induction inputs generalizing names with
  | nil => rfl
  | cons input rest ih =>
    rw [mapM_cons, map_cons, flatMap_cons, foldl_append]
    simp only [bind, StateT.bind, each, ih]
    rfl

theorem lower_eq (placeholder : Placeholder) (names : List String) :
    placeholder.lower names = (placeholder.template, placeholder.template.captureNames.foldl note names) := by
  cases placeholder <;> rfl

end Placeholder

open Placeholder (note)

theorem Slots.captureNames_ofList (children : List (Option Role × Template)) :
    (ofList children).captureNames = children.flatMap fun child => child.2.captureNames := by
  induction children with
  | nil => rfl
  | cons child rest ih => rw [ofList, captureNames, ih, flatMap_cons]

namespace Stencil

section

variable (stencil : Stencil)

/-- The template of a node whose children have these templates. -/
def assemble (id : NodeId) (children : List (Option Role × Template)) : Template :=
  match stencil.tree.kind id with
  | .pair =>
    match stencil.pairPlaceholder? id with
    | some placeholder => placeholder.template
    | none => stencil.concrete id children
  | .member => stencil.access id children
  | .identifier =>
    if stencil.tree.role id == some .key then stencil.fieldName id else stencil.concrete id children
  | _ => stencil.concrete id children

/-- The template that a node is lowered to, whatever was captured before. -/
def template (id : NodeId) : Template :=
  stencil.focused id <|
    match stencil.placeholder? id with
    | some placeholder => placeholder.template
    | none => stencil.assemble id <|
      (stencil.tree.codeChildren id).attach.map fun child =>
        (stencil.tree.role child.1, template child.1)
termination_by id
decreasing_by exact Tree.lt_of_mem_codeChildren child.2

end

variable {stencil : Stencil} {id : NodeId} {placeholder : Placeholder}

theorem captureNames_focused (template : Template) :
    (stencil.focused id template).captureNames = template.captureNames := by
  unfold focused
  split
  · rfl
  · rfl

/-- The templates of a node's children, with the parts that they play. -/
def parts (stencil : Stencil) (id : NodeId) : List (Option Role × Template) :=
  (stencil.tree.codeChildren id).map fun child => (stencil.tree.role child, stencil.template child)

theorem template_of_some (stands : stencil.placeholder? id = some placeholder) :
    stencil.template id = stencil.focused id placeholder.template := by
  rw [template, stands]

theorem template_of_none (stands : stencil.placeholder? id = none) :
    stencil.template id = stencil.focused id (stencil.assemble id (stencil.parts id)) := by
  have children : ((stencil.tree.codeChildren id).attach.map fun child =>
      (stencil.tree.role child.1, stencil.template child.1)) = stencil.parts id :=
    attach_map_val (f := fun child => (stencil.tree.role child, stencil.template child))
  rw [template, stands, ← children]

theorem mem_captureNames_subscript {children : List (Option Role × Template)} {property : String} :
    name ∈ (subscript children property).captureNames ↔
      ∃ child, children.find? (fun child => child.1 == some Role.object) = some child ∧
        name ∈ child.2.captureNames := by
  rw [subscript, captureNames, Slots.captureNames_ofList]
  cases children.find? (fun child => child.1 == some Role.object) with
  | none => simp [captureNames, leaf, Slots.captureNames]
  | some child => simp [captureNames, leaf, Slots.captureNames]

theorem value_of_pairPlaceholder? (found : stencil.pairPlaceholder? id = some placeholder) :
    ∃ value, stencil.tree.child? id .value = some value ∧
      stencil.placeholder? value = some placeholder := by
  obtain ⟨key, _, found⟩ := Option.bind_eq_some_iff.1 found
  obtain ⟨value, isValue, found⟩ := Option.bind_eq_some_iff.1 found
  obtain ⟨_, _, found⟩ := Option.bind_eq_some_iff.1 found
  obtain ⟨_, _, found⟩ := Option.bind_eq_some_iff.1 found
  exact ⟨value, isValue, found⟩

/-- What the template of a node can be, given those of its children. -/
inductive Assembled (stencil : Stencil) (id : NodeId) (children : List (Option Role × Template)) :
    Template → Prop
  | pair {placeholder : Placeholder} (isPair : stencil.tree.kind id = .pair)
      (found : stencil.pairPlaceholder? id = some placeholder) :
      Assembled stencil id children placeholder.template
  | plain (text : Option String) (anchored : Bool)
      (pair : stencil.tree.kind id = .pair → stencil.pairPlaceholder? id = none)
      (key : stencil.tree.kind id = .identifier → stencil.tree.role id ≠ some .key) :
      Assembled stencil id children (.node (stencil.tree.kind id) text anchored (.ofList children))
  | access {property : String} (isMember : stencil.tree.kind id = .member)
      (found : stencil.property? id = some property) :
      Assembled stencil id children
        (.either (.node .member none true (.ofList children)) (subscript children property))
  | key (text : Option String) (isIdentifier : stencil.tree.kind id = .identifier)
      (isKey : stencil.tree.role id = some .key) :
      Assembled stencil id children (.either (.leaf .identifier text) (.leaf .string text))

theorem assembled_assemble (stencil : Stencil) (id : NodeId) (children : List (Option Role × Template)) :
    stencil.Assembled id children (stencil.assemble id children) := by
  simp only [assemble, access, concrete, fieldName]
  split
  · split
    · exact .pair (by assumption) (by assumption)
    · exact .plain _ _ (by simp_all) (by simp_all)
  · rename_i isMember
    split
    · rw [isMember]
      exact .access isMember (by assumption)
    · exact .plain _ _ (by simp_all) (by simp_all)
  · split
    · exact .key _ (by assumption) (by simp_all)
    · exact .plain _ _ (by simp_all) (by simp_all)
  · exact .plain _ _ (by simp_all) (by simp_all)

theorem captureNames_concrete (children : List (Option Role × Template)) :
    (stencil.concrete id children).captureNames = children.flatMap fun child => child.2.captureNames := by
  rw [concrete, captureNames, Slots.captureNames_ofList]

/-- The subscript form of a property has no names of its own. -/
theorem foldl_access (children : List (Option Role × Template)) (names : List String) :
    (stencil.access id children).captureNames.foldl note names =
      (children.flatMap fun child => child.2.captureNames).foldl note names := by
  unfold access
  split
  · rw [captureNames, foldl_append, captureNames_concrete]
    refine Placeholder.foldl_note_of_subset fun name mem => ?_
    obtain ⟨child, found, inside⟩ := mem_captureNames_subscript.1 mem
    exact Placeholder.mem_foldl_note.2 (.inr (mem_flatMap.2 ⟨child, mem_of_find?_eq_some found, inside⟩))
  · rw [captureNames_concrete]

/-- Lowering gives the template, and adds the names in it to those captured before. -/
theorem lower_eq (stencil : Stencil) (id : NodeId) (names : List String) :
    stencil.lower id names = (stencil.template id, (stencil.template id).captureNames.foldl note names) := by
  induction id using Nat.strongRecOn generalizing names with | ind id ih
  have stand (placeholder : Placeholder) : (stencil.focused id <$> placeholder.lower) names =
      (stencil.focused id placeholder.template, placeholder.template.captureNames.foldl note names) := by
    simp only [Functor.map, StateT.map, placeholder.lower_eq]
    rfl
  rw [lower]
  simp only [bind_pure_comp]
  cases stands : stencil.placeholder? id with
  | some placeholder =>
    rw [template_of_some stands, captureNames_focused]
    exact stand placeholder
  | none =>
    have each (child : {child // child ∈ stencil.tree.codeChildren id}) (names : List String) :
        ((stencil.tree.role child.1, ·) <$> stencil.lower child.1) names =
          ((stencil.tree.role child.1, stencil.template child.1),
            (stencil.template child.1).captureNames.foldl note names) := by
      simp only [Functor.map, StateT.map, ih child.1 (Tree.lt_of_mem_codeChildren child.2)]
      rfl
    have children := Placeholder.mapM_note (h := fun part : Option Role × Template => part.2.captureNames)
      each (stencil.tree.codeChildren id).attach names
    rw [attach_map_val (f := fun child => (stencil.tree.role child, stencil.template child)),
      ← parts] at children
    generalize (stencil.tree.codeChildren id).attach.mapM (m := StateM (List String)) _ = read at children ⊢
    have build (f : List (Option Role × Template) → Template) : (stencil.focused id <$> f <$> read) names =
        (stencil.focused id (f (stencil.parts id)),
          ((stencil.parts id).flatMap fun part => part.2.captureNames).foldl note names) := by
      simp only [Functor.map, StateT.map, children]
      rfl
    have plain := build (stencil.concrete id)
    rw [← captureNames_concrete] at plain
    rw [template_of_none stands, captureNames_focused, assemble]
    cases stencil.tree.kind id with
    | pair =>
      cases stencil.pairPlaceholder? id with
      | some placeholder => exact stand placeholder
      | none => exact plain
    | member =>
      rw [foldl_access]
      exact build (stencil.access id)
    | identifier =>
      by_cases key : (stencil.tree.role id == some Role.key) = true
      · simp only [key, if_true]
        rfl
      · simp only [key]
        exact plain
    | _ => exact plain

end Stencil

end LeakTrace
