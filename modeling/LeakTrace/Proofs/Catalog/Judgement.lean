import LeakTrace.Catalog.Classify

namespace LeakTrace

open List

namespace Classifier

/-- The fields that an object shows under a name. -/
def named (shapes : ShapeStore) (epoch : Nat) (shape : ShapeId) : List (String × ShapeId) :=
  (shapes.visibleFields shape epoch).filterMap fun field =>
    field.key.name?.map fun key => (key, field.shape)

section

variable (classifier : Classifier)

/-- Judges a field of the object `name`, given the judgement of it as an object. -/
def property (name key : String) (nested : Option ClassifiedNode) : ClassifiedNode :=
  let found := classifier.ofName key { objectName := some name }
  let found := if found.decision.isValid then found else found.withDecision false .invalidProperty
  match nested with
  | none => .leaf found
  | some nested =>
    .mk (if nested.isValid && !found.decision.isValid then
      found.withDecision true .validObjectWithValidProperties else found) nested.properties

/-- An object whose properties are judged. -/
def assembled (name : String) (properties : List ClassifiedNode) : ClassifiedNode :=
  let decision : Decision := if properties.any (·.isValid) then
      { isValid := true, reason := .validObjectWithValidProperties }
    else if classifier.catalog.isKnownObject name then
      { isValid := false, reason := .validObjectWithInvalidProperties }
    else { isValid := false, reason := .noDetectablePattern }
  .mk { name, dataType := none, decision } properties

/-- The judgement of a field as an object, if it is one and levels are left. -/
def nested? (shapes : ShapeStore) (epoch depth : Nat) (key : String) (shape : ShapeId) :
    Option ClassifiedNode :=
  if 1 < depth ∧ shapes.isObject shape = true then
    some (classifier.ofObject shapes epoch (depth - 1) key shape {})
  else none

end

section

variable (classifier : Classifier) {epoch : Nat} {shape : ShapeId}

theorem ofObject_eq (shapes : ShapeStore) (epoch depth : Nat) (name : String) (shape : ShapeId)
    (subject : Subject) :
    classifier.ofObject shapes epoch depth name shape subject =
      match classifier.objectGate? name subject with
      | some reason => .mk (.none name reason) ((named shapes epoch shape).map fun entry =>
        .leaf (.none entry.1 .belongsToInvalidObject))
      | none => classifier.assembled name ((named shapes epoch shape).map fun entry =>
        classifier.property name entry.1
          (classifier.nested? shapes epoch depth entry.1 entry.2)) := by
  rw [ofObject]
  cases classifier.objectGate? name subject with
  | some reason => rfl
  | none =>
    refine congrArg (classifier.assembled name) (map_congr_left fun entry _ => ?_)
    match depth with
    | 0 | 1 => rfl
    | depth + 2 =>
      by_cases object : shapes.isObject entry.2 = true
      · rw [nested?, if_pos ⟨by omega, object⟩]
        exact if_pos object
      · rw [nested?, if_neg fun both => object both.2]
        exact if_neg object

theorem isValid_ofName (name : String) (subject : Subject) :
    (classifier.ofName name subject).decision.isValid = true ↔
      (classifier.ofName name subject).dataType ≠ none := by
  unfold ofName
  repeat' split
  all_goals simp [Classification.none, Classification.some]

theorem name_ofName (name : String) (subject : Subject) :
    (classifier.ofName name subject).name = name := by
  unfold ofName
  repeat' split
  all_goals rfl

/-- Judging an object looks at the fields that it shows, at which of them are objects, and at theirs. -/
theorem ofObject_congr {first second : ShapeStore} {Read : ShapeId → Prop}
    (fields : ∀ shape, Read shape → second.visibleFields shape epoch = first.visibleFields shape epoch)
    (objects : ∀ shape, Read shape → second.isObject shape = first.isObject shape)
    (closed : ∀ shape, Read shape → ∀ field ∈ first.visibleFields shape epoch, Read field.shape) (depth : Nat)
    (name : String) (subject : Subject) (read : Read shape) :
    classifier.ofObject second epoch depth name shape subject =
      classifier.ofObject first epoch depth name shape subject := by
  induction depth using Nat.strongRecOn generalizing name shape subject with | ind depth ih
  have shown : named second epoch shape = named first epoch shape := by
    rw [named, named, fields shape read]
  have inside : ∀ entry ∈ named first epoch shape, Read entry.2 := by
    intro entry mem
    obtain ⟨field, among, keyed⟩ := mem_filterMap.1 mem
    obtain ⟨key, _, rfl⟩ := Option.map_eq_some_iff.1 keyed
    exact closed shape read field among
  have properties : ((named first epoch shape).map fun entry => classifier.property name entry.1
        (classifier.nested? second epoch depth entry.1 entry.2)) =
      (named first epoch shape).map fun entry => classifier.property name entry.1
        (classifier.nested? first epoch depth entry.1 entry.2) := by
    refine map_congr_left fun entry mem => ?_
    have read := inside entry mem
    rw [nested?, nested?, objects entry.2 read]
    split
    · rename_i level
      rw [ih (depth - 1) (by omega) entry.1 {} read]
    · rfl
  rw [ofObject_eq, ofObject_eq, shown, properties]

theorem exposed_ofObject {shapes : ShapeStore} (hidden : shapes.visibleFields shape epoch = [])
    (depth : Nat) (name : String) (subject : Subject) (holder : Option String) :
    (classifier.ofObject shapes epoch depth name shape subject).exposed holder = [] := by
  rw [ofObject, hidden]
  split
  · rfl
  · simp only [filterMap_nil, map_nil, any_nil, Bool.false_eq_true, if_false]
    split <;> rfl

end

end Classifier

end LeakTrace
