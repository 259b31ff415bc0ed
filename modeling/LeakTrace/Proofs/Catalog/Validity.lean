import LeakTrace.Proofs.Catalog.Holder
import LeakTrace.Proofs.Flow.Journal

namespace LeakTrace

open List ClassifiedNode

namespace ClassifiedNode

/-- The first node is the second one, or a node that it holds. -/
inductive Inside : ClassifiedNode → ClassifiedNode → Prop
  | self (node : ClassifiedNode) : Inside node node
  | property {classification : Classification} {properties : List ClassifiedNode}
      {inner property : ClassifiedNode} (mem : property ∈ properties) (inside : Inside inner property) :
      Inside inner (mk classification properties)

/-- The node and all that it holds are valid exactly where they tell of sensitive data. -/
def Faithful (node : ClassifiedNode) : Prop :=
  ∀ inner, Inside inner node → ∀ holder, inner.isValid = true ↔ inner.exposed holder ≠ []

variable {classification : Classification} {properties : List ClassifiedNode}

theorem faithful_mk (inside : ∀ property ∈ properties, property.Faithful)
    (top : classification.decision.isValid = true ↔
      (classification.decision.isValid = true ∧ classification.dataType ≠ none) ∨
        ∃ property ∈ properties, property.isValid = true) :
    (mk classification properties).Faithful := by
  intro inner within holder
  cases within with
  | self =>
    rw [exposed_ne_nil_iff]
    refine top.trans (or_congr_right (exists_congr fun property => and_congr_right fun mem => ?_))
    exact inside property mem property (.self _) _
  | property mem within => exact inside _ mem inner within holder

theorem faithful_leaf (sorted : classification.decision.isValid = true → classification.dataType ≠ none) :
    (leaf classification).Faithful :=
  faithful_mk (forall_mem_nil _) (by simpa using sorted)

end ClassifiedNode

namespace Classifier

variable {classifier : Classifier} {shapes : ShapeStore} {epoch depth : Nat} {name key : String}
  {shape : ShapeId} {subject : Subject}

/-- The node is the judgement of an object: it tells no sort of data by itself, and it is valid exactly if
one of its properties is. -/
structure Sums (node : ClassifiedNode) : Prop where
  unsorted : node.classification.dataType = none
  isValid : node.isValid = true ↔ ∃ property ∈ node.properties, property.isValid = true
  inside : ∀ property ∈ node.properties, property.Faithful

theorem Sums.faithful {node : ClassifiedNode} (sums : Sums node) : node.Faithful := by
  obtain ⟨unsorted, valid, inside⟩ := sums
  obtain ⟨classification, properties⟩ := node
  refine faithful_mk inside (valid.trans ?_)
  rw [show classification.dataType = none from unsorted]
  simp [ClassifiedNode.properties]

theorem faithful_property (name key : String) {nested : Option ClassifiedNode}
    (sums : ∀ object ∈ nested, Sums object) : (classifier.property name key nested).Faithful := by
  have sorted := classifier.isValid_ofName key { objectName := some name }
  unfold property
  generalize classifier.ofName key { objectName := some name } = found at sorted
  cases nested with
  | none =>
    refine faithful_leaf ?_
    split
    · exact sorted.1
    · simp [Classification.withDecision]
  | some object =>
    obtain ⟨_, valid, inside⟩ := sums object rfl
    refine faithful_mk inside ?_
    rw [← valid]
    cases known : found.decision.isValid with
    | true => simp [known, sorted.1 known]
    | false =>
      -- the name tells nothing, so that the decision is that of what the field holds
      have untold : found.dataType = none := by
        by_contra told
        cases known.symm.trans (sorted.2 told)
      cases object.isValid <;> simp [Classification.withDecision, untold]

theorem sums_ofObject (classifier : Classifier) (shapes : ShapeStore) (epoch depth : Nat) (name : String)
    (shape : ShapeId) (subject : Subject) :
    Sums (classifier.ofObject shapes epoch depth name shape subject) := by
  induction depth using Nat.strongRecOn generalizing name shape subject with | ind depth ih
  rw [ofObject_eq]
  split
  · refine ⟨rfl, ?_, fun property mem => ?_⟩
    · simp [isValid, classification, ClassifiedNode.properties,
        leaf, Classification.none]
    · obtain ⟨entry, _, rfl⟩ := mem_map.1 mem
      exact faithful_leaf (by simp [Classification.none])
  · refine ⟨rfl, ?_, fun property mem => ?_⟩
    · rw [isValid, assembled, classification, ClassifiedNode.properties,
        ← any_eq_true]
      repeat' split
      all_goals simp_all
    obtain ⟨entry, _, rfl⟩ := mem_map.1 mem
    refine faithful_property name entry.1 fun object found => ?_
    obtain ⟨⟨levels, _⟩, same⟩ := Option.ite_none_right_eq_some.1 found
    cases same
    exact ih (depth - 1) (by omega) _ _ _

theorem name_property (name key : String) (nested : Option ClassifiedNode) :
    (classifier.property name key nested).name = key := by
  have known := classifier.name_ofName key { objectName := some name }
  unfold property
  cases nested <;> dsimp only <;> repeat' split
  all_goals exact known

theorem names_ofObject (classifier : Classifier) (shapes : ShapeStore) (epoch depth : Nat) (name : String)
    (shape : ShapeId) (subject : Subject) :
    (classifier.ofObject shapes epoch depth name shape subject).properties.map ClassifiedNode.name =
      ((shapes.visibleFields shape epoch).map VisibleField.key).filterMap Key.name? := by
  have shown : (named shapes epoch shape).map Prod.fst =
      ((shapes.visibleFields shape epoch).map VisibleField.key).filterMap Key.name? := by
    rw [named, map_filterMap, filterMap_map]
    refine filterMap_congr fun field _ => ?_
    rw [Option.map_map]
    exact Option.map_id'
  rw [ofObject_eq, ← shown]
  split
  · rw [ClassifiedNode.properties, map_map]
    rfl
  · rw [assembled, ClassifiedNode.properties, map_map]
    exact map_congr_left fun entry _ => name_property name entry.1 _

/-- A judgement and every node in it are valid exactly where they tell of sensitive data. That of an object
has a node for every named field that has been written up to the epoch, in the order of the first writes. -/
theorem valid_where_exposed (classifier : Classifier) (shapes : ShapeStore) (epoch : Nat) (name : String)
    (shape : ShapeId) (subject : Subject) :
    let judged := classifier.ofShape shapes epoch name shape subject
    (∀ inner, Inside inner judged → (inner.isValid = true ↔ inner.exposed none ≠ [])) ∧
    ∀ object, shapes.get? shape = some object → object.isObject = true →
      judged.properties.map ClassifiedNode.name =
        ((object.history.filter fun write => write.epoch ≤ epoch).map Write.key).eraseDups.filterMap
          Key.name? := by
  intro judged
  refine ⟨fun inner inside => ?_, fun object found isObject => ?_⟩
  · have faithful : judged.Faithful := by
      have sorted := fun name => (classifier.isValid_ofName name subject).1
      change (classifier.ofShape shapes epoch name shape subject).Faithful
      unfold ofShape
      split
      · exact (sums_ofObject ..).faithful
      · exact faithful_leaf (sorted name)
      · refine faithful_leaf ?_
        unfold ofUnresolved
        split
        · exact sorted name
        · simp [Classification.none]
    exact faithful inner inside none
  · cases object with
    | object title writes =>
      have whole : judged = classifier.ofObject shapes epoch classifier.depth name shape subject := by
        rw [show judged = _ from ofShape.eq_def .., found]
      have shown : (shapes.visibleFields shape epoch).map VisibleField.key =
          Write.keys ((Shape.object title writes).history.filter fun write => write.epoch ≤ epoch) := by
        rw [ShapeStore.visibleFields, found, ← Write.map_key_lasts]
        exact (congrArg _ (Shape.visibleFields_eq_lasts ..)).trans map_map
      rw [whole, names_ofObject, shown]
      rfl
    | _ => cases isObject

/-- The object `user` holds itself as `next`, and it is valid for its field `email`. The field `phone` is
written after the epoch. -/
theorem valid_where_exposed_ring :
    let catalog := Catalog.anyName []
    let shapes : ShapeStore :=
      ⟨#[.object none [⟨.name "phone", 1, 7, 0⟩, ⟨.name "email", 1, 2, 0⟩, ⟨.name "next", 0, 1, 0⟩],
        .leaf (.string "x")]⟩
    let judged := (Classifier.mk catalog 2).ofShape shapes 5 "user" 0 {}
    judged.isValid = true ∧ judged.properties.map ClassifiedNode.name = ["next", "email"] ∧
      ∃ inner ∈ judged.properties, inner.name = "next" ∧
        (inner.isValid = true ↔ inner.exposed none ≠ []) := by
  intro catalog shapes judged
  obtain ⟨valid, names⟩ := valid_where_exposed (Classifier.mk catalog 2) shapes 5 "user" 0 {}
  have exposes : judged.exposed none ≠ [] :=
    (exposed_ofObject_iff rfl).2
      (.field (by decide +kernel) (mem_cons_of_mem _ mem_cons_self) rfl
        (Catalog.telling_email _))
  have shown : judged.properties.map ClassifiedNode.name = ["next", "email"] :=
    (names _ rfl rfl).trans (by decide +kernel)
  obtain ⟨inner, member, called⟩ := mem_map.1 (shown ▸ mem_cons_self : "next" ∈ _)
  refine ⟨(valid judged (.self _)).2 exposes, shown, inner, member, called, valid inner ?_⟩
  change Inside inner judged
  generalize judged = whole at member ⊢
  cases whole
  exact .property member (.self _)

end Classifier

end LeakTrace
