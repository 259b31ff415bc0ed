import LeakTrace.Proofs.Detection.Vendored

namespace LeakTrace

open List ClassifiedNode

variable {holder : Option String} {classification : Classification} {properties : List ClassifiedNode}

namespace ClassifiedNode

theorem exposed_ne_nil_iff :
    (mk classification properties).exposed holder ≠ [] ↔
      (classification.decision.isValid = true ∧ classification.dataType ≠ none) ∨
        ∃ property ∈ properties, property.exposed (some classification.name) ≠ [] := by
  obtain ⟨name, dataType, valid, reason⟩ := classification
  rw [exposed, exposedIn_eq, ne_eq, append_eq_nil_iff, not_and_or, flatMap_eq_nil_iff]
  cases valid <;> cases dataType <;> simp

end ClassifiedNode

namespace Catalog

/-- The name tells of sensitive data in an object that is called `object`: it fits an entry, and if it is
the name of an identifier, the object is a known one. -/
def Telling (catalog : Catalog) (object key : String) : Prop :=
  ∃ found, catalog.match? key = some found ∧
    (found.identifier = true → catalog.isKnownObject object = true)

/-- A catalog that takes every name for an address and every object for a known one. -/
def anyName (stopWords : List String) : Catalog where
  entries := [⟨⟨"Email Address", "email_address", "contact"⟩, [fun _ => true], [], false, true⟩]
  knownObjects := [fun _ => true]
  stopWords
  vendorDirectories := []
  fallbackOnUnresolved := true
  isIdentifier := fun _ => false

theorem telling_email (stopWords : List String) : (anyName stopWords).Telling "user" "email" :=
  ⟨_, rfl, fun _ => rfl⟩

end Catalog

namespace Classifier

variable {classifier : Classifier} {shapes : ShapeStore} {epoch depth : Nat} {name key : String}
  {shape : ShapeId} {subject : Subject}

/-- An object that is called `name` and looked into for so many levels tells of sensitive data: its name
is no stop word, and it shows a field whose name tells, or one that is such an object itself. -/
inductive Tells (classifier : Classifier) (shapes : ShapeStore) (epoch : Nat) :
    (depth : Nat) → (name : String) → ShapeId → Prop
  | field {depth : Nat} {name key : String} {shape : ShapeId} {field : VisibleField} :
      classifier.catalog.isStopWord name = false → field ∈ shapes.visibleFields shape epoch →
      field.key = .name key → classifier.catalog.Telling name key →
      Tells classifier shapes epoch depth name shape
  | inner {depth : Nat} {name key : String} {shape : ShapeId} {field : VisibleField} :
      classifier.catalog.isStopWord name = false → field ∈ shapes.visibleFields shape epoch →
      field.key = .name key → shapes.isObject field.shape = true → 0 < depth →
      Tells classifier shapes epoch depth key field.shape →
      Tells classifier shapes epoch (depth + 1) name shape

theorem mem_named {entry : String × ShapeId} :
    entry ∈ named shapes epoch shape ↔ ∃ field ∈ shapes.visibleFields shape epoch,
      field.key = .name entry.1 ∧ field.shape = entry.2 := by
  rw [named, mem_filterMap]
  refine exists_congr fun field => and_congr_right fun _ => ?_
  obtain ⟨fieldKey, inner, node⟩ := field
  obtain ⟨key, shape⟩ := entry
  cases fieldKey <;> simp [Key.name?]

theorem ofName_of_telling (kept : classifier.catalog.isStopWord name = false)
    (telling : classifier.catalog.Telling name key) :
    ∃ dataType reason, classifier.ofName key { objectName := some name } = .some key dataType reason := by
  obtain ⟨found, fits, known⟩ := telling
  rw [ofName, gate?, Option.any_some, kept, fits]
  dsimp only
  cases plain : found.identifier with
  | false => exact ⟨_, _, rfl⟩
  | true =>
    rw [Option.any_some, known plain]
    exact ⟨_, _, rfl⟩

theorem ofName_of_not_telling (kept : classifier.catalog.isStopWord name = false)
    (silent : ¬classifier.catalog.Telling name key) :
    classifier.ofName key { objectName := some name } = .none key .noDetectablePattern := by
  rw [ofName, gate?, Option.any_some, kept]
  cases fits : classifier.catalog.match? key with
  | none => rfl
  | some found =>
    have identifier : found.identifier = true := by
      refine Bool.of_not_eq_false fun plain => silent ⟨found, fits, fun identifier => ?_⟩
      rw [plain] at identifier
      cases identifier
    have unknown : classifier.catalog.isKnownObject name = false :=
      Bool.of_not_eq_true fun known => silent ⟨found, fits, fun _ => known⟩
    simp [identifier, unknown]

/-- A field tells of what its name tells, whatever becomes of the decision about it, and then of what it
holds as an object. -/
theorem exposed_property_eq (name key : String) (nested : Option ClassifiedNode) :
    (classifier.property name key nested).exposed holder =
      (leaf (classifier.ofName key { objectName := some name })).exposed holder ++
        nested.toList.flatMap fun object => exposedIn (some key) object.properties := by
  have sorted := classifier.isValid_ofName key { objectName := some name }
  have called := classifier.name_ofName key { objectName := some name }
  unfold property
  generalize classifier.ofName key { objectName := some name } = found at sorted called
  obtain ⟨title, dataType, valid, reason⟩ := found
  cases called
  cases valid with
  | true => cases nested <;> simp [leaf, exposed, exposedIn]
  | false =>
    -- the decision may be turned, but there is no sort of data to report with it
    obtain rfl : dataType = none := by simpa using sorted
    cases nested with
    | none => simp [leaf, exposed, Classification.withDecision]
    | some object =>
      cases decided : object.isValid <;>
        simp [decided, leaf, exposed, exposedIn,
          Classification.withDecision]

theorem exposed_ofObject_eq (classifier : Classifier) (shapes : ShapeStore) (epoch depth : Nat)
    (name : String) (shape : ShapeId) (subject : Subject) (holder : Option String) :
    (classifier.ofObject shapes epoch depth name shape subject).exposed holder =
      exposedIn (some name)
        (classifier.ofObject shapes epoch depth name shape subject).properties := by
  rw [ofObject_eq]
  cases classifier.objectGate? name subject <;>
    simp [assembled, exposed, Classification.none, properties]

theorem exposed_property (kept : classifier.catalog.isStopWord name = false)
    (nested : Option ClassifiedNode) :
    (classifier.property name key nested).exposed holder ≠ [] ↔
      classifier.catalog.Telling name key ∨
        ∃ object ∈ nested, ∃ inner ∈ object.properties, inner.exposed (some key) ≠ [] := by
  rw [exposed_property_eq, ne_eq, append_eq_nil_iff, not_and_or]
  refine or_congr ?_ (by simp [exposedIn_eq])
  by_cases telling : classifier.catalog.Telling name key
  · obtain ⟨dataType, reason, judged⟩ := ofName_of_telling kept telling
    simp [judged, telling, Classification.some, leaf, exposed]
  · simp [ofName_of_not_telling kept telling, telling, Classification.none, leaf,
      exposed, exposedIn]

theorem exposed_ofObject_properties (classifier : Classifier) (shapes : ShapeStore)
    (epoch depth : Nat) (name : String) (shape : ShapeId) (subject : Subject) (holder : Option String) :
    (classifier.ofObject shapes epoch depth name shape subject).exposed holder ≠ [] ↔
      ∃ inner ∈ (classifier.ofObject shapes epoch depth name shape subject).properties,
        inner.exposed (some name) ≠ [] := by
  simp [exposed_ofObject_eq, exposedIn_eq]

/-- Judging an object comes to sensitive data exactly if the object tells of it. -/
theorem exposed_ofObject_iff (free : subject.vendored = false) :
    (classifier.ofObject shapes epoch depth name shape subject).exposed holder ≠ [] ↔
      Tells classifier shapes epoch depth name shape := by
  induction depth using Nat.strongRecOn generalizing name shape subject holder with | ind depth ih
  cases stop : classifier.catalog.isStopWord name with
  | true =>
    have gated : classifier.objectGate? name subject = some .stopWord := by
      rw [objectGate?, free, stop]
      rfl
    refine iff_of_false (fun exposes => exposes (silent_ofObject gated _ _ _ _ holder)) fun tells => ?_
    cases tells with
    | field kept => cases stop.symm.trans kept
    | inner kept => cases stop.symm.trans kept
  | false =>
    have judged : (classifier.ofObject shapes epoch depth name shape subject).properties =
        (named shapes epoch shape).map fun entry => classifier.property name entry.1
          (classifier.nested? shapes epoch depth entry.1 entry.2) := by
      rw [ofObject_eq, objectGate?, free, stop]
      rfl
    rw [exposed_ofObject_properties, judged]
    simp only [mem_map, exists_exists_and_eq_and, exposed_property stop]
    constructor
    · rintro ⟨⟨key, inner⟩, mem, telling | ⟨object, found, exposes⟩⟩
      · obtain ⟨field, visible, atKey, _⟩ := mem_named.1 mem
        exact .field stop visible atKey telling
      obtain ⟨field, visible, atKey, rfl⟩ := mem_named.1 mem
      obtain ⟨⟨levels, isObject⟩, same⟩ := Option.ite_none_right_eq_some.1 found
      cases same
      obtain ⟨depth, rfl⟩ : ∃ less, depth = less + 1 := ⟨depth - 1, by omega⟩
      refine .inner stop visible atKey isObject (by omega) ?_
      rw [← exposed_ofObject_properties _ _ _ _ _ _ _ none] at exposes
      exact (ih depth (Nat.lt_succ_self _) rfl).1 exposes
    · intro tells
      cases tells with
      | @field _ _ key _ field _ visible atKey telling =>
        exact ⟨(key, field.shape), mem_named.2 ⟨field, visible, atKey, rfl⟩, .inl telling⟩
      | @inner depth _ key _ field _ visible atKey isObject levels tells =>
        refine ⟨(key, field.shape), mem_named.2 ⟨field, visible, atKey, rfl⟩,
          .inr ⟨_, if_pos ⟨by omega, isObject⟩, ?_⟩⟩
        rw [← exposed_ofObject_properties _ _ _ _ _ _ _ none]
        exact (ih depth (Nat.lt_succ_self _) rfl).2 tells

theorem gate?_of_stopWord {word : String} (held : subject.objectName = some word)
    (stop : classifier.catalog.isStopWord word = true) :
    ∃ reason, classifier.gate? subject = some reason := by
  rw [gate?, held, Option.any_some, stop]
  cases subject.vendored <;> exact ⟨_, rfl⟩

/-- What a value tells of that is held by an object with a stop word for its name. A plain value or one
of which nothing is known tells of nothing. An object is judged as if nobody held it: the name of the
holder is not looked at, so that it tells of sensitive data unless the file is vendored, its own name is a
stop word, or no field of it tells. -/
theorem held_by_stop_word {word : String} (held : subject.objectName = some word)
    (stop : classifier.catalog.isStopWord word = true) :
    ((classifier.ofShape shapes epoch name shape subject).exposed none ≠ [] ↔
      shapes.isObject shape = true ∧ subject.vendored = false ∧
        Tells classifier shapes epoch classifier.depth name shape) ∧
    (shapes.isObject shape = true → classifier.ofShape shapes epoch name shape subject =
      classifier.ofShape shapes epoch name shape { subject with objectName := none }) := by
  obtain ⟨reason, gated⟩ := gate?_of_stopWord held stop
  rw [ofShape, ofShape, ShapeStore.isObject]
  cases shapes.get? shape with
  | none =>
    have silent := silent_ofUnresolved gated name none
    exact ⟨iff_of_false (fun exposes => exposes silent) (by simp), by simp⟩
  | some value =>
    cases value with
    | leaf literal =>
      have silent := silent_ofName gated name none
      exact ⟨iff_of_false (fun exposes => exposes silent) (by simp [Shape.isObject]),
        by simp [Shape.isObject]⟩
    | unknown origin =>
      have silent := silent_ofUnresolved gated name none
      exact ⟨iff_of_false (fun exposes => exposes silent) (by simp [Shape.isObject]),
        by simp [Shape.isObject]⟩
    | object title writes =>
      refine ⟨?_, fun _ => by rw [ofObject_eq, ofObject_eq]; rfl⟩
      cases vendored : subject.vendored with
      | true =>
        have gated : classifier.objectGate? name subject = _ := objectGate?_of_vendored vendored name
        exact iff_of_false (fun exposes => exposes (silent_ofObject gated _ _ _ _ none)) (by simp)
      | false => simp [exposed_ofObject_iff vendored, Shape.isObject]

/-- The object `user` is held by `props`, a stop word, and is reported for its field `email`. -/
theorem user_held_by_props :
    let catalog := Catalog.anyName ["props"]
    let shapes : ShapeStore := ⟨#[.object none [⟨.name "email", 1, 1, 0⟩], .leaf (.string "x")]⟩
    catalog.isStopWord "props" = true ∧
      ((Classifier.mk catalog 3).ofShape shapes 1 "user" 0 { objectName := some "props" }).exposed none
        ≠ [] := by
  intro catalog shapes
  have stop : catalog.isStopWord "props" = true := by decide +kernel
  refine ⟨stop, (held_by_stop_word rfl stop).1.2 ⟨rfl, rfl, ?_⟩⟩
  exact .field (by decide +kernel) (mem_cons_self) rfl (Catalog.telling_email _)

end Classifier

end LeakTrace
