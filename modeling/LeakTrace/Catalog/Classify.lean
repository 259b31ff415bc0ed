import LeakTrace.Catalog.Basic
import LeakTrace.Flow.Shape

namespace LeakTrace

inductive Reason where
  | knownPattern
  | knownDatabaseIdentifier
  | validObjectWithValidProperties
  | validObjectWithInvalidProperties
  | noDetectablePattern
  | invalidProperty
  | belongsToInvalidObject
  | stopWord
  | includedInVendorFolder
  deriving DecidableEq, Inhabited

namespace Reason

def name : Reason → String
  | knownPattern => "known_pattern"
  | knownDatabaseIdentifier => "known_database_identifier"
  | validObjectWithValidProperties => "valid_object_with_valid_properties"
  | validObjectWithInvalidProperties => "valid_object_with_invalid_properties"
  | noDetectablePattern => "no_detectable_pattern"
  | invalidProperty => "invalid_property"
  | belongsToInvalidObject => "belongs_to_invalid_object"
  | stopWord => "stop_word"
  | includedInVendorFolder => "included_in_vendor_folder"

def all : List Reason :=
  [knownPattern, knownDatabaseIdentifier, validObjectWithValidProperties,
    validObjectWithInvalidProperties, noDetectablePattern, invalidProperty, belongsToInvalidObject,
    stopWord, includedInVendorFolder]

def ofName? (name : String) : Option Reason := all.find? fun reason => reason.name == name

end Reason

structure Decision where
  isValid : Bool
  reason : Reason
  deriving DecidableEq, Inhabited

structure Classification where
  name : String
  dataType : Option DataType
  decision : Decision
  deriving DecidableEq, Inhabited

namespace Classification

def none (name : String) (reason : Reason) : Classification :=
  { name, dataType := Option.none, decision := { isValid := false, reason } }

def some (name : String) (dataType : DataType) (reason : Reason) : Classification :=
  { name, dataType := Option.some dataType, decision := { isValid := true, reason } }

def withDecision (classification : Classification) (isValid : Bool) (reason : Reason) :
    Classification :=
  { classification with decision := { isValid, reason } }

end Classification

/-- A judged name with the properties that it holds. -/
inductive ClassifiedNode where
  | mk (classification : Classification) (properties : List ClassifiedNode)

instance : Inhabited ClassifiedNode := ⟨.mk default []⟩

namespace ClassifiedNode

def classification : ClassifiedNode → Classification
  | mk classification _ => classification

def properties : ClassifiedNode → List ClassifiedNode
  | mk _ properties => properties

def leaf (classification : Classification) : ClassifiedNode := mk classification []

def name (node : ClassifiedNode) : String := node.classification.name

def isValid (node : ClassifiedNode) : Bool := node.classification.decision.isValid

mutual

/-- The sensitive data in a node, from top to bottom, each with the name of what holds it. -/
def exposed (holder : Option String) : ClassifiedNode → List (Option String × Classification × DataType)
  | mk classification properties =>
    let here := match classification.decision.isValid, classification.dataType with
      | true, some dataType => [(holder, classification, dataType)]
      | _, _ => []
    here ++ exposedIn (some classification.name) properties

def exposedIn (holder : Option String) :
    List ClassifiedNode → List (Option String × Classification × DataType)
  | [] => []
  | node :: rest => exposed holder node ++ exposedIn holder rest

end

end ClassifiedNode

structure Subject where
  objectName : Option String := none
  vendored : Bool := false
  deriving DecidableEq, Inhabited

/-- A catalog, and how many levels of properties are looked at. -/
structure Classifier where
  catalog : Catalog
  depth : Nat
  deriving Inhabited

namespace Classifier

/-- At least one level of properties is looked at. -/
def ofCatalog (catalog : Catalog) (depth : Nat) : Classifier := { catalog, depth := max depth 1 }

variable (classifier : Classifier)

/-- Why all that the subject holds is passed over, if it is. -/
def gate? (subject : Subject) : Option Reason :=
  if subject.vendored then some .includedInVendorFolder
  else if subject.objectName.any classifier.catalog.isStopWord then some .belongsToInvalidObject
  else none

def ofName (name : String) (subject : Subject) : Classification :=
  match classifier.gate? subject with
  | some reason => .none name reason
  | none =>
    match classifier.catalog.match? name with
    | some found =>
      if !found.identifier then .some name found.dataType .knownPattern
      else if subject.objectName.any classifier.catalog.isKnownObject then
        .some name found.dataType .knownDatabaseIdentifier
      else .none name .noDetectablePattern
    | none => .none name .noDetectablePattern

def ofUnresolved (name : String) (subject : Subject) : Classification :=
  if classifier.catalog.fallbackOnUnresolved then classifier.ofName name subject
  else .none name .noDetectablePattern

/-- Why the properties of an object are passed over, if they are. -/
def objectGate? (name : String) (subject : Subject) : Option Reason :=
  if subject.vendored then some .includedInVendorFolder
  else if classifier.catalog.isStopWord name then some .stopWord
  else none

/-- Judges an object by the properties it shows at `epoch`. Properties that are objects themselves
are looked into while levels are left. -/
def ofObject (shapes : ShapeStore) (epoch : Nat) :
    (depth : Nat) → (name : String) → ShapeId → Subject → ClassifiedNode
  | depth, name, shape, subject =>
    let named := (shapes.visibleFields shape epoch).filterMap fun field =>
      field.key.name?.map fun key => (key, field.shape)
    match classifier.objectGate? name subject with
    | some reason =>
      .mk (.none name reason) (named.map fun (key, _) => .leaf (.none key .belongsToInvalidObject))
    | none =>
      let property (key : String) (shape : ShapeId) : ClassifiedNode :=
        let found := classifier.ofName key { objectName := some name }
        let found := if found.decision.isValid then found
          else found.withDecision false .invalidProperty
        match depth with
        | 0 | 1 => .leaf found
        | depth + 1 =>
          if shapes.isObject shape then
            let nested := ofObject shapes epoch depth key shape {}
            let found := if nested.isValid && !found.decision.isValid then
                found.withDecision true .validObjectWithValidProperties
              else found
            .mk found nested.properties
          else .leaf found
      let properties := named.map fun (key, shape) => property key shape
      let decision : Decision := if properties.any (·.isValid) then
          { isValid := true, reason := .validObjectWithValidProperties }
        else if classifier.catalog.isKnownObject name then
          { isValid := false, reason := .validObjectWithInvalidProperties }
        else { isValid := false, reason := .noDetectablePattern }
      .mk { name, dataType := none, decision } properties

def ofShape (shapes : ShapeStore) (epoch : Nat) (name : String) (shape : ShapeId) (subject : Subject) :
    ClassifiedNode :=
  match shapes.get? shape with
  | some (.object _ _) => classifier.ofObject shapes epoch classifier.depth name shape subject
  | some (.leaf _) => .leaf (classifier.ofName name subject)
  | _ => .leaf (classifier.ofUnresolved name subject)

end Classifier

end LeakTrace
