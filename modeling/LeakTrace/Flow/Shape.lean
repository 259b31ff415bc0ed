import LeakTrace.Tree.Basic

namespace LeakTrace

abbrev ShapeId := Nat

inductive Literal where
  | string (value : String)
  | number (text : String)
  | boolean (value : Bool)
  | null
  deriving DecidableEq, Inhabited

/-- How a part of a value is reached: by name, or by position. -/
inductive Key where
  | name (name : String)
  | element (position : Nat)
  deriving DecidableEq, Inhabited

namespace Key

def name? : Key → Option String
  | .name label => some label
  | .element _ => none

end Key

inductive Origin where
  | undeclared | callResult | parameter | function | expression | malformed
  deriving DecidableEq, Inhabited

/-- One assignment to a field: what was written, when, and by which node. -/
structure Write where
  key : Key
  shape : ShapeId
  epoch : Nat
  node : NodeId
  deriving DecidableEq, Inhabited

/-- What is known of a value. The writes of an object stand latest first. -/
inductive Shape where
  | leaf (literal : Literal)
  | object (name : Option String) (writes : List Write)
  | unknown (origin : Origin)
  deriving DecidableEq, Inhabited

structure VisibleField where
  key : Key
  shape : ShapeId
  node : NodeId
  deriving DecidableEq, Inhabited

namespace Shape

def isObject : Shape → Bool
  | object _ _ => true
  | _ => false

/-- The shape as an object: anything else becomes an object without name and fields. -/
def asObject : Shape → Shape
  | object name writes => object name writes
  | _ => object none []

def objectName? : Shape → Option String
  | object name _ => name
  | _ => none

def history : Shape → List Write
  | object _ writes => writes.reverse
  | _ => []

/-- Adds a write; the shape becomes an object if it is none. -/
def put (write : Write) : Shape → Shape
  | object name writes => object name (write :: writes)
  | _ => object none [write]

/-- The latest value written to `key` at or before `epoch`. -/
def fieldAt (key : Key) (epoch : Nat) : Shape → Option ShapeId
  | object _ writes => (writes.find? fun w => w.epoch ≤ epoch && w.key == key).map (·.shape)
  | _ => none

def replaceField (field : VisibleField) : List VisibleField → List VisibleField
  | [] => [field]
  | f :: rest => if f.key = field.key then field :: rest else f :: replaceField field rest

/-- The fields that the writes up to `epoch` leave, in the order of their first writes. -/
def visibleFields (shape : Shape) (epoch : Nat) : List VisibleField :=
  shape.history.foldl (fun fields w =>
    if w.epoch ≤ epoch then replaceField ⟨w.key, w.shape, w.node⟩ fields else fields) []

end Shape

/-- All shapes of a file. Two names for one object hold the same handle, so that a write through one
is seen through the other. -/
structure ShapeStore where
  shapes : Array Shape := #[]
  deriving Inhabited

namespace ShapeStore

variable (store : ShapeStore)

def size : Nat := store.shapes.size

def get? (id : ShapeId) : Option Shape := store.shapes[id]?

/-- Adds a shape; its handle is the number of shapes before it. -/
def add (shape : Shape) : ShapeStore := ⟨store.shapes.push shape⟩

def isObject (id : ShapeId) : Bool :=
  (store.get? id).any Shape.isObject

def objectName? (id : ShapeId) : Option String :=
  (store.get? id).bind Shape.objectName?

/-- Makes the shape an object in place, so that every holder of the handle sees it. -/
def ensureObject (id : ShapeId) : ShapeStore :=
  ⟨store.shapes.modify id Shape.asObject⟩

def setField (object : ShapeId) (key : Key) (value : ShapeId) (epoch : Nat) (node : NodeId) : ShapeStore :=
  ⟨store.shapes.modify object (Shape.put ⟨key, value, epoch, node⟩)⟩

def fieldAt (object : ShapeId) (key : Key) (epoch : Nat) : Option ShapeId :=
  (store.get? object).bind (Shape.fieldAt key epoch)

def visibleFields (object : ShapeId) (epoch : Nat) : List VisibleField :=
  match store.get? object with
  | some shape => shape.visibleFields epoch
  | none => []

/-- Writes every field that `source` shows at `readEpoch` into `target`. -/
def spreadInto (source target : ShapeId) (readEpoch writeEpoch : Nat) : ShapeStore :=
  (store.visibleFields source readEpoch).foldl
    (fun store field => store.setField target field.key field.shape writeEpoch field.node) store

end ShapeStore

end LeakTrace
