import LeakTrace.Document.Yaml.Token

namespace LeakTrace.Yaml

structure Place where
  rest : List Token
  anchors : List (String × Document) := []

abbrev Reader := StateT Place Option

def absent : Document := .scalar (.plain "")

def peek : Reader (Option Token) := do return (← get).rest.head?

def skip : Reader Unit := modify fun place => { place with rest := place.rest.tail }

def accept (token : Token) : Reader Bool := do
  if (← peek) == some token then
    skip
    return true
  else return false

def keyOf : Document → Option String
  | .scalar value => value.text?
  | _ => none

/-- Passes tags and at most one anchor; gives the anchor's name and whether there was anything. -/
def properties : Reader (Option String × Bool) := do
  let tagged ← accept .tag
  match ← peek with
  | some (.anchor name) =>
    skip
    let _ ← if tagged then pure false else accept .tag
    return (some name, true)
  | _ => return (none, tagged)

def endsBefore (ends : List Token) : Reader Bool := do
  return (← peek).all ends.contains

inductive Form where
  | flow
  | block
  /-- In a block, and also a list at the indentation of its key. -/
  | blockOrList

def depthLimit : Nat := 128

mutual

def node (length : Nat) : (depth : Nat) → Form → Reader Document
  | 0, _ => failure
  | depth + 1, form => do
    match ← peek with
    | some (.reference name) =>
      skip
      match (← get).anchors.lookup name with
      | some document => return document
      | none => failure
    | _ =>
      let (anchor, marked) ← properties
      let document ← content length depth form marked
      if let some name := anchor then
        modify fun place => { place with anchors := (name, document) :: place.anchors }
      return document
termination_by depth => (depth, 0, 0)

def content (length : Nat) (depth : Nat) (form : Form) (marked : Bool) : Reader Document := do
  match ← peek, form with
  | some .dash, .blockOrList => return .list (← dashed length depth true length)
  | some (.scalar plain text), _ =>
    skip
    return .scalar (if plain then .plain text else .string text)
  | some .flowList, _ =>
    skip
    return .list (← flowItems length depth true length)
  | some .flowRecord, _ =>
    skip
    return .record (← flowEntries length depth true length)
  | some .blockList, .block | some .blockList, .blockOrList =>
    skip
    return .list (← dashed length depth false length)
  | some .blockRecord, .block | some .blockRecord, .blockOrList =>
    skip
    return .record (← blockEntries length depth length)
  | _, _ => if marked then return absent else failure
termination_by (depth, 2, 0)

/-- A node, or nothing before one of the tokens. -/
def nodeUnless (length : Nat) (depth : Nat) (ends : List Token) (form : Form) :
    Reader Document := do
  if ← endsBefore ends then return absent else node length depth form
termination_by (depth, 1, 0)

/-- The items of a list in block form. One without indentation of its own has no end token. -/
def dashed (length : Nat) (depth : Nat) (bare : Bool) : (count : Nat) → Reader (List Document)
  | 0 => failure
  | count + 1 => do
    if ← accept .dash then
      let ends := if bare then [.dash, .key, .value, .blockEnd] else [.dash, .blockEnd]
      let item ← nodeUnless length depth ends .block
      return item :: (← dashed length depth bare count)
    else if bare then return []
    else if ← accept .blockEnd then return []
    else failure
termination_by count => (depth, 1, count)

def blockEntries (length : Nat) (depth : Nat) : (count : Nat) →
    Reader (List (Option String × Document))
  | 0 => failure
  | count + 1 => do
    let ends := [.key, .value, .blockEnd]
    if ← accept .key then
      let key ← nodeUnless length depth ends .blockOrList
      let value ← if ← accept .value then nodeUnless length depth ends .blockOrList else pure absent
      return (keyOf key, value) :: (← blockEntries length depth count)
    else if ← accept .blockEnd then return []
    else failure
termination_by count => (depth, 1, count)

/-- The items of a list in brackets. An item may be a single entry of a record. -/
def flowItems (length : Nat) (depth : Nat) (first : Bool) : (count : Nat) → Reader (List Document)
  | 0 => failure
  | count + 1 => do
    if ← accept .flowListEnd then return []
    if !first && !(← accept .comma) then failure
    if ← accept .flowListEnd then return []
    if ← accept .key then
      let key ← nodeUnless length depth [.value, .comma, .flowListEnd] .flow
      let value ← if ← accept .value then
          nodeUnless length depth [.comma, .flowListEnd] .flow
        else pure absent
      return .record [(keyOf key, value)] :: (← flowItems length depth false count)
    else
      let item ← node length depth .flow
      return item :: (← flowItems length depth false count)
termination_by count => (depth, 1, count)

def flowEntries (length : Nat) (depth : Nat) (first : Bool) : (count : Nat) →
    Reader (List (Option String × Document))
  | 0 => failure
  | count + 1 => do
    if ← accept .flowRecordEnd then return []
    if !first && !(← accept .comma) then failure
    if ← accept .flowRecordEnd then return []
    if ← accept .key then
      let key ← nodeUnless length depth [.value, .comma, .flowRecordEnd] .flow
      let value ← if ← accept .value then
          nodeUnless length depth [.comma, .flowRecordEnd] .flow
        else pure absent
      return (keyOf key, value) :: (← flowEntries length depth false count)
    else
      let key ← node length depth .flow
      return (keyOf key, absent) :: (← flowEntries length depth false count)
termination_by count => (depth, 1, count)

end

def document? (text : String) : Option Document := do
  let tokens ← tokens? text
  let rest := tokens.toList.dropWhile (· == .documentEnd)
  guard !rest.isEmpty
  let begun := rest.dropWhile (· == .directive)
  let body ← match begun with
    | .documentStart :: body => some body
    | _ => if begun.length == rest.length then some rest else none
  let length := body.length + 1
  let ends := [.directive, .documentStart, .documentEnd]
  let (document, place) ← (nodeUnless length depthLimit ends .block).run { rest := body }
  guard (place.rest.all (· == .documentEnd))
  return document

end LeakTrace.Yaml
