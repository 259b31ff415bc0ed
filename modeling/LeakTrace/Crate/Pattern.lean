import LeakTrace.Crate.Type

namespace LeakTrace.Crate

open Reader

namespace Pattern

def whole (form : Form) (begin : Nat) : Reader Syntax :=
  close { kind := some .other, form } begin []

def list (begin : Nat) (elements : List Syntax) : Reader Syntax :=
  close { kind := some .array } begin elements

variable (self : Grammar)

def bound? : Reader Bool := do
  let tokens ← ahead
  if tokens.isEmpty || Ahead.mark ['|'] tokens || Ahead.mark ['='] tokens ||
      Ahead.mark [':'] tokens && !Ahead.mark [':', ':'] tokens || Ahead.mark [','] tokens ||
      Ahead.mark [';'] tokens || Ahead.word "if" tokens then return false
  if Ahead.literal tokens then skip (if Ahead.mark ['-'] tokens then 2 else 1)
  else if Ahead.name tokens || Ahead.mark [':', ':'] tokens || Ahead.mark ['<'] tokens ||
      Ahead.oneOf pathWords tokens then
    let _ ← qualifiedPath self true
  else
    expectWord "const"
    let _ ← self (.block true)
  return true

def rangeFrom (begin : Nat) (obsolete : Bool) : Reader Syntax := do
  let tokens ← ahead
  let closed := Ahead.mark ['.', '.', '='] tokens
  let threePoints := Ahead.mark ['.', '.', '.'] tokens
  if threePoints && !obsolete then failure
  skip (if closed || threePoints then 3 else 2)
  let ended ← bound? self
  if (closed || threePoints) && !ended then failure
  whole (if ended then .plain else .openRange) begin

def field : Reader Syntax := do
  let begin ← start
  attributes self
  let inside ← start
  let boxed ← acceptWord "box"
  let byReference ← acceptWord "ref"
  let mutable ← acceptWord "mut"
  let changed := boxed || byReference || mutable
  let keyStart ← start
  let tokens ← ahead
  match tokens with
  | .literal (.integer digits false) _ _ _ :: _ =>
    if changed then failure
    skip 1
    let key ← close { kind := some .number, role := some .key, text := some digits, limited := false }
      keyStart []
    expect ":"
    let value ← self .patterns
    close { kind := some .pair, limited := false } begin [key, value.as .value]
  | _ =>
    let key ← identifier (some .key)
    if !changed && (← accept ":") then
      let value ← self .patterns
      close { kind := some .pair, limited := false } begin [key, value.as .value]
    else
      let value ← if boxed then whole .plain inside else close {} inside [key]
      close { kind := some .pair, limited := false } begin [key, value.as .value]

def fields : (fuel : Nat) → List Syntax → Reader (List Syntax)
  | 0, _ => failure
  | fuel + 1, found => do
    if ← atEnd then return found.reverse
    let before ← get
    attributes self
    if ← accept ".." then return found.reverse
    set before
    let next ← field self
    if ← atEnd then return (next :: found).reverse
    expect ","
    fields fuel (next :: found)

def ofPath : Reader Syntax := do
  let begin ← start
  let (qualified, path) ← qualifiedPath self true
  let tokens ← ahead
  if !qualified && Ahead.mark ['!'] tokens && !Ahead.mark ['!', '='] tokens && path.plain then
    skip 1
    if !Ahead.anyGroup (← ahead) then failure
    skip 1
    whole .plain begin
  else if Ahead.group .brace tokens then
    let (found, _) ← inGroup .brace (do fields self (← size) [])
    close { kind := some .objectPattern } begin found
  else if Ahead.group .paren tokens then
    let (elements, _) ← inGroup .paren (do terminated (self .patterns) (← size) [])
    list begin elements
  else if Ahead.mark ['.', '.'] tokens then rangeFrom self begin true
  else whole .plain begin

def binding : Reader Syntax := do
  let begin ← start
  let _ ← acceptWord "ref"
  let _ ← acceptWord "mut"
  let nameStart ← start
  let text ← if ← atWord? "self" then anyWord else name
  let bound ← close { kind := some .identifier, text := some text, limited := false } nameStart []
  if ← accept "@" then
    let _ ← self .pattern
  close {} begin [bound]

def inParens : Reader Syntax := do
  let begin ← start
  let ((elements, separated), _) ← inGroup .paren (do
    if ← atEnd then return ([], true)
    let first ← self .patterns
    if ← atEnd then return ([first], first.form == .rest)
    expect ","
    return (first :: (← terminated (self .patterns) (← size) []), true))
  match elements, separated with
  | [inner], false => close {} begin [inner]
  | _, _ => list begin elements

end Pattern

open Crate.Pattern in
def pattern (self : Grammar) : Reader Syntax := do
  let begin ← start
  let tokens ← ahead
  let second := tokens.drop 1
  if Ahead.name tokens && (Ahead.mark [':', ':'] second || Ahead.mark ['!'] second ||
        Ahead.group .brace second || Ahead.group .paren second || Ahead.mark ['.', '.'] second) ||
      Ahead.word "self" tokens && Ahead.mark [':', ':'] second ||
      Ahead.mark [':', ':'] tokens || Ahead.mark ['<'] tokens ||
      Ahead.oneOf ["Self", "super", "crate"] tokens then
    ofPath self
  else if ← acceptWord "_" then whole .plain begin
  else if ← acceptWord "box" then
    let _ ← self .pattern
    whole .plain begin
  else if Ahead.mark ['-'] tokens || Ahead.literal tokens || Ahead.word "const" tokens then
    if !(← bound? self) then failure
    if ← at? ".." then rangeFrom self begin true else whole .plain begin
  else if Ahead.oneOf ["ref", "mut", "self"] tokens || Ahead.name tokens then binding self
  else if ← accept "&" then
    let _ ← acceptWord "mut"
    close {} begin [← self .pattern]
  else if Ahead.group .paren tokens then inParens self
  else if Ahead.group .bracket tokens then
    let (elements, _) ← inGroup .bracket (do
      terminated (do
        let element ← self .patterns
        if element.form = .openRange then failure
        return element) (← size) [])
    list begin elements
  else if Ahead.mark ['.', '.'] tokens && !Ahead.mark ['.', '.', '.'] tokens then
    let points ← rangeFrom self begin false
    if points.form = .openRange then whole .rest begin else whole .openRange begin
  else failure

def patterns (self : Grammar) : Reader Syntax := do
  let begin ← start
  let leading ← accept "|"
  let first ← self .pattern
  let size ← size
  let rec others (found : Bool) : (fuel : Nat) → Reader Bool
    | 0 => failure
    | fuel + 1 => do
      let tokens ← ahead
      if Ahead.mark ['|'] tokens && !Ahead.mark ['|', '|'] tokens && !Ahead.mark ['|', '='] tokens
        then
        skip 1
        let _ ← self .pattern
        others true fuel
      else return found
  let more ← others false size
  if leading || more then Pattern.whole .plain begin else return first

end LeakTrace.Crate
