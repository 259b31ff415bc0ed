import LeakTrace.Crate.Syntax

namespace LeakTrace.Crate

/-- A place between two tokens of a group, or of the whole text. -/
structure Place where
  rest : List Token
  stop : Nat
  braced : Bool := false

abbrev Reader := StateT Place Option

def reserved : List String :=
  ["_", "abstract", "as", "async", "await", "become", "box", "break", "const", "continue", "crate",
    "do", "dyn", "else", "enum", "extern", "false", "final", "fn", "for", "if", "impl", "in", "let",
    "loop", "macro", "match", "mod", "move", "mut", "override", "priv", "pub", "ref", "return",
    "Self", "self", "static", "struct", "super", "trait", "true", "try", "type", "typeof", "unsafe",
    "unsized", "use", "virtual", "where", "while", "yield"]

namespace Ahead

/-- Whether the marks come next, joined to each other. -/
def mark : List Char → List Token → Bool
  | [], _ => true
  | sign :: more, .mark found joined _ _ :: rest =>
    sign == found && (more.isEmpty || joined && mark more rest)
  | _ :: _, _ => false

def word (text : String) : List Token → Bool
  | .word found raw _ _ :: _ => !raw && found == text
  | _ => false

def anyWord : List Token → Bool
  | .word .. :: _ => true
  | _ => false

def oneOf (texts : List String) : List Token → Bool
  | .word found raw _ _ :: _ => !raw && texts.contains found
  | _ => false

def name : List Token → Bool
  | .word found raw _ _ :: _ => raw || !reserved.contains found
  | _ => false

def group (delimiter : Delimiter) : List Token → Bool
  | .group found _ _ _ :: _ => found == delimiter
  | _ => false

def anyGroup : List Token → Bool
  | .group .. :: _ => true
  | _ => false

def lifetime : List Token → Bool
  | .lifetime .. :: _ => true
  | _ => false

def string : List Token → Bool
  | .literal (.string _) _ _ _ :: _ => true
  | _ => false

def literal : List Token → Bool
  | .literal .. :: _ => true
  | .mark '-' _ _ _ :: .literal (.integer ..) _ _ _ :: _ => true
  | .mark '-' _ _ _ :: .literal (.decimal _) _ _ _ :: _ => true
  | tokens => oneOf ["true", "false"] tokens

end Ahead

namespace Reader

def ahead : Reader (List Token) := do return (← get).rest

def atEnd : Reader Bool := do return (← get).rest.isEmpty

def start : Reader Nat := do
  let place ← get
  return (place.rest.head?.map Token.start).getD place.stop

def stop : Reader Nat := do return (← get).stop

def size : Reader Nat := do return (← get).rest.length + 1

def take : Reader Token := do
  match (← get).rest with
  | token :: rest =>
    set ({ rest, stop := token.stop, braced := Ahead.group .brace [token] } : Place)
    return token
  | [] => failure

def skip : Nat → Reader Unit
  | 0 => return
  | n + 1 => do
    let _ ← take
    skip n

def at? (marks : String) : Reader Bool := do return Ahead.mark marks.toList (← ahead)

def atWord? (text : String) : Reader Bool := do return Ahead.word text (← ahead)

def atGroup? (delimiter : Delimiter) : Reader Bool := do return Ahead.group delimiter (← ahead)

def accept (marks : String) : Reader Bool := do
  if ← at? marks then skip marks.length; return true else return false

def acceptWord (text : String) : Reader Bool := do
  if ← atWord? text then skip 1; return true else return false

def expect (marks : String) : Reader Unit := do
  if !(← accept marks) then failure

def expectWord (text : String) : Reader Unit := do
  if !(← acceptWord text) then failure

def anyWord : Reader String := do
  match ← take with
  | .word text _ _ _ => return text
  | _ => failure

def name : Reader String := do
  if Ahead.name (← ahead) then anyWord else failure

def lifetime : Reader Unit := do
  match ← take with
  | .lifetime .. => return
  | _ => failure

/-- Reads all that stands in a group. Gives where the group starts and stops as well. -/
def inGroup {α : Type} (delimiter : Delimiter) (reader : Reader α) : Reader (α × Nat × Nat) := do
  match ← take with
  | .group found inner start stop =>
    if found != delimiter then failure
    match reader.run { rest := inner, stop := start } with
    | some (value, { rest := [], .. }) => return (value, start, stop)
    | _ => failure
  | _ => failure

/-- Reads on from here without going there. -/
def trying {α : Type} (reader : Reader α) : Reader (Option (α × Place)) := do
  return reader.run (← get)

/-- Items up to the end of the group, with the separator between them and perhaps behind them. -/
def terminated (item : Reader Syntax) : (fuel : Nat) → List Syntax → Reader (List Syntax)
  | 0, _ => failure
  | fuel + 1, items => do
    if ← atEnd then return items.reverse
    let next ← item
    if ← atEnd then return (next :: items).reverse
    expect ","
    terminated item fuel (next :: items)

def untilEnd (item : Reader Syntax) : (fuel : Nat) → List Syntax → Reader (List Syntax)
  | 0, _ => failure
  | fuel + 1, items => do
    if ← atEnd then return items.reverse
    let next ← item
    untilEnd item fuel (next :: items)

def repeating (step : Reader Bool) : (fuel : Nat) → Reader Unit
  | 0 => failure
  | fuel + 1 => do
    if ← step then repeating step fuel

/-- Items with a separator between them, as long as there are separators and none of the ends that
`finished` knows is reached. -/
def separated (separator : String) (finished : List Token → Bool) (item : Reader Unit) :
    Reader Unit := do
  repeating (do
    if finished (← ahead) then return false
    item
    accept separator) (← size)

def close (style : Style) (start : Nat) (children : List Syntax) : Reader Syntax := do
  return .node style start (← stop) children

def identifier (role : Option Role) : Reader Syntax := do
  let begin ← start
  let text ← name
  close { kind := some .identifier, role, text := some text, limited := false } begin []

end Reader

/-- The parts of the grammar through which it refers to itself. With `records`, a name may be
followed by the fields of a record. -/
inductive Goal where
  | arguments
  | type (bounds : Bool)
  | pattern
  | patterns
  | expression (records : Bool)
  | unary (records : Bool)
  | operators (records : Bool) (level : Nat) (left : Syntax)
  | arm
  | block (attributes : Bool)
  | item

abbrev Grammar := Goal → Reader Syntax

end LeakTrace.Crate
