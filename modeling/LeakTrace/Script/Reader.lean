import LeakTrace.Script.Syntax

namespace LeakTrace.Script

/-- Reads a part of a script from a place on, or fails at the offset of a token. -/
abbrev Reader := StateT Cursor (Except Nat)

/-- The parts of the grammar through which it refers to itself. With `noIn`, the word `in` ends an
expression, as it does in the head of a loop. -/
inductive Goal where
  | statement
  | sequence (noIn : Bool)
  | expression (noIn : Bool)
  | binary (noIn : Bool) (level : Nat)
  | unary (noIn : Bool)
  | construction
  | markup

abbrev Grammar := Goal → Reader Syntax

namespace Reader

def fail {α : Type} : Reader α := do throw (← get).start

/-- Reads from the same place in another way if the first way fails. -/
def orElse {α : Type} (first second : Reader α) : Reader α := fun cursor =>
  match first cursor with
  | .ok result => .ok result
  | .error offset =>
    match second cursor with
    | .ok result => .ok result
    | .error later => .error (max offset later)

def token : Reader Token := do return (← get).token

def tokenAfter : Reader Token := do return (← get).next.token

def start : Reader Nat := do return (← get).start

def stop : Reader Nat := do return (← get).stop

def size : Reader Nat := do return (← get).size

def advance : Reader Unit := modify Cursor.next

section

variable (text : String)

def at? : Reader Bool := do return (← get).token == .punct text

def atWord? : Reader Bool := do return (← get).token == .word text

def accept : Reader Bool := do
  if ← at? text then advance; return true else return false

def acceptWord : Reader Bool := do
  if ← atWord? text then advance; return true else return false

def expect : Reader Unit := do
  if !(← accept text) then fail

def expectWord : Reader Unit := do
  if !(← acceptWord text) then fail

end

def leaf (form : Form) : Reader Syntax := do
  let cursor ← get
  advance
  return Syntax.leaf form cursor.start cursor.tokenStop

def close (form : Form) (start : Nat) (children : List Syntax) : Reader Syntax := do
  return Syntax.node form none start (← stop) children

/-- The places where a statement may end: behind the last token, and behind each comment after it, up
to text that fits nowhere. -/
def endings (cursor : Cursor) : List (List Char × Nat × List Trivia × List Trivia) :=
  if cursor.afterSupplied then []
  else (cursor.behind, cursor.stop, [], cursor.gap) :: after [] cursor.gap
where
  after (passed : List Trivia) : List Trivia → List (List Char × Nat × List Trivia × List Trivia)
    | [] => []
    | trivia :: rest =>
      if trivia.sort = .skipped then []
      else (trivia.rest, trivia.stop, trivia :: passed, rest) :: after (trivia :: passed) rest

/-- Ends a statement without a semicolon if that is possible. Comments before the place where it
ends belong to it. -/
def endWithout (afterOperand : Bool) : Reader Bool := do
  let cursor ← get
  match (endings cursor).find? fun (text, _) => endsHere afterOperand cursor.size text with
  | some (behind, stop, passed, gap) =>
    set { cursor with behind, stop, gap, comments := passed ++ cursor.comments }
    return true
  | none => return false

def endStatement (afterOperand : Bool) : Reader Unit := do
  if ← endWithout afterOperand then return
  expect ";"

def couldEnd (afterOperand : Bool) : Reader Bool := do
  let cursor ← get
  return (endings cursor).any fun (text, _) => endsHere afterOperand cursor.size text

/-- The items up to the closing mark, with commas between them; items may be left out. -/
def commaItems (closing : String) (item : Reader Syntax) : (fuel : Nat) → List Syntax →
    Reader (List Syntax)
  | 0, _ => fail
  | fuel + 1, items => do
    if ← accept closing then return items.reverse
    if ← accept "," then commaItems closing item fuel items
    else
      let next ← item
      if ← accept closing then return (next :: items).reverse
      expect ","
      commaItems closing item fuel (next :: items)

def itemsWhile (more : Reader Bool) (item : Reader Syntax) : (fuel : Nat) → List Syntax →
    Reader (List Syntax)
  | 0, _ => fail
  | fuel + 1, items => do
    if ← more then
      let next ← item
      itemsWhile more item fuel (next :: items)
    else return items.reverse

end Reader

end LeakTrace.Script
