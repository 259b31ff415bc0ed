import LeakTrace.Script.Reader

namespace LeakTrace.Script

open Reader

def identifier : Reader Syntax := do
  match ← token with
  | .word "undefined" => leaf .null
  | .word _ => leaf .name
  | _ => fail

variable (self : Grammar)

/-- Statements between braces. The end of the block also ends a statement, so that a comment behind
it may belong to it; `afterOperand` says that the block could be the end of an operand. -/
def block (afterOperand : Bool) : Reader Syntax := do
  let begin ← start
  expect "\x7b"
  let body ← itemsWhile (return !(← at? "\x7d")) (self .statement) (← size) []
  expect "\x7d"
  let _ ← endWithout afterOperand
  close .block begin body

def spread : Reader Syntax := do
  let begin ← start
  expect "..."
  let value ← self (.expression false)
  close .spread begin [value]

def argument : Reader Syntax := do
  if ← at? "..." then spread self else self (.expression false)

def arguments : Reader Syntax := do
  let begin ← start
  expect "("
  let items ← commaItems ")" (argument self) (← size) []
  close .arguments begin items

def array : Reader Syntax := do
  let begin ← start
  expect "["
  let items ← commaItems "]" (argument self) (← size) []
  close .array begin items

def computedKey : Reader Syntax := do
  let begin ← start
  expect "["
  let key ← self (.expression false)
  expect "]"
  close .other begin [key]

def propertyName : Reader Syntax := do
  match ← token with
  | .word _ | .privateName => leaf .name
  | .string => leaf .string
  | .number => leaf .number
  | .punct "[" => computedKey self
  | _ => fail

/-- Whether the word ahead stands before a property name, rather than being the name itself. -/
def modifiesName : Reader Bool := do
  match ← tokenAfter with
  | .word _ | .privateName | .string | .number | .punct "[" | .punct "*" => return true
  | _ => return false

/-- Passes the words before the name of a method. `memberEnds` says that a member of a class could
end behind a word, which then is a name. -/
def modifiers (memberEnds : Bool) : (fuel : Nat) → Reader Unit
  | 0 => return
  | fuel + 1 => do
    match ← token with
    | .punct "*" => advance
    | .word "static" | .word "async" | .word "get" | .word "set" =>
      if ← modifiesName then
        let before ← get
        advance
        if memberEnds && (← couldEnd false) then set before
        else modifiers memberEnds fuel
    | _ => return

section

variable (object : Reader Syntax)

/-- What a name may be bound to: a name, or a pattern that takes a value apart. -/
def target : Reader Syntax := do
  match ← token with
  | .word _ => identifier
  | .punct "\x7b" => return (← object).toPattern
  | .punct "[" => return (← array self).toPattern
  | _ => fail

def parameter : Reader Syntax := do
  let begin ← start
  if ← accept "..." then
    let inner ← target self object
    close .spread begin [inner]
  else
    let name ← target self object
    if ← accept "=" then
      let value ← self (.expression false)
      close (.assignment "=") begin [name.as .left, value.as .right]
    else return name

def parameters : Reader Syntax := do
  let begin ← start
  expect "("
  let items ← commaItems ")" (parameter self object) (← size) []
  return (← close .parameters begin items).as .parameters

def methodRest (begin : Nat) (before : List Syntax) (name : Syntax) : Reader Syntax := do
  let params ← parameters self object
  let body ← block self false
  close .function begin (before ++ [name.as .name, params, body.as .body])

/-- One entry of an object, or of the pattern that it may turn out to be. -/
def entry : Reader Syntax := do
  let begin ← start
  match ← token with
  | .punct "..." => spread self
  | .punct "\x7b" =>
    let left ← object
    expect "="
    let right ← self (.expression false)
    close (.assignment "=") begin [left.toPattern.as .left, right.as .right]
  | _ =>
    modifiers false 4
    let plain := (← start) == begin
    let word := match ← token with
      | .word _ => true
      | _ => false
    let name ← propertyName self
    match ← token with
    | .punct "(" => methodRest self object begin [] name
    | .punct ":" =>
      if !plain then fail
      advance
      let value ← self (.expression false)
      close .pair begin [name.as .key, value.as .value]
    | .punct "=" =>
      if !plain then fail
      advance
      let right ← self (.expression false)
      if word then close .shorthandDefault begin [name.as .left, right.as .right]
      else match name with
        | .node .other role start stop items =>
          let left := (Syntax.node .array role start stop items).toPattern
          close (.assignment "=") begin [left.as .left, right.as .right]
        | _ => fail
    | _ => if word && plain then close .shorthand begin [] else fail

end

/-- An object; `fuel` bounds how deep objects stand directly in objects. -/
def object : (fuel : Nat) → Reader Syntax
  | 0 => fail
  | fuel + 1 => do
    let begin ← start
    expect "\x7b"
    let items ← commaItems "\x7d" (entry self (object fuel)) (← size) []
    close .object begin items

def patternDepth : Nat := 64

def anyObject : Reader Syntax := object self patternDepth

def anyTarget : Reader Syntax := target self (anyObject self)

def functionRest (begin : Nat) (afterOperand : Bool) : Reader Syntax := do
  let _ ← accept "*"
  let name ← match ← token with
    | .word _ => do pure [(← leaf .name).as .name]
    | _ => pure []
  let params ← parameters self (anyObject self)
  let body ← block self afterOperand
  close .function begin (name ++ [params, body.as .body])

/-- A function from its first word on, which may be `async`. -/
def function (afterOperand : Bool) : Reader Syntax := do
  let begin ← start
  let _ ← acceptWord "async"
  expectWord "function"
  functionRest self begin afterOperand

def dotted : (fuel : Nat) → Syntax → Reader Syntax
  | 0, name => return name
  | fuel + 1, name => do
    if ← accept "." then
      match ← token with
      | .word _ =>
        let property ← leaf .name
        let joined ← close .member name.start [name.as .object, property.as .property]
        dotted fuel joined
      | _ => fail
    else return name

def decorator : Reader Syntax := do
  let begin ← start
  expect "@"
  let name ← match ← token with
    | .word _ => leaf .name
    | _ => fail
  let path ← dotted (← size) name
  if ← at? "(" then
    let args ← arguments self
    let call ← close .call path.start [path.as .function, args.as .arguments]
    close .other begin [call]
  else close .other begin [path]

def decorators : Reader (List Syntax) := do
  itemsWhile (at? "@") (decorator self) (← size) []

def classMember : Reader Syntax := do
  let begin ← start
  let marks ← decorators self
  if (← atWord? "static") && (← tokenAfter) == .punct "\x7b" then
    advance
    let body ← block self false
    close .other begin [body.as .body]
  else
    modifiers true 4
    let name ← propertyName self
    if ← at? "(" then methodRest self (anyObject self) begin marks name
    else
      if ← accept "=" then
        let value ← self (.expression false)
        let field ← close .other begin (marks ++ [name.as .property, value.as .value])
        endStatement true
        return field
      else
        let field ← close .other begin (marks ++ [name.as .property])
        endStatement false
        return field

def classMembers : (fuel : Nat) → List Syntax → Reader (List Syntax)
  | 0, _ => fail
  | fuel + 1, members => do
    if ← accept ";" then classMembers fuel members
    else if ← at? "\x7d" then return members.reverse
    else
      let next ← classMember self
      classMembers fuel (next :: members)

def classRest (begin : Nat) (marks : List Syntax) : Reader Syntax := do
  expectWord "class"
  let name ← match ← token with
    | .word "extends" => pure []
    | .word _ => do pure [(← leaf .name).as .name]
    | _ => pure []
  let heritage ← if ← atWord? "extends" then do
      let heritageStart ← start
      advance
      let base ← self (.expression false)
      pure [← close .other heritageStart [base]]
    else pure []
  let bodyStart ← start
  expect "\x7b"
  let members ← classMembers self (← size) []
  expect "\x7d"
  let body ← close .block bodyStart members
  close .classDecl begin (marks ++ name ++ heritage ++ [body.as .body])

end LeakTrace.Script
