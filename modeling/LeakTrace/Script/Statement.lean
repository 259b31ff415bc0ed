import LeakTrace.Script.Expression

namespace LeakTrace.Script

open Reader

section

variable (self : Grammar)

def condition : Reader Syntax := do
  let begin ← start
  expect "("
  let value ← self (.sequence false)
  expect ")"
  close .wrapper begin [value]

/-- A name or pattern with its value. The flag tells whether there is a value. -/
def declarator (noIn : Bool) : Reader (Syntax × Bool) := do
  let name ← anyTarget self
  if ← accept "=" then
    let value ← self (.expression noIn)
    return (← close .declarator name.start [name.as .name, value.as .value], true)
  else return (← close .declarator name.start [name.as .name], false)

def declarators : (fuel : Nat) → List Syntax → Reader (List Syntax × Bool)
  | 0, _ => fail
  | fuel + 1, items => do
    let (next, valued) ← declarator self false
    if ← accept "," then declarators fuel (next :: items)
    else return ((next :: items).reverse, valued)

def declaration : Reader Syntax := do
  let begin ← start
  advance
  let (items, valued) ← declarators self (← size) []
  endStatement valued
  close .statement begin items

def expressionStatement : Reader Syntax := do
  let begin ← start
  let value ← self (.sequence false)
  endStatement true
  close .statement begin [value]

/-- Braces at the start of a statement hold statements, unless they can only be read as an object or
start with a name and a colon and can be read as one. -/
def braces : Reader Syntax := do
  let statements := block self ((← tokenAfter) == .punct "\x7d")
  if ← mayBeObject then orElse (expressionStatement self) statements else statements

def ifStatement : Reader Syntax := do
  let begin ← start
  advance
  let test ← condition self
  let yes ← self .statement
  if ← atWord? "else" then
    let elseStart ← start
    advance
    let no ← self .statement
    let other ← close .other elseStart [no]
    close .other begin [test.as .condition, yes, other]
  else close .other begin [test.as .condition, yes]

def isDeclaring (token : Token) : Bool :=
  token == .word "var" || token == .word "let" || token == .word "const"

def loopOver (begin : Nat) (left : List Syntax) : Reader Syntax := do
  match ← token with
  | .word "in" | .word "of" => advance
  | _ => fail
  let right ← self (.sequence false)
  expect ")"
  let body ← self .statement
  close .other begin (left ++ [right.as .right, body.as .body])

def loopTarget : Reader (List Syntax) := do
  if isDeclaring (← token) then
    advance
    let name ← anyTarget self
    if ← accept "=" then
      let value ← self (.expression true)
      return [name.as .left, value.as .value]
    else return [name.as .left]
  else
    let base ← primary self true
    let left ← accesses self true (← size) base
    if left.isTarget then return [left.toPattern.as .left] else fail

def emptyStatement : Reader Syntax := do
  if ← at? ";" then leaf .other else fail

def loopCounting (begin : Nat) : Reader Syntax := do
  let first ← if isDeclaring (← token) then declaration self
    else if ← at? ";" then emptyStatement
    else do
      let value ← self (.sequence false)
      expect ";"
      pure value
  let test ← if ← at? ";" then emptyStatement
    else do
      let value ← self (.sequence false)
      expect ";"
      pure value
  let step ← if ← at? ")" then pure [] else pure [← self (.sequence false)]
  expect ")"
  let body ← self .statement
  close .other begin ([first, test.as .condition] ++ step ++ [body.as .body])

def forStatement : Reader Syntax := do
  let begin ← start
  advance
  let _ ← acceptWord "await"
  expect "("
  let parts : Reader Syntax := do
    let left ← loopTarget self
    loopOver self begin left
  orElse parts (loopCounting self begin)

def whileStatement : Reader Syntax := do
  let begin ← start
  advance
  let test ← condition self
  let body ← self .statement
  close .other begin [test.as .condition, body.as .body]

def doStatement : Reader Syntax := do
  let begin ← start
  advance
  let body ← self .statement
  expectWord "while"
  let test ← condition self
  if !(← endWithout false) then
    let _ ← accept ";"
  close .other begin [body.as .body, test.as .condition]

def withStatement : Reader Syntax := do
  let begin ← start
  advance
  let subject ← condition self
  let body ← self .statement
  close .other begin [subject.as .object, body.as .body]

def caseBody : Reader (List Syntax) := do
  let statements ← itemsWhile
    (return !(← at? "\x7d") && !(← atWord? "case") && !(← atWord? "default"))
    (self .statement) (← size) []
  return statements.map (Syntax.as .body)

def switchCase : Reader Syntax := do
  let begin ← start
  if ← acceptWord "case" then
    let value ← self (.sequence false)
    expect ":"
    let body ← caseBody self
    close .other begin (value.as .value :: body)
  else
    expectWord "default"
    expect ":"
    let body ← caseBody self
    close .other begin body

def switchStatement : Reader Syntax := do
  let begin ← start
  advance
  let value ← condition self
  let bodyStart ← start
  expect "\x7b"
  let cases ← itemsWhile (return !(← at? "\x7d")) (switchCase self) (← size) []
  expect "\x7d"
  let body ← close .other bodyStart cases
  close .other begin [value.as .value, body.as .body]

def catchClause : Reader Syntax := do
  let begin ← start
  advance
  let name ← if ← accept "(" then do
      let name ← anyTarget self
      expect ")"
      pure [name.as .parameters]
    else pure []
  let body ← block self false
  close .other begin (name ++ [body.as .body])

def finallyClause : Reader Syntax := do
  let begin ← start
  advance
  let body ← block self false
  close .other begin [body.as .body]

def tryStatement : Reader Syntax := do
  let begin ← start
  advance
  let body ← block self false
  let handler ← if ← atWord? "catch" then pure [← catchClause self] else pure []
  let last ← if ← atWord? "finally" then pure [← finallyClause self] else pure []
  close .other begin (body.as .body :: handler ++ last)

def jumpStatement : Reader Syntax := do
  let begin ← start
  advance
  if ← endWithout false then close .other begin []
  else match ← token with
    | .word _ => do
      let label ← leaf .other
      endStatement false
      close .other begin [label]
    | _ => do
      expect ";"
      close .other begin []

def returnStatement : Reader Syntax := do
  let begin ← start
  advance
  if ← endWithout false then close .ret begin []
  else if ← accept ";" then close .ret begin []
  else
    let value ← self (.sequence false)
    endStatement true
    close .ret begin [value]

def throwStatement : Reader Syntax := do
  let begin ← start
  advance
  let value ← self (.sequence false)
  endStatement true
  close .other begin [value]

def debuggerStatement : Reader Syntax := do
  let begin ← start
  advance
  endStatement false
  close .other begin []

def labeledStatement : Reader Syntax := do
  let begin ← start
  let label ← leaf .other
  expect ":"
  let body ← self .statement
  close .other begin [label, body.as .body]

def moduleName : Reader Syntax := do
  match ← token with
  | .word _ => leaf .name
  | .string => leaf .string
  | _ => fail

def specifier : Reader Syntax := do
  let begin ← start
  let name ← moduleName
  if ← acceptWord "as" then
    let other ← moduleName
    close .other begin [name.as .name, other]
  else close .other begin [name.as .name]

def specifiers : Reader Syntax := do
  let begin ← start
  expect "\x7b"
  let items ← commaItems "\x7d" specifier (← size) []
  close .other begin items

def wholeModule : Reader Syntax := do
  let begin ← start
  expect "*"
  expectWord "as"
  let name ← moduleName
  close .other begin [name]

def fromClause : Reader Syntax := do
  expectWord "from"
  if (← token) == .string then leaf .string else fail

def importClause : Reader Syntax := do
  let begin ← start
  match ← token with
  | .punct "*" => do
    let all ← wholeModule
    close .other begin [all]
  | .punct "\x7b" => do
    let names ← specifiers
    close .other begin [names]
  | .word _ => do
    let name ← leaf .name
    if ← accept "," then
      let more ← if ← at? "*" then wholeModule else specifiers
      close .other begin [name, more]
    else close .other begin [name]
  | _ => fail

def importStatement : Reader Syntax := do
  let begin ← start
  advance
  let parts ← if (← token) == .string then pure [← leaf .string]
    else do
      let clause ← importClause
      let source ← fromClause
      pure [clause, source]
  let attributes ← if (← atWord? "with") && !(← couldEnd false) then do
      let wordStart ← start
      advance
      let fields ← anyObject self
      pure [← close .other wordStart [fields]]
    else pure []
  endStatement false
  close .other begin (parts ++ attributes)

def namedDefinition? : Reader (Option Bool) := do
  let cursor ← get
  let named (after : Cursor) : Bool := match after.token with
    | .word "extends" => false
    | .word _ => true
    | .punct "*" => match after.next.token with
      | .word _ => true
      | _ => false
    | _ => false
  match cursor.token with
  | .word "function" => return some (named cursor.next)
  | .word "class" => return some (named cursor.next)
  | .word "async" =>
    let after := cursor.next
    if after.token == .word "function" && !endsHere true cursor.size after.behind then
      return some (named after.next)
    else return none
  | .punct "@" => return some true
  | _ => return none

def definition (afterOperand : Bool) : Reader Syntax := do
  if (← at? "@") || (← atWord? "class") then
    let begin ← start
    let marks ← decorators self
    let part ← classRest self begin marks
    let _ ← endWithout afterOperand
    close .classDecl begin part.children
  else function self afterOperand

def exportStatement (begin : Nat) (marks : List Syntax) : Reader Syntax := do
  expectWord "export"
  if ← acceptWord "default" then
    match ← namedDefinition? with
    | some true => do
      let part ← definition self true
      close .other begin (marks ++ [part])
    | _ => do
      let value ← self (.expression false)
      endStatement true
      close .other begin (marks ++ [value.as .value])
  else match ← token with
    | .punct "*" => do
      let name ← if (← tokenAfter) == .word "as" then pure [← wholeModule]
        else do
          advance
          pure []
      let source ← fromClause
      endStatement false
      close .other begin (name ++ [source])
    | .punct "\x7b" => do
      let names ← specifiers
      let source ← if ← atWord? "from" then pure [← fromClause] else pure []
      endStatement false
      close .other begin (names :: source)
    | _ => do
      let part ← if isDeclaring (← token) then declaration self
        else match ← namedDefinition? with
          | some _ => definition self false
          | none => fail
      close .other begin (marks ++ [part])

/-- Decorators stand before a class, or before one that is exported. -/
def decorated : Reader Syntax := do
  let begin ← start
  let before ← get
  let marks ← decorators self
  if ← atWord? "export" then exportStatement self begin marks
  else
    set before
    definition self true

def letDeclares : Reader Bool := do
  let after := (← get).next
  match after.token with
  | .word "in" | .word "instanceof" | .word "of" => return false
  | .word _ => return !endsHere true after.size after.behind
  | .punct "[" | .punct "\x7b" => return true
  | _ => return false

/-- Passes comment marks of old pages at the start of a statement. -/
def passHtml : (fuel : Nat) → Reader Unit
  | 0 => return
  | fuel + 1 => do
    let cursor ← get
    match Cursor.htmlCommentEnd? cursor.ahead with
    | some (rest, bytes) =>
      let trivia : Trivia := ⟨cursor.start, cursor.start + bytes, rest, .html⟩
      let comments := trivia :: (cursor.gap.reverse ++ cursor.comments)
      set (Cursor.place cursor.size cursor.faults rest (cursor.start + bytes) comments)
      passHtml fuel
    | none => return

def statement : Reader Syntax := do
  passHtml 64
  match ← token with
  | .punct "\x7b" => braces self
  | .punct ";" => emptyStatement
  | .punct "@" => decorated self
  | .word word =>
    if (← tokenAfter) == .punct ":" then labeledStatement self
    else match word with
      | "var" | "const" => declaration self
      | "let" => if ← letDeclares then declaration self else expressionStatement self
      | "if" => ifStatement self
      | "for" => forStatement self
      | "while" => whileStatement self
      | "do" => doStatement self
      | "switch" => switchStatement self
      | "try" => tryStatement self
      | "with" => withStatement self
      | "break" | "continue" => jumpStatement
      | "return" => returnStatement self
      | "throw" => throwStatement self
      | "debugger" => debuggerStatement
      | "export" => do orElse (exportStatement self (← start) []) (expressionStatement self)
      | "import" => do
        match ← tokenAfter with
        | .punct "(" | .punct "." => expressionStatement self
        | _ => importStatement self
      | "function" | "class" | "async" => do
        match ← namedDefinition? with
        | some true => definition self true
        | _ => expressionStatement self
      | _ => expressionStatement self
  | _ => expressionStatement self

end

/-- The grammar, with a bound on how deep its parts stand in each other. -/
def grammar : (depth : Nat) → Grammar
  | 0 => fun _ => fail
  | depth + 1 => fun goal =>
    match goal with
    | .statement => statement (grammar depth)
    | .sequence noIn => sequence (grammar depth) noIn
    | .expression noIn => expression (grammar depth) noIn
    | .binary noIn level => binary (grammar depth) noIn level
    | .unary noIn => unary (grammar depth) noIn
    | .construction => construction (grammar depth)
    | .markup => element (grammar depth)

def interpreterLine : Reader (List Syntax) := do
  let cursor ← get
  match cursor.ahead with
  | '#' :: '!' :: rest =>
    let line := rest.takeWhile (· != '\n')
    let stop := cursor.start + 2 + Text.byteLength line
    set (cursor.jump (rest.drop line.length) stop)
    return [Syntax.leaf .other cursor.start stop]
  | _ => return []

def statements : Reader (List Syntax) := do
  let line ← interpreterLine
  let size ← size
  let parts ← itemsWhile (return (← token) != .finish) (grammar (8 * size + 8) .statement) size []
  return line ++ parts

end LeakTrace.Script
