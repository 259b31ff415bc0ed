import LeakTrace.Script.Markup

namespace LeakTrace.Script

open Reader

/-- How tightly a binary operator binds, and whether it groups to the right. -/
def operatorLevel (noIn : Bool) : Token → Option (String × Nat × Bool)
  | .punct text =>
    match text with
    | "**" => some (text, 12, true)
    | "*" | "/" | "%" => some (text, 11, false)
    | "+" | "-" => some (text, 10, false)
    | "<<" | ">>" | ">>>" => some (text, 9, false)
    | "<" | "<=" | ">" | ">=" => some (text, 8, false)
    | "==" | "===" | "!=" | "!==" => some (text, 7, false)
    | "&" => some (text, 6, false)
    | "^" => some (text, 5, false)
    | "|" => some (text, 4, false)
    | "&&" => some (text, 3, false)
    | "||" => some (text, 2, false)
    | "??" => some (text, 1, false)
    | _ => none
  | .word "instanceof" => some ("instanceof", 8, false)
  | .word "in" => if noIn then none else some ("in", 8, false)
  | _ => none

def isUpdateAssignment (text : String) : Bool :=
  ["+=", "-=", "*=", "/=", "%=", "^=", "&=", "|=", ">>=", ">>>=", "<<=", "**=", "&&=", "||=", "??="].contains
    text

/-- Where the literal part of a template ends: at a substitution or at the closing mark, with the
text behind that and the bytes passed. -/
def templateEnd? : List Char → Nat → Option (Bool × List Char × Nat)
  | '`' :: rest, bytes => some (false, rest, bytes + 1)
  | '$' :: '\x7b' :: rest, bytes => some (true, rest, bytes + 2)
  | '\\' :: c :: rest, bytes => templateEnd? rest (bytes + 1 + c.utf8Size)
  | c :: rest, bytes => templateEnd? rest (bytes + c.utf8Size)
  | [], _ => none

variable (self : Grammar)

def templateParts : (fuel : Nat) → List Char → Nat → List Syntax →
    Reader (List Syntax)
  | 0, _, _, _ => fail
  | fuel + 1, text, offset, parts => do
    match templateEnd? text 0 with
    | none => fail
    | some (false, rest, bytes) =>
      goRaw rest (offset + bytes)
      return parts.reverse
    | some (true, rest, bytes) =>
      goRaw rest (offset + bytes)
      let value ← self (.sequence false)
      let cursor ← get
      if cursor.token != .punct "\x7d" then fail
      set { cursor with comments := cursor.gap.reverse ++ cursor.comments }
      let part := Syntax.node .substitution none (offset + bytes - 2) cursor.tokenStop [value]
      templateParts fuel cursor.tokenRest cursor.tokenStop (part :: parts)

def template : Reader Syntax := do
  let cursor ← get
  set { cursor with comments := cursor.gap.reverse ++ cursor.comments }
  let parts ← templateParts self cursor.size cursor.tokenRest cursor.tokenStop []
  close .template cursor.start parts

def regex : Reader Syntax := do
  let cursor ← get
  match cursor.ahead with
  | '/' :: text =>
    match patternEnd? false text 0 with
    | some (_ :: rest, bytes) =>
      if bytes == 0 then fail
      let patternStart := cursor.start + 1
      let pattern := Syntax.leaf .other patternStart (patternStart + bytes)
      let flags := rest.takeWhile Letter.isAsciiLower
      let flagsStart := patternStart + bytes + 1
      let stop := flagsStart + flags.length
      set (cursor.jump (rest.drop flags.length) stop)
      close .other cursor.start <|
        if flags.isEmpty then [pattern] else [pattern, Syntax.leaf .other flagsStart stop]
    | _ => fail
  | _ => fail

/-- Whether braces that start here could hold the entries of an object, seen from the first tokens. -/
def mayBeObject : Reader Bool := do
  let inside := (← get).next
  match inside.token with
  | .word word =>
    match inside.next.token with
    | .punct ":" | .punct "(" => return true
    | .word _ | .string | .number | .privateName | .punct "[" | .punct "*" =>
      return ["get", "set", "async", "static"].contains word
    | _ => return false
  | .string | .number => return inside.next.token == .punct ":" || inside.next.token == .punct "("
  | .punct "[" | .punct "..." | .punct "*" => return true
  | _ => return false

variable (noIn : Bool)

def arrowBody : Reader Syntax := do
  if ← at? "\x7b" then
    if ← mayBeObject then orElse (self (.expression noIn)) (block self true) else block self true
  else self (.expression noIn)

def arrowRest (begin : Nat) (params : Syntax) : Reader Syntax := do
  expect "=>"
  let body ← arrowBody self noIn
  close .function begin [params.as .parameters, body.as .body]

def parenItem : Reader Syntax := do
  if ← at? "..." then spread self else self (.expression false)

/-- Parentheses: those of an expression, or, before an arrow, those of parameters. -/
def parenthesized : Reader Syntax := do
  let begin ← start
  expect "("
  let before ← get
  let items ← commaItems ")" (parenItem self) (← size) []
  if ← at? "=>" then
    let params ← close .parameters begin (Syntax.toPatterns items)
    arrowRest self noIn begin params
  else match items with
    | [item] =>
      if item.form == .spread then fail
      close .wrapper begin [item]
    | first :: _ =>
      let last := items.getLast?.getD first
      let sequence := Syntax.node .other none before.start last.stop items
      close .wrapper begin [sequence]
    | [] => fail

/-- What starts with the word `async`: a function, an arrow function, or just the name. -/
def asyncOperand : Reader Syntax := do
  let begin ← start
  let before ← get
  let name ← leaf .name
  if ← couldEnd true then return name
  match ← token with
  | .word "function" => do
    set before
    function self true
  | .word _ => do
    let param ← identifier
    if ← at? "=>" then arrowRest self noIn begin param
    else
      set before
      leaf .name
  | .punct "(" => do
    let opened ← start
    let args ← arguments self
    if ← at? "=>" then
      let params := Syntax.node .parameters none opened args.stop (Syntax.toPatterns args.children)
      arrowRest self noIn begin params
    else
      set before
      leaf .name
  | .punct "=>" => arrowRest self noIn begin name
  | _ => return name

def importOperand : Reader Syntax := do
  let begin ← start
  let word ← leaf .other
  if (← at? ".") && (← tokenAfter) == .word "meta" then
    advance
    advance
    close .other begin []
  else return word

/-- Parts behind an operand that bind tighter than `new`. -/
def accesses (calls : Bool) : (fuel : Nat) → Syntax → Reader Syntax
  | 0, _ => fail
  | fuel + 1, operand => do
    match ← token with
    | .punct "." => do
      advance
      let property ← property
      let access ← close .member operand.start [operand.as .object, property.as .property]
      accesses calls fuel access
    | .punct "?." => do
      let chain ← leaf .other
      match ← token with
      | .punct "[" => do
        let index ← bracketed self
        let access ← close .index operand.start [operand.as .object, chain, index.as .index]
        accesses calls fuel access
      | .punct "(" => do
        let args ← arguments self
        let call ← close .call operand.start [operand.as .function, chain, args.as .arguments]
        accesses calls fuel call
      | _ => do
        let property ← property
        let access ← close .member operand.start [operand.as .object, chain, property.as .property]
        accesses calls fuel access
    | .punct "[" => do
      let index ← bracketed self
      let access ← close .index operand.start [operand.as .object, index.as .index]
      accesses calls fuel access
    | .punct "(" =>
      if calls then do
        let args ← arguments self
        let call ← close .call operand.start [operand.as .function, args.as .arguments]
        accesses calls fuel call
      else return operand
    | .template => do
      let text ← template self
      let call ← close .call operand.start [operand.as .function, text.as .arguments]
      accesses calls fuel call
    | _ => return operand
where
  property : Reader Syntax := do
    match ← token with
    | .word _ | .privateName => leaf .name
    | _ => fail
  bracketed (self : Grammar) : Reader Syntax := do
    expect "["
    let index ← self (.sequence false)
    expect "]"
    return index

def primary : Reader Syntax := do
  match ← token with
  | .number => leaf .number
  | .string => leaf .string
  | .privateName => do
    let left ← leaf .name
    expectWord "in"
    let right ← self (.binary noIn 9)
    close (.binary "in") left.start [left.as .left, right.as .right]
  | .template => template self
  | .punct "(" => parenthesized self noIn
  | .punct "[" => array self
  | .punct "\x7b" => anyObject self
  | .punct "/" | .punct "/=" => regex
  | .punct "@" => do
    let begin ← start
    let marks ← decorators self
    classRest self begin marks
  | .word word =>
    match word with
    | "this" | "super" => leaf .name
    | "true" | "false" => leaf .boolean
    | "null" => leaf .null
    | "function" => function self true
    | "class" => do classRest self (← start) []
    | "new" => self .construction
    | "import" => importOperand
    | "async" => asyncOperand self noIn
    | _ => do
      let begin ← start
      let name ← identifier
      if ← at? "=>" then arrowRest self noIn begin name else return name
  | _ => do
    if ← startsRaw ['<'] then self .markup else fail

def construction : Reader Syntax := do
  let begin ← start
  expectWord "new"
  if ← accept "." then
    expectWord "target"
    close .other begin []
  else
    let base ← primary self false
    let maker ← accesses self false (← size) base
    if ← at? "(" then
      let args ← arguments self
      close .call begin [maker.as .function, args.as .arguments]
    else close .call begin [maker.as .function]

def assignment (left : Syntax) : Reader Syntax := do
  match ← token with
  | .punct text =>
    if left.isTarget && (text == "=" || isUpdateAssignment text) then
      advance
      let right ← self (.expression noIn)
      let left := if text == "=" then left.toPattern else left
      close (.assignment text) left.start [left.as .left, right.as .right]
    else return left
  | _ => return left

def postfixed : Reader Syntax := do
  let base ← primary self noIn
  let operand ← accesses self true (← size) base
  if (← at? "++") || (← at? "--") then
    if ← couldEnd true then return operand
    advance
    close .other operand.start [operand]
  else assignment self noIn operand

def unary : Reader Syntax := do
  let begin ← start
  match ← token with
  | .punct "!" | .punct "~" | .punct "-" | .punct "+" | .punct "++" | .punct "--"
  | .word "typeof" | .word "void" | .word "delete" => do
    advance
    let operand ← self (.unary noIn)
    close .other begin [operand]
  | .word "await" => do
    let awaited : Reader Syntax := do
      advance
      let operand ← self (.unary noIn)
      close .wrapper begin [operand]
    orElse awaited (postfixed self noIn)
  | _ => postfixed self noIn

/-- Goes on from an operand with operators that bind at least as tightly as `level`. -/
def binaryFrom (level : Nat) : (fuel : Nat) → Syntax → Reader Syntax
  | 0, _ => fail
  | fuel + 1, left => do
    match operatorLevel noIn (← token) with
    | some (text, tightness, toRight) =>
      if tightness < level then return left
      advance
      let right ← self (.binary noIn (if toRight then tightness else tightness + 1))
      let both ← close (.binary text) left.start [left.as .left, right.as .right]
      binaryFrom level fuel both
    | none => return left

def binary (level : Nat) : Reader Syntax := do
  let left ← unary self noIn
  binaryFrom self noIn level (← size) left

def startsOperand : Reader Bool := do
  match ← token with
  | .finish => return false
  | .punct text => return !([")", "]", "\x7d", ",", ";", ":", "?", "=", "=>", "."].contains text)
  | .word "in" | .word "of" | .word "instanceof" => return false
  | _ => return true

def yielding : Reader Syntax := do
  let begin ← start
  expectWord "yield"
  if ← accept "*" then
    let value ← self (.expression noIn)
    close .other begin [value]
  else if (← couldEnd true) || !(← startsOperand) then close .other begin []
  else
    let value ← self (.expression noIn)
    close .other begin [value]

def expression : Reader Syntax := do
  if ← atWord? "yield" then yielding self noIn
  else
    let condition ← binary self noIn 1
    if ← accept "?" then
      let yes ← self (.expression false)
      expect ":"
      let no ← self (.expression noIn)
      close .other condition.start [condition.as .condition, yes, no]
    else return condition

def sequenceFrom : (fuel : Nat) → List Syntax → Reader (List Syntax)
  | 0, _ => fail
  | fuel + 1, items => do
    if ← accept "," then
      let next ← self (.expression noIn)
      sequenceFrom fuel (next :: items)
    else return items.reverse

def sequence : Reader Syntax := do
  let first ← expression self noIn
  if ← at? "," then
    let items ← sequenceFrom self noIn (← size) [first]
    close .other first.start items
  else return first

end LeakTrace.Script
