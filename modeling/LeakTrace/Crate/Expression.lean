import LeakTrace.Crate.Pattern

namespace LeakTrace.Crate

open Reader

/-- How tightly an operator binds, from assignments to casts. -/
abbrev Level := Nat

namespace Level

def none : Level := 0
def assignment : Level := 1
def range : Level := 2
def comparison : Level := 6
def cast : Level := 13

end Level

/-- The operators between two operands; of two that share a start the longer one comes first. -/
def operatorTable : List (String × Level) :=
  [("+=", 1), ("-=", 1), ("*=", 1), ("/=", 1), ("%=", 1), ("^=", 1), ("&=", 1), ("|=", 1),
    ("<<=", 1), (">>=", 1), ("&&", 4), ("||", 3), ("<<", 10), (">>", 10), ("==", 6), ("<=", 6),
    ("!=", 6), (">=", 6), ("+", 11), ("-", 11), ("*", 12), ("/", 12), ("%", 12), ("^", 8), ("&", 9),
    ("|", 7), ("<", 6), (">", 6)]

section

variable (tokens : List Token)

def operator? : Option (String × Level) :=
  match tokens with
  | .mark .. :: _ => operatorTable.find? fun (text, _) => Ahead.mark text.toList tokens
  | _ => none

def assigns : Bool :=
  Ahead.mark ['='] tokens && !Ahead.mark ['=', '>'] tokens

def levelAhead : Level :=
  match operator? tokens with
  | some (_, level) => level
  | none =>
    if assigns tokens then .assignment
    else if Ahead.mark ['.', '.'] tokens then .range
    else if Ahead.word "as" tokens then .cast
    else .none

def endsRange (records : Bool) (tokens : List Token) : Bool :=
  tokens.isEmpty || !records && Ahead.group .brace tokens || Ahead.word "as" tokens ||
    Ahead.mark ['.'] tokens && !Ahead.mark ['.', '.'] tokens ||
    [",", ";", "?", "=>", "=", "+", "/", "%", "^", ">", "<=", "!=", "-=", "*=", "&=", "|=",
      "<<="].any fun marks => Ahead.mark marks.toList tokens

def startsExpression : Bool :=
  let mark (marks : String) : Bool := Ahead.mark marks.toList tokens
  Ahead.anyWord tokens || Ahead.anyGroup tokens || Ahead.literal tokens || Ahead.lifetime tokens ||
    mark "!" && !mark "!=" || mark "-" && !mark "-=" && !mark "->" || mark "*" && !mark "*=" ||
    mark "|" && !mark "|=" || mark "&" && !mark "&=" || mark ".." ||
    mark "<" && !mark "<=" && !mark "<<=" || mark "::" || mark "#"

end

namespace Expression

/-- An expression that the uniform tree shows as a whole. -/
def whole (begin : Nat) : Reader Syntax := close { kind := some .other } begin []

variable (self : Grammar) (records : Bool)

def operand (level : Level) : Reader Syntax := do
  let first ← self (.unary records)
  grow (← size) first
where
  grow : (fuel : Nat) → Syntax → Reader Syntax
    | 0, right => return right
    | fuel + 1, right => do
      let next := levelAhead (← ahead)
      if level < next || next = level && level = Level.assignment then
        let before ← stop
        let right ← self (.operators records next right)
        if (← stop) = before then return right else grow fuel right
      else return right

def rangeEnd : Reader (List Syntax) := do
  let tokens ← ahead
  let closed := Ahead.mark ['.', '.', '='] tokens
  if Ahead.mark ['.', '.', '.'] tokens then failure
  skip (if closed then 3 else 2)
  if !closed && endsRange records (← ahead) then return []
  return [← operand self records Level.range]

/-- A cast cannot be followed by something that would belong to its type. -/
def endsCast (tokens : List Token) : Bool :=
  !(Ahead.mark ['.'] tokens && !Ahead.mark ['.', '.'] tokens || Ahead.mark ['?'] tokens ||
    Ahead.group .bracket tokens || Ahead.group .paren tokens)

/-- Reads operators and their right operands as long as they bind at least as tightly as `level`. -/
def operators (level : Level) (left : Syntax) : Reader Syntax := do
  grow (← size) left
where
  grow : (fuel : Nat) → Syntax → Reader Syntax
    | 0, left => return left
    | fuel + 1, left => do
      let tokens ← ahead
      if left.form = .range then return left
      match operator? tokens with
      | some (text, own) =>
        if own < level then return left
        if own = Level.comparison && left.form = .comparison then failure
        skip text.length
        let right ← operand self records own
        let kind := if own = Level.assignment then Kind.assignment else Kind.binary
        let form := if own = Level.comparison then Form.comparison else Form.operation
        grow fuel (← close { kind := some kind, text := some text, form } left.start
          [left.as .left, right.as .right])
      | none =>
        if level ≤ Level.assignment && assigns tokens then
          skip 1
          let right ← operand self records Level.assignment
          grow fuel (← close { kind := some .assignment, text := some "=", form := .operation }
            left.start [left.as .left, right.as .right])
        else if level ≤ Level.range && Ahead.mark ['.', '.'] tokens then
          let upper ← rangeEnd self records
          grow fuel (← close { kind := some .other, form := .range } left.start (left :: upper))
        else if level ≤ Level.cast && Ahead.word "as" tokens then
          skip 1
          let _ ← self (.type false)
          if !endsCast (← ahead) then failure
          grow fuel (← close { form := .operation } left.start [left])
        else return left

def arguments (step : Nat) : Reader Syntax := do
  let (values, start, stop) ← inGroup .paren (do terminated (self (.expression true)) (← size) [])
  return .node { kind := some .arguments, role := some .arguments, step, limited := false }
    start stop values

/-- The invocation of a macro, from its exclamation mark on. What it is given is shown if it reads
as a list of expressions. -/
def invocation (begin : Nat) (path : PathShape) : Reader Syntax := do
  let style : Style :=
    { kind := some .identifier, role := some .function, text := some (path.text ++ "!"),
      limited := false }
  let called ← close style begin []
  expect "!"
  match ← take with
  | .group delimiter inner start stop =>
    let list : Reader (List Syntax) := do terminated (self (.expression true)) (← size) []
    let values := match list.run { rest := inner, stop := start } with
      | some (values, { rest := [], .. }) => values
      | _ => []
    let style : Style :=
      { kind := some .arguments, role := some .arguments, step := 2, limited := false }
    let arguments := .node style start stop values
    close { kind := some .call, form := .invocation (delimiter = .brace) } begin [called, arguments]
  | _ => failure

def position (digits : String) (start stop : Nat) : Syntax :=
  .node { kind := some .number, role := some .index, text := some digits, limited := false }
    start stop []

def positionDigits? (cs : List Char) : Option String :=
  match Literal.ofText cs with
  | .integer digits false =>
    if literalLength? cs.length cs = some cs.length then
      (Text.natBelow? Text.halfWordBound digits.toList).map fun _ => digits
    else none
  | _ => none

/-- Positions in nested tuples that look like one number with a point, such as those of `a.0.1`. -/
def positions (object : Syntax) (start : Nat) : List (List Char) → Option Syntax
  | [] => some object
  | part :: rest =>
    (positionDigits? part).bind fun digits =>
      let stop := start + Text.byteLength part
      positions (.node { kind := some .index } object.start stop
        [object.as .object, position digits start stop]) (stop + 1) rest

def fieldKey (role : Role) : Reader Syntax := do
  let begin ← start
  match ← ahead with
  | .literal (.integer digits false) _ _ _ :: _ =>
    if (Text.natBelow? Text.halfWordBound digits.toList).isNone then failure
    skip 1
    close { kind := some .number, role := some role, text := some digits, limited := false } begin []
  | _ => identifier (some role)

def member (object : Syntax) : Reader Syntax := do
  let tokens ← ahead
  match tokens with
  | .literal (.integer digits false) _ start stop :: _ =>
    if (Text.natBelow? Text.halfWordBound digits.toList).isNone then failure
    skip 1
    close { kind := some .index } object.start [object.as .object, position digits start stop]
  | _ =>
    if ← acceptWord "await" then close {} object.start [object]
    else
      let property ← identifier (some .property)
      let turbofish ← at? "::"
      if turbofish then
        expect "::"
        let _ ← self .arguments
      if turbofish || (← atGroup? .paren) then
        let callee := Syntax.covering .member false [object.as .object, property]
        let arguments ← arguments self 1
        close { kind := some .call } object.start [callee.as .function, arguments]
      else close { kind := some .member } object.start [object.as .object, property]

/-- Calls, members, positions and question marks behind an expression. -/
def trailers : (fuel : Nat) → Syntax → Reader Syntax
  | 0, _ => failure
  | fuel + 1, object => do
    let tokens ← ahead
    let isRange := object.form == .range
    if Ahead.group .paren tokens then
      let arguments ← arguments self 1
      trailers fuel
        (← close { kind := some .call } object.start [object.as .function, arguments])
    else if Ahead.mark ['.'] tokens && !Ahead.mark ['.', '.'] tokens && !isRange then
      skip 1
      match ← ahead with
      | .literal (.decimal _) written start _ :: _ =>
        skip 1
        let parts := Text.splitAt (· == '.') written.toList
        let pointed := parts.getLast? == some []
        match positions object start (if pointed then parts.dropLast else parts) with
        | some object =>
          if pointed then trailers fuel (← member self object) else trailers fuel object
        | none => failure
      | _ => trailers fuel (← member self object)
    else if Ahead.group .bracket tokens then
      let (index, _) ← inGroup .bracket (self (.expression true))
      trailers fuel
        (← close { kind := some .index } object.start [object.as .object, index.as .index])
    else if Ahead.mark ['?'] tokens && !isRange then
      skip 1
      trailers fuel (← close {} object.start [object])
    else return object

def field : Reader Syntax := do
  let begin ← start
  attributes self
  let keyStart ← start
  let key ← fieldKey .key
  let value ← if (← at? ":") || key.style.kind == some .number then
      expect ":"
      self (.expression true)
    else close { kind := some .identifier, text := key.text } keyStart []
  close { kind := some .pair, limited := false } begin [key, value.as .value]

def fields : (fuel : Nat) → List Syntax → Reader (List Syntax)
  | 0, _ => failure
  | fuel + 1, found => do
    if ← atEnd then return found.reverse
    if ← accept ".." then
      if ← atEnd then return found.reverse
      let rest ← self (.expression true)
      let spread := .node { kind := some .spread, limited := false } rest.start rest.stop [rest]
      return (spread :: found).reverse
    let next ← field self
    if ← atEnd then return (next :: found).reverse
    expect ","
    fields fuel (next :: found)

def ofPath : Reader Syntax := do
  let begin ← start
  let (qualified, path) ← qualifiedPath self true
  let tokens ← ahead
  if !qualified && Ahead.mark ['!'] tokens && !Ahead.mark ['!', '='] tokens && path.plain then
    invocation self begin path
  else if records && Ahead.group .brace tokens then
    let (found, _) ← inGroup .brace (do fields self (← size) [])
    close { kind := some .object, text := some path.last } begin found
  else close { kind := some .identifier, text := some path.text } begin []

def inParens : Reader Syntax := do
  let begin ← start
  let ((elements, tuple), _) ← inGroup .paren (do
    if ← atEnd then return ([], true)
    let first ← self (.expression true)
    if ← atEnd then return ([first], false)
    expect ","
    return (first :: (← terminated (self (.expression true)) (← size) []), true))
  if tuple then close { kind := some .array } begin elements else close {} begin elements

/-- An array given by its elements, or by one element and a length. -/
def inBrackets : Reader Syntax := do
  let begin ← start
  let ((elements, listed), _) ← inGroup .bracket (do
    if ← atEnd then return ([], true)
    let first ← self (.expression true)
    if ← atEnd then return ([first], true)
    if ← accept ";" then
      let _ ← self (.expression true)
      return ([], false)
    expect ","
    return (first :: (← terminated (self (.expression true)) (← size) []), true))
  if listed then close { kind := some .array } begin elements else whole begin

def closureParameter : Reader Syntax := do
  let begin ← start
  attributes self
  let inner ← self .pattern
  let pattern ← if ← accept ":" then
      let _ ← self (.type true)
      close {} begin [inner]
    else pure inner
  close { kind := some .parameter, role := some .parameters, limited := false } begin
    [pattern.as .name]

def closureParameters : (fuel : Nat) → List Syntax → Reader (List Syntax)
  | 0, _ => failure
  | fuel + 1, found => do
    if ← at? "|" then return found.reverse
    let next ← closureParameter self
    if ← at? "|" then return (next :: found).reverse
    expect ","
    closureParameters fuel (next :: found)

def closure : Reader Syntax := do
  let begin ← start
  let _ ← binder
  let _ ← acceptWord "const"
  let _ ← acceptWord "static"
  let _ ← acceptWord "async"
  let _ ← acceptWord "move"
  expect "|"
  let parameters ← closureParameters self (← size) []
  expect "|"
  let body ← if ← accept "->" then
      let _ ← self (.type true)
      let block ← self (.block false)
      close {} block.start [block]
    else self (.expression records)
  close { kind := some .function } begin (parameters ++ [body.as .body])

def letting : Reader Syntax := do
  let begin ← start
  expectWord "let"
  let pattern ← self .patterns
  expect "="
  let first ← self (.unary records)
  let value ← self (.operators records Level.comparison first)
  close { kind := some .parameter } begin [pattern.as .name, value.as .value]

def choice : (fuel : Nat) → Reader Syntax
  | 0 => failure
  | fuel + 1 => do
    let begin ← start
    expectWord "if"
    let condition ← self (.expression false)
    let body ← self (.block false)
    let parts := [condition.as .condition, body.as .body]
    if ← acceptWord "else" then
      let other ← if ← atWord? "if" then choice fuel
        else
          let block ← self (.block false)
          close {} block.start [block]
      close { kind := some .other, form := .closed } begin (parts ++ [other])
    else close { kind := some .other, form := .closed } begin parts

def arm : Reader Syntax := do
  let begin ← start
  attributes self
  let pattern ← self .patterns
  let binding : Syntax := .node { kind := some .parameter, limited := false } pattern.start
    pattern.stop [pattern.as .name]
  if ← acceptWord "if" then
    let _ ← self (.expression true)
  expect "=>"
  let body ← self .arm
  if !(← accept ",") then
    if body.form != .closed && !(← atEnd) then failure
  close { kind := some .other, limited := false } begin [binding, body.as .body]

def matching : Reader Syntax := do
  let begin ← start
  expectWord "match"
  let value ← self (.expression false)
  let (arms, _) ← inGroup .brace (do
    innerAttributes self
    untilEnd (arm self) (← size) [])
  close { kind := some .other, form := .closed } begin (value :: arms)

def loop (begin : Nat) : Reader Syntax := do
  if ← acceptWord "while" then
    let condition ← self (.expression false)
    let body ← self (.block true)
    close { kind := some .other, form := .closed } begin [condition.as .condition, body.as .body]
  else if ← acceptWord "for" then
    let pattern ← self .patterns
    let binding : Syntax := .node { kind := some .parameter, limited := false } pattern.start
      pattern.stop [pattern.as .name]
    expectWord "in"
    let values ← self (.expression false)
    let body ← self (.block true)
    close { kind := some .other, form := .closed } begin [values, binding, body.as .body]
  else
    let _ ← acceptWord "loop"
    close { form := .closed } begin [← self (.block true)]

def labelled : Reader Syntax := do
  let begin ← start
  lifetime
  expect ":"
  loop self begin

def outcome : Reader (List Syntax) := do
  let tokens ← ahead
  if startsExpression tokens && (records || !Ahead.group .brace tokens) then
    return [← self (.expression true)]
  else return []

def atom : Reader Syntax := do
  let begin ← start
  let tokens ← ahead
  let second := tokens.drop 1
  let third := tokens.drop 2
  if let .literal value _ _ _ :: _ := tokens then
    skip 1
    match value with
    | .string text | .characters text =>
      close { kind := some .string, text := some text, form := .literal } begin []
    | .integer digits _ | .decimal digits =>
      close { kind := some .number, text := some digits, form := .literal } begin []
    | .other => close { kind := some .other, form := .literal } begin []
  else if Ahead.oneOf ["true", "false"] tokens then
    let text ← anyWord
    close { kind := some .boolean, text := some text, form := .literal } begin []
  else if Ahead.word "async" tokens &&
      (Ahead.group .brace second || Ahead.word "move" second && Ahead.group .brace third) then
    skip 1
    let _ ← acceptWord "move"
    close {} begin [← self (.block false)]
  else if Ahead.word "try" tokens && Ahead.group .brace second then
    skip 1
    let _ ← self (.block false)
    close { kind := some .other, form := .closed } begin []
  else if Ahead.mark ['|'] tokens || Ahead.oneOf ["move", "static"] tokens ||
      Ahead.word "for" tokens && startsGenerics second ||
      Ahead.word "const" tokens && !Ahead.group .brace second ||
      Ahead.word "async" tokens && (Ahead.mark ['|'] second || Ahead.word "move" second) then
    closure self records
  else if Ahead.name tokens || Ahead.mark [':', ':'] tokens || Ahead.mark ['<'] tokens ||
      Ahead.oneOf pathWords tokens ||
      Ahead.word "try" tokens && (Ahead.mark ['!'] second || Ahead.mark [':', ':'] second) then
    ofPath self records
  else if Ahead.group .paren tokens then inParens self
  else if ← acceptWord "break" then
    let tokens ← ahead
    if Ahead.lifetime tokens then
      if Ahead.mark [':'] (tokens.drop 1) then failure
      skip 1
    let _ ← outcome self records
    whole begin
  else if ← acceptWord "continue" then
    if Ahead.lifetime (← ahead) then skip 1
    whole begin
  else if ← acceptWord "return" then
    let value ← outcome self true
    close { kind := some .ret } begin value
  else if ← acceptWord "become" then
    let _ ← self (.expression true)
    whole begin
  else if Ahead.group .bracket tokens then inBrackets self
  else if Ahead.word "let" tokens then letting self records
  else if Ahead.word "if" tokens then choice self (← size)
  else if Ahead.word "match" tokens then matching self
  else if ← acceptWord "yield" then
    let _ ← outcome self true
    whole begin
  else if Ahead.oneOf ["unsafe", "const"] tokens then
    skip 1
    close { form := .closed } begin [← self (.block true)]
  else if Ahead.oneOf ["while", "for", "loop"] tokens || Ahead.group .brace tokens then
    loop self begin
  else if Ahead.mark ['.', '.'] tokens then
    let upper ← rangeEnd self records
    close { kind := some .other, form := .range } begin upper
  else if ← acceptWord "_" then whole begin
  else if Ahead.lifetime tokens then labelled self
  else failure

def unary : Reader Syntax := do
  let begin ← start
  attributes self
  let inside ← start
  let tokens ← ahead
  if ← accept "&" then
    let tokens ← ahead
    let second := tokens.drop 1
    let raw := Ahead.word "raw" tokens && Ahead.oneOf ["mut", "const"] second
    if raw then skip 2
    else
      let _ ← acceptWord "mut"
    let inner ← self (.unary records)
    if raw then whole begin else close {} begin [inner]
  else if ← accept "*" then close {} begin [← self (.unary records)]
  else if Ahead.mark ['!'] tokens || Ahead.mark ['-'] tokens then
    skip 1
    let inner ← self (.unary records)
    close { kind := some .other } begin [inner]
  else
    let first ← atom self records
    let result ← trailers self (← size) first
    if begin < inside && result.form = .range then failure
    return result.withAttributes begin

/-- An expression that ends early if it ends with a block, as statements and the arms of a match
do. -/
def bounded : Reader Syntax := do
  let begin ← start
  attributes self
  let inside ← start
  let tokens ← ahead
  let second := tokens.drop 1
  let first ←
    if Ahead.word "if" tokens then choice self (← size)
    else if Ahead.oneOf ["while", "loop"] tokens ||
        Ahead.word "for" tokens && !startsGenerics second || Ahead.group .brace tokens then
      loop self inside
    else if Ahead.word "match" tokens then matching self
    else if Ahead.word "try" tokens && Ahead.group .brace second then atom self true
    else if Ahead.word "unsafe" tokens || Ahead.word "const" tokens && Ahead.group .brace second then
      skip 1
      close { form := .closed } inside [← self (.block true)]
    else if Ahead.lifetime tokens then labelled self
    else unary self true
  if first.form != .closed then
    self (.operators true Level.none (first.withAttributes begin))
  else
    let tokens ← ahead
    if Ahead.mark ['.'] tokens && !Ahead.mark ['.', '.'] tokens || Ahead.mark ['?'] tokens then
      let result ← trailers self (← size) first
      self (.operators true Level.none (result.withAttributes begin))
    else return first.withAttributes begin

def full : Reader Syntax := do
  let first ← self (.unary records)
  self (.operators records Level.none first)

end Expression

end LeakTrace.Crate
