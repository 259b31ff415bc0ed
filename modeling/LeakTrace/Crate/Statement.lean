import LeakTrace.Crate.Item

namespace LeakTrace.Crate

open Reader

namespace Statement

def empty : Syntax :=
  Syntax.covering .statement false [.node { kind := some .other } 0 0 []]

variable (self : Grammar)

def binding (begin : Nat) : Reader Syntax := do
  expectWord "let"
  let patternStart ← start
  let first ← self .pattern
  let pattern ← if ← accept ":" then
      let _ ← self (.type true)
      close {} patternStart [first]
    else pure first
  let value ← if ← accept "=" then
      let value ← self (.expression true)
      if !(← get).braced && (← acceptWord "else") then
        let _ ← self (.block false)
      pure [value.as .value]
    else pure []
  expect ";"
  let declaration ← close { kind := some .declaration, limited := false } begin
    (pattern.as .name :: value)
  return Syntax.covering .statement false [declaration]

def startsItem (tokens : List Token) : Bool :=
  let second := tokens.drop 1
  let third := tokens.drop 2
  Ahead.oneOf ["pub", "extern", "use", "fn", "mod", "type", "struct", "enum", "trait", "impl",
    "macro"] tokens ||
  Ahead.word "crate" tokens && !Ahead.mark [':', ':'] second ||
  Ahead.word "static" tokens && (Ahead.word "mut" second || Ahead.name second) ||
  Ahead.word "const" tokens && !(Ahead.group .brace second || Ahead.word "static" second ||
    Ahead.word "async" second && !Ahead.oneOf ["unsafe", "extern", "fn"] third ||
    Ahead.word "move" second || Ahead.mark ['|'] second) ||
  Ahead.word "unsafe" tokens && !Ahead.group .brace second ||
  Ahead.word "async" tokens && Ahead.oneOf ["unsafe", "extern", "fn"] second ||
  Ahead.word "union" tokens && Ahead.name second ||
  Ahead.word "auto" tokens && Ahead.word "trait" second ||
  Ahead.word "default" tokens && Ahead.oneOf ["unsafe", "impl"] second

inductive Invoking where
  | item | statement | expression
  deriving DecidableEq

def invoking : Reader Invoking := do
  match ← trying plainPath with
  | some (_, { rest := .mark '!' _ _ _ :: second, .. }) =>
    let third := second.drop 1
    if Ahead.name second || Ahead.word "try" second then return .item
    else if Ahead.group .brace second && !(Ahead.mark ['.'] third && !Ahead.mark ['.', '.'] third ||
        Ahead.mark ['?'] third) then return .statement
    else return .expression
  | _ => return .expression

def invocation (begin : Nat) : Reader Syntax := do
  let pathStart ← start
  let path ← plainPath
  let call ← Expression.invocation self pathStart path
  let _ ← accept ";"
  return Syntax.covering .statement false [(call.withAttributes begin).asStatement (← stop)]

/-- A statement, and whether another one may follow it. -/
def one : Reader (Syntax × Bool) := do
  let begin ← start
  attributes self
  let invoked ← invoking
  let tokens ← ahead
  if invoked = .statement then return (← invocation self begin, true)
  else if Ahead.word "let" tokens then return (← binding self begin, true)
  else if startsItem tokens || invoked = .item then return (← itemAfter self begin, true)
  else
    let value := (← Expression.bounded self).withAttributes begin
    let ended ← accept ";"
    match value.form with
    | .invocation braced =>
      if ended || braced then
        return (Syntax.covering .statement false [value.asStatement (← stop)], true)
      else return (Syntax.covering .statement false [value], false)
    | form => return (Syntax.covering .statement false [value], ended || form == .closed)

def all : (fuel : Nat) → List Syntax → Reader (List Syntax)
  | 0, _ => failure
  | fuel + 1, found => do
    if ← atEnd then return found.reverse
    if ← accept ";" then all fuel (empty :: found)
    else
      let (next, more) ← one self
      if !more && !(← atEnd) then failure
      all fuel (next :: found)

end Statement

def block (self : Grammar) (attributes : Bool) : Reader Syntax := do
  let (statements, start, stop) ← inGroup .brace (do
    if attributes then innerAttributes self
    Statement.all self (← size) [])
  return .node { kind := some .block } start stop statements

def grammar : (depth : Nat) → Grammar
  | 0 => fun _ => failure
  | depth + 1 => fun goal =>
    let self := grammar depth
    match goal with
    | .arguments => genericArguments self
    | .type more => type self more
    | .pattern => pattern self
    | .patterns => patterns self
    | .expression records => Expression.full self records
    | .unary records => Expression.unary self records
    | .operators records level left => Expression.operators self records level left
    | .arm => Expression.bounded self
    | .block attributes => block self attributes
    | .item => item self

end LeakTrace.Crate
