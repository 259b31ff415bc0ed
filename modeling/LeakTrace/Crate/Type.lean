import LeakTrace.Crate.Reader

namespace LeakTrace.Crate

open Reader

/-- A path as far as the grammar and the uniform tree ask for it. -/
structure PathShape where
  names : List String
  plain : Bool := true
  bare : Bool := true
  leading : Bool := false

namespace PathShape

def text (path : PathShape) : String := "::".intercalate path.names.reverse

def last (path : PathShape) : String := path.names.head?.getD ""

end PathShape

def pathWords : List String := ["super", "self", "Self", "crate"]

def plainPath : Reader PathShape := do
  let leading ← accept "::"
  let size ← size
  let rec names : (fuel : Nat) → List String → Reader (List String)
    | 0, _ => failure
    | fuel + 1, found => do
      let tokens ← ahead
      if !(Ahead.name tokens || Ahead.oneOf pathWords tokens) then failure
      let next ← anyWord
      if ← accept "::" then names fuel (next :: found) else return next :: found
  return { names := ← names size [], leading }

section

variable (self : Grammar)

/-- A path. In an expression its arguments need two colons before them. -/
def path (inExpression : Bool) : Reader PathShape := do
  let leading ← accept "::"
  let (text, arguments) ← segment
  let first : PathShape := { names := [text], plain := !arguments, bare := !arguments, leading }
  more first (← size)
where
  segment : Reader (String × Bool) := do
    let tokens ← ahead
    if Ahead.oneOf ["super", "self", "crate", "try"] tokens then return (← anyWord, false)
    let text ← if Ahead.word "Self" tokens then anyWord else name
    let tokens ← ahead
    if !inExpression && Ahead.mark ['<'] tokens && !Ahead.mark ['<', '='] tokens ||
        Ahead.mark [':', ':'] tokens && Ahead.mark ['<'] (tokens.drop 2) then
      let _ ← self .arguments
      return (text, true)
    else return (text, false)
  more (found : PathShape) : (fuel : Nat) → Reader PathShape
    | 0 => failure
    | fuel + 1 => do
      let tokens ← ahead
      if Ahead.mark [':', ':'] tokens && !Ahead.group .paren (tokens.drop 2) then
        skip 2
        let (text, arguments) ← segment
        more { found with
          names := text :: found.names, plain := found.plain && !arguments, bare := !arguments } fuel
      else return found

def attributeBody : Reader Unit := do
  if !(← acceptWord "unsafe") then
    let _ ← plainPath
  if Ahead.anyGroup (← ahead) then skip 1
  else if ← accept "=" then
    let _ ← self (.expression true)

def attributes : Reader Unit := do
  repeating (do
    if ← accept "#" then
      let _ ← inGroup .bracket (attributeBody self)
      return true
    else return false) (← size)

def innerAttributes : Reader Unit := do
  repeating (do
    let tokens ← ahead
    if Ahead.mark ['#'] tokens && Ahead.mark ['!'] (tokens.drop 1) then
      skip 2
      let _ ← inGroup .bracket (attributeBody self)
      return true
    else return false) (← size)

def constant : Reader Unit := do
  let tokens ← ahead
  if Ahead.literal tokens then skip (if Ahead.mark ['-'] tokens then 2 else 1)
  else
    let _ ← self (.block true)

def lifetimeBounds (finished : List Token → Bool) : Reader Unit := separated "+" finished lifetime

def binder : Reader Bool := do
  if ← acceptWord "for" then
    expect "<"
    separated "," (Ahead.mark ['>']) lifetime
    expect ">"
    return true
  else return false

def returnType (bounds : Bool) : Reader Unit := do
  if ← accept "->" then
    let _ ← self (.type bounds)

def parenthesized : Reader Unit := do
  let _ ← accept "::"
  let _ ← inGroup .paren (do terminated (self (.type true)) (← size) [])
  returnType self false

def parensFollow (tokens : List Token) : Bool :=
  Ahead.group .paren tokens ||
    Ahead.mark [':', ':'] tokens && Ahead.group .paren (tokens.drop 2)

def endsBounds (tokens : List Token) : Bool :=
  tokens.isEmpty || Ahead.group .brace tokens || Ahead.mark [','] tokens ||
    Ahead.mark [';'] tokens || Ahead.mark ['='] tokens || Ahead.mark ['>'] tokens ||
    Ahead.mark [':'] tokens && !Ahead.mark [':', ':'] tokens

/-- A bound of a type. Tells whether it is a trait. -/
def bound (captures : Bool) : Reader Bool := do
  let tokens ← ahead
  if Ahead.lifetime tokens then
    skip 1
    return false
  else if Ahead.word "use" tokens then
    if !captures then failure
    skip 1
    expect "<"
    separated "," (Ahead.mark ['>']) (do
      if Ahead.lifetime (← ahead) then skip 1
      else if !(← acceptWord "Self") then
        let _ ← name)
    expect ">"
    return true
  else if Ahead.group .paren tokens then
    let _ ← inGroup .paren trait
    return true
  else
    trait
    return true
where
  trait : Reader Unit := do
    let _ ← binder
    if ← atGroup? .bracket then
      let _ ← inGroup .bracket (expectWord "const")
    else
      let _ ← accept "~"
      let _ ← acceptWord "const"
    if ← accept "?" then
      let _ ← binder
    let found ← path self false
    if found.bare && parensFollow (← ahead) then parenthesized self

def startsBound (tokens : List Token) : Bool :=
  Ahead.anyWord tokens || Ahead.mark [':', ':'] tokens || Ahead.mark ['?'] tokens ||
    Ahead.lifetime tokens || Ahead.group .paren tokens

def bounds (more captures : Bool) : Reader Unit := do
  let size ← size
  let rec go (found : Bool) : (fuel : Nat) → Reader Unit
    | 0 => failure
    | fuel + 1 => do
      let isTrait ← bound self captures
      if more && (← accept "+") && startsBound (← ahead) then go (found || isTrait) fuel
      else if !(found || isTrait) then failure
  go false size

def genericArgument : Reader Unit := do
  let tokens ← ahead
  if Ahead.lifetime tokens && !Ahead.mark ['+'] (tokens.drop 1) then skip 1
  else if Ahead.literal tokens || Ahead.group .brace tokens then constant self
  else
    let argument ← self (.type true)
    if argument.form = .typePath false true then
      if ← accept "=" then
        let tokens ← ahead
        if Ahead.literal tokens || Ahead.group .brace tokens then constant self
        else
          let _ ← self (.type true)
      else if ← accept ":" then
        separated "+" (fun tokens => Ahead.mark [','] tokens || Ahead.mark ['>'] tokens)
          (do let _ ← bound self false)

def genericArguments : Reader Syntax := do
  let _ ← accept "::"
  expect "<"
  separated "," (Ahead.mark ['>']) (genericArgument self)
  expect ">"
  return default

/-- A path that may start with a type in angle brackets. Tells whether it does. -/
def qualifiedPath (inExpression : Bool) : Reader (Bool × PathShape) := do
  if ← accept "<" then
    let _ ← self (.type true)
    let trait ← if ← acceptWord "as" then path self false else pure { names := [] }
    expect ">"
    expect "::"
    let (text, arguments) ← path.segment self inExpression
    let first : PathShape := { names := text :: trait.names, plain := false, bare := !arguments }
    return (true, ← rest first (← size))
  else return (false, ← path self inExpression)
where
  rest (found : PathShape) : (fuel : Nat) → Reader PathShape
    | 0 => failure
    | fuel + 1 => do
      if ← accept "::" then
        let (text, arguments) ← path.segment self inExpression
        rest { found with names := text :: found.names, bare := !arguments } fuel
      else return found

def pathType : Reader (Bool × Bool × PathShape) := do
  let (qualified, found) ← qualifiedPath self false
  if found.bare && parensFollow (← ahead) then
    parenthesized self
    let rest ← path.more self false found (← size)
    return (qualified, true, rest)
  else return (qualified, false, found)

def functionParameters : Reader Unit := do
  let _ ← inGroup .paren (do
    terminated (do
      attributes self
      if ← accept "..." then return default
      let tokens ← ahead
      if (Ahead.name tokens || Ahead.oneOf ["_", "self"] tokens) &&
          Ahead.mark [':'] (tokens.drop 1) && !Ahead.mark [':', ':'] (tokens.drop 1) then
        skip 2
        if ← accept "..." then return default
      else if Ahead.word "mut" tokens && Ahead.word "self" (tokens.drop 1) then
        skip 2
        expect ":"
      self (.type true)) (← size) [])
  returnType self false

def foreignCalling : Reader Unit := do
  if ← acceptWord "extern" then
    if Ahead.string (← ahead) then skip 1

def typeInParens (more : Bool) : Reader Unit := do
  let (isTrait, _) ← inGroup .paren (do
    let tokens ← ahead
    if tokens.isEmpty then return false
    if Ahead.lifetime tokens then
      bounds self true false
      return false
    if Ahead.mark ['?'] tokens then
      let _ ← bound self false
      return true
    let first ← self (.type true)
    if ← accept "," then
      let _ ← terminated (self (.type true)) (← size) []
      return false
    else return match first.form with
      | .typePath qualified _ => !qualified
      | _ => false)
  if isTrait && more then
    repeating (do
      if ← accept "+" then
        let _ ← bound self false
        return true
      else return false) (← size)

/-- A type. With `more`, bounds may follow it after plus signs. -/
def type (more : Bool) : Reader Syntax := do
  let begin ← start
  let bound? ← binder
  let tokens ← ahead
  if bound? && !(Ahead.name tokens || Ahead.oneOf ("fn" :: "unsafe" :: "extern" :: pathWords) tokens)
    then failure
  let (form, text) ← read bound? tokens
  close { form, text } begin []
where
  read (bound? : Bool) (tokens : List Token) : Reader (Form × Option String) := do
    if Ahead.group .paren tokens then
      typeInParens self more
      return (.plain, none)
    else if Ahead.oneOf ["fn", "unsafe", "extern"] tokens then
      let _ ← acceptWord "unsafe"
      foreignCalling
      expectWord "fn"
      functionParameters self
      return (.plain, none)
    else if Ahead.name tokens || Ahead.oneOf pathWords tokens || Ahead.mark [':', ':'] tokens ||
        Ahead.mark ['<'] tokens then
      named bound?
    else if ← acceptWord "dyn" then
      let _ ← accept "*"
      bounds self more false
      return (.plain, none)
    else if Ahead.group .bracket tokens then
      let _ ← inGroup .bracket (do
        let _ ← self (.type true)
        if ← accept ";" then
          let _ ← self (.expression true))
      return (.plain, none)
    else if ← accept "*" then
      if !(← acceptWord "const") then expectWord "mut"
      let _ ← self (.type false)
      return (.plain, none)
    else if ← accept "&" then
      if Ahead.lifetime (← ahead) then skip 1
      let _ ← acceptWord "mut"
      let _ ← self (.type false)
      return (.plain, none)
    else if Ahead.mark ['!'] tokens && !Ahead.mark ['='] (tokens.drop 1) then
      skip 1
      return (.plain, none)
    else if ← acceptWord "impl" then
      bounds self more true
      return (.plain, none)
    else if ← acceptWord "_" then return (.plain, none)
    else if Ahead.lifetime tokens then
      bounds self true false
      return (.plain, none)
    else failure
  named (bound? : Bool) : Reader (Form × Option String) := do
    let (qualified, applied, found) ← pathType self
    if qualified then return (.typePath true false, some found.last)
    let tokens ← ahead
    if Ahead.mark ['!'] tokens && !Ahead.mark ['!', '='] tokens && found.plain && !applied then
      skip 1
      if !Ahead.anyGroup (← ahead) then failure
      skip 1
      return (.plain, none)
    if bound? || more && Ahead.mark ['+'] tokens then
      if more then
        repeating (do
          if ← accept "+" then
            if startsBound (← ahead) then
              let _ ← bound self false
              return true
          return false) (← size)
      return (.plain, none)
    let simple := !found.leading && !applied && found.names.length == 1
    return (.typePath false simple, some found.last)

def generics : Reader Bool := do
  if !(← accept "<") then return false
  separated "," (Ahead.mark ['>']) (do
    attributes self
    let tokens ← ahead
    if Ahead.lifetime tokens then
      skip 1
      if ← accept ":" then lifetimeBounds endsBounds
    else if ← acceptWord "const" then
      let _ ← name
      expect ":"
      let _ ← self (.type true)
      if ← accept "=" then constant self
    else if ← acceptWord "_" then return
    else
      let _ ← name
      if ← accept ":" then separated "+" endsBounds (do let _ ← bound self false)
      if ← accept "=" then
        let _ ← self (.type true))
  expect ">"
  return true

def whereClause : Reader Bool := do
  if !(← acceptWord "where") then return false
  separated "," endsBounds (do
    let tokens ← ahead
    if Ahead.lifetime tokens && Ahead.mark [':'] (tokens.drop 1) then
      skip 2
      lifetimeBounds endsBounds
    else
      let _ ← binder
      let _ ← self (.type true)
      expect ":"
      separated "+" endsBounds (do let _ ← bound self false))
  return true

end

def startsGenerics (tokens : List Token) : Bool :=
  let second := tokens.drop 1
  let third := tokens.drop 2
  Ahead.mark ['<'] tokens &&
    (Ahead.mark ['>'] second || Ahead.mark ['#'] second || Ahead.word "const" second ||
      (Ahead.lifetime second || Ahead.name second) &&
        (Ahead.mark ['>'] third || Ahead.mark [','] third || Ahead.mark ['='] third ||
          Ahead.mark [':'] third && !Ahead.mark [':', ':'] third))

end LeakTrace.Crate
