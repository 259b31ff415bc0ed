import LeakTrace.Crate.Expression

namespace LeakTrace.Crate

open Reader

namespace Item

def hidden (begin : Nat) : Reader Syntax := close {} begin []

def visibility : Reader Bool := do
  if !(← acceptWord "pub") then return false
  match ← ahead with
  | .group .paren inner _ _ :: _ =>
    if Ahead.oneOf ["crate", "self", "super"] inner then
      if inner.length = 1 then skip 1
    else if Ahead.word "in" inner then
      let _ ← inGroup .paren (do
        skip 1
        let _ ← plainPath)
  | _ => return true
  return true

def startsFunction (tokens : List Token) : Bool :=
  let pass (text : String) (tokens : List Token) : List Token :=
    if Ahead.word text tokens then tokens.drop 1 else tokens
  let tokens := pass "unsafe" (pass "async" (pass "const" tokens))
  let tokens := if Ahead.word "extern" tokens then
      if Ahead.string (tokens.drop 1) then tokens.drop 2 else tokens.drop 1
    else tokens
  Ahead.word "fn" tokens

section

variable (self : Grammar)

def receiver : Reader Syntax := do
  let reference ← accept "&"
  if reference && Ahead.lifetime (← ahead) then skip 1
  let _ ← acceptWord "mut"
  let begin ← start
  expectWord "self"
  let style : Style :=
    { kind := some .identifier, role := some .name, text := some "self", limited := false }
  let this ← close style begin []
  if !reference && (← accept ":") then
    let _ ← self (.type true)
  return this

/-- A parameter of a function; nothing for the mark of a variable number of them. -/
def parameter (first : Bool) : Reader (Option Syntax) := do
  let begin ← start
  let style : Style := { kind := some .parameter, role := some .parameters, limited := false }
  attributes self
  if ← accept "..." then return none
  match ← trying (receiver self) with
  | some (this, place) =>
    if !first then failure
    set place
    return some (← close style begin [this])
  | none =>
    let tokens ← ahead
    if Ahead.name tokens && Ahead.mark ['<'] (tokens.drop 1) then
      let nameStop := (tokens.head?.map Token.stop).getD begin
      let type ← self (.type true)
      let unnamed : Syntax := .node { kind := some .other, role := some .name } type.start nameStop []
      return some (← close style begin [unnamed])
    let pattern ← self .pattern
    expect ":"
    if ← accept "..." then return none
    let _ ← self (.type true)
    return some (← close style begin [pattern.as .name])

def parameters : (fuel : Nat) → List Syntax → Reader (List Syntax)
  | 0, _ => failure
  | fuel + 1, found => do
    if ← atEnd then return found.reverse
    match ← parameter self found.isEmpty with
    | none =>
      let _ ← accept ","
      return found.reverse
    | some next =>
      if ← atEnd then return (next :: found).reverse
      expect ","
      parameters fuel (next :: found)

def signature : Reader (List Syntax) := do
  let _ ← acceptWord "const"
  let _ ← acceptWord "async"
  let _ ← acceptWord "unsafe"
  foreignCalling
  expectWord "fn"
  let name ← identifier (some .name)
  let _ ← generics self
  let (parameters, _) ← inGroup .paren (do parameters self (← size) [])
  returnType self true
  let _ ← whereClause self
  return name :: parameters

/-- A function from its head on; without a body it is not shown. -/
def function (begin : Nat) (limited : Bool) : Reader Syntax := do
  let head ← signature self
  if ← accept ";" then hidden begin
  else
    let body ← self (.block true)
    close { kind := some .function, limited } begin (head ++ [body.as .body])

def body (start stop : Nat) (parts : List Syntax) : Syntax :=
  .node { kind := some .block, role := some .body, limited := false } start stop parts

def associatedConstant (begin : Nat) : Reader Syntax := do
  expectWord "const"
  if !(← acceptWord "_") then
    let _ ← name
  let _ ← generics self
  expect ":"
  let _ ← self (.type true)
  if ← accept "=" then
    let _ ← self (.expression true)
  let _ ← whereClause self
  expect ";"
  hidden begin

/-- The name of another type, perhaps with bounds. `early` and `late` say where its conditions may
stand. -/
def typeAlias (begin : Nat) (early late : Bool) : Reader Syntax := do
  expectWord "type"
  let _ ← name
  let _ ← generics self
  if ← accept ":" then
    separated "+" (fun tokens => Ahead.word "where" tokens || Ahead.mark ['='] tokens ||
      Ahead.mark [';'] tokens) (do let _ ← bound self false)
  let conditions ← if early then whereClause self else pure false
  if ← accept "=" then
    let _ ← self (.type true)
  if late && !conditions then
    let _ ← whereClause self
  expect ";"
  hidden begin

end

def startsInvocation (tokens : List Token) : Bool :=
  Ahead.name tokens || Ahead.oneOf ["self", "super", "crate"] tokens ||
    Ahead.mark [':', ':'] tokens

def hiddenInvocation (begin : Nat) : Reader Syntax := do
  let _ ← plainPath
  expect "!"
  if !Ahead.anyGroup (← ahead) then failure
  skip 1
  if !(← get).braced then expect ";"
  hidden begin

section

variable (self : Grammar)

def method : Reader Syntax := do
  let begin ← start
  attributes self
  let visible ← visibility
  let tokens ← ahead
  let preset := Ahead.word "default" tokens && !Ahead.mark ['!'] (tokens.drop 1)
  if preset then skip 1
  let tokens ← ahead
  if startsFunction tokens then function self begin false
  else if Ahead.word "const" tokens then associatedConstant self begin
  else if Ahead.word "type" tokens then typeAlias self begin false true
  else if !visible && !preset && startsInvocation tokens then hiddenInvocation begin
  else failure

def traitMethod : Reader Syntax := do
  let begin ← start
  attributes self
  let visible ← visibility
  let preset ← acceptWord "default"
  let tokens ← ahead
  if startsFunction tokens then
    let shown ← function self begin false
    if visible || preset then hidden begin else return shown
  else if Ahead.word "const" tokens then associatedConstant self begin
  else if Ahead.word "type" tokens then typeAlias self begin false true
  else if !visible && !preset && startsInvocation tokens then hiddenInvocation begin
  else failure

variable (begin : Nat)

/-- An implementation of a trait or for a type, shown as a class. -/
def implementation (visible : Bool) : Reader Syntax := do
  let _ ← acceptWord "default"
  let _ ← acceptWord "unsafe"
  expectWord "impl"
  if startsGenerics (← ahead) then
    let _ ← generics self
  let tokens ← ahead
  let constant := Ahead.word "const" tokens ||
    Ahead.mark ['?'] tokens && Ahead.word "const" (tokens.drop 1)
  if constant then
    let _ ← accept "?"
    skip 1
  let tokens ← ahead
  let negative := Ahead.mark ['!'] tokens && !Ahead.group .brace (tokens.drop 1)
  if negative then skip 1
  let (first, firstName) ← named
  let forType ← acceptWord "for"
  if negative && !forType then failure
  let (type, typeName) ← if forType then named else pure (first, firstName)
  let _ ← whereClause self
  let (methods, start, stop) ← inGroup .brace (do
    innerAttributes self
    untilEnd (method self) (← size) [])
  let isTrait := match first.form with
    | .typePath qualified _ => !qualified
    | _ => false
  if visible || constant || forType && !isTrait then hidden begin
  else
    let name := .node { kind := some .identifier, role := some .name, text := some typeName,
                        limited := false } type.start type.stop []
    close { kind := some .classDecl } begin [name, body start stop methods]
where
  /-- A type with the text that names it: its last name, or all of its tokens. -/
  named : Reader (Syntax × String) := do
    let before ← ahead
    let type ← self (.type true)
    let tokens := before.take (before.length - (← ahead).length)
    return (type, type.text.getD (Token.texts tokens))

/-- A trait, shown as a class, or another name for bounds, which is not shown. -/
def trait : Reader Syntax := do
  let unsafely ← acceptWord "unsafe"
  let auto ← acceptWord "auto"
  expectWord "trait"
  let name ← identifier (some .name)
  let _ ← generics self
  if !unsafely && !auto && (← accept "=") then
    separated "+" (fun tokens => Ahead.word "where" tokens || Ahead.mark [';'] tokens)
      (do let _ ← bound self false)
    let _ ← whereClause self
    expect ";"
    hidden begin
  else
    if ← accept ":" then
      separated "+" (fun tokens => Ahead.word "where" tokens || Ahead.group .brace tokens)
        (do let _ ← bound self false)
    let _ ← whereClause self
    let (methods, start, stop) ← inGroup .brace (do
      innerAttributes self
      untilEnd (traitMethod self) (← size) [])
    close { kind := some .classDecl } begin [name, body start stop methods]

def module : Reader Syntax := do
  let _ ← acceptWord "unsafe"
  expectWord "mod"
  if !(← acceptWord "try") then
    let _ ← name
  if ← accept ";" then hidden begin
  else
    let (items, _) ← inGroup .brace (do
      innerAttributes self
      untilEnd (self .item) (← size) [])
    close { kind := some .block } begin items

def declaration (name value : Syntax) : Reader Syntax := do
  let inner ← close { kind := some .declaration, limited := false } begin
    [name.as .name, value.as .value]
  return Syntax.covering .statement true [inner]

def constantItem : Reader Syntax := do
  expectWord "const"
  let nameStart ← start
  let text ← if ← atWord? "_" then anyWord else name
  let name ← close { kind := some .identifier, text := some text, limited := false } nameStart []
  let generic ← generics self
  expect ":"
  let _ ← self (.type true)
  let value ← if ← accept "=" then some <$> self (.expression true) else pure none
  let conditions ← whereClause self
  expect ";"
  match value with
  | some value => if generic || conditions then hidden begin else declaration begin name value
  | none => hidden begin

def staticItem : Reader Syntax := do
  expectWord "static"
  let _ ← acceptWord "mut"
  let name ← identifier none
  let typed ← accept ":"
  if typed then
    let _ ← self (.type true)
  if typed && (← accept ";") then hidden begin
  else
    expect "="
    let value ← self (.expression true)
    expect ";"
    if typed then declaration begin name value else hidden begin

def invocation : Reader Syntax := do
  let pathStart ← start
  let path ← plainPath
  let pathStop ← stop
  expect "!"
  let tokens ← ahead
  if Ahead.word "try" tokens || Ahead.name tokens then skip 1
  let place ← get
  set { place with rest := .mark '!' false pathStop pathStop :: place.rest, stop := pathStop }
  let call ← Expression.invocation self pathStart path
  if !(← get).braced then expect ";"
  let call := (call.withAttributes begin).asStatement (← stop)
  return Syntax.covering .statement true [call]

def namedFields : Reader Unit := do
  let _ ← inGroup .brace (do
    terminated (do
      attributes self
      let _ ← visibility
      if !(← acceptWord "_") then
        let _ ← name
      expect ":"
      self (.type true)) (← size) [])

def orderedFields : Reader Unit := do
  let _ ← inGroup .paren (do
    terminated (do
      attributes self
      let _ ← visibility
      self (.type true)) (← size) [])

def structItem : Reader Syntax := do
  expectWord "struct"
  let _ ← name
  let _ ← generics self
  let conditions ← whereClause self
  if !conditions && (← atGroup? .paren) then
    orderedFields self
    let _ ← whereClause self
    expect ";"
  else if ← atGroup? .brace then namedFields self
  else expect ";"
  hidden begin

def enumItem : Reader Syntax := do
  expectWord "enum"
  let _ ← name
  let _ ← generics self
  let _ ← whereClause self
  let _ ← inGroup .brace (do
    terminated (do
      attributes self
      let _ ← visibility
      let _ ← name
      if ← atGroup? .brace then namedFields self
      else if ← atGroup? .paren then orderedFields self
      if ← accept "=" then self (.expression true) else return default) (← size) [])
  hidden begin

def unionItem : Reader Syntax := do
  expectWord "union"
  let _ ← name
  let _ ← generics self
  let _ ← whereClause self
  namedFields self
  hidden begin

end

def useTree : (depth : Nat) → Reader Syntax
  | 0 => failure
  | depth + 1 => do
    let _ ← accept "::"
    let tokens ← ahead
    if Ahead.name tokens || Ahead.oneOf ["self", "super", "crate", "try"] tokens then
      skip 1
      if ← at? "::" then
        skip 2
        useTree depth
      else
        if ← acceptWord "as" then
          if !(← acceptWord "_") then
            let _ ← name
        return default
    else if ← accept "*" then return default
    else
      let _ ← inGroup .brace (do terminated (useTree depth) (← size) [])
      return default

def useItem (begin : Nat) : Reader Syntax := do
  expectWord "use"
  let _ ← useTree (← size)
  expect ";"
  hidden begin

def externCrate (begin : Nat) : Reader Syntax := do
  expectWord "extern"
  expectWord "crate"
  if !(← acceptWord "self") then
    let _ ← name
  if ← acceptWord "as" then
    if !(← acceptWord "_") then
      let _ ← name
  expect ";"
  hidden begin

def foreignItem (self : Grammar) : Reader Syntax := do
  let begin ← start
  attributes self
  let visible ← visibility
  let tokens ← ahead
  let safe := Ahead.word "safe" tokens && Ahead.anyWord (tokens.drop 1)
  if safe then skip 1
  let tokens ← ahead
  if startsFunction tokens then function self begin false
  else if Ahead.word "static" tokens || Ahead.word "unsafe" tokens then
    let _ ← acceptWord "unsafe"
    expectWord "static"
    let _ ← acceptWord "mut"
    let _ ← name
    expect ":"
    let _ ← self (.type true)
    if ← accept "=" then
      let _ ← self (.expression true)
    expect ";"
    hidden begin
  else if Ahead.word "type" tokens then typeAlias self begin true true
  else if !visible && startsInvocation tokens then hiddenInvocation begin
  else failure

def foreignItems (self : Grammar) (begin : Nat) : Reader Syntax := do
  let _ ← acceptWord "unsafe"
  foreignCalling
  let _ ← inGroup .brace (do
    innerAttributes self
    untilEnd (foreignItem self) (← size) [])
  hidden begin

def macroItem (begin : Nat) : Reader Syntax := do
  expectWord "macro"
  let _ ← name
  if ← atGroup? .paren then skip 1
  if !(← atGroup? .brace) then failure
  skip 1
  hidden begin

end Item

open Item in
def itemAfter (self : Grammar) (begin : Nat) : Reader Syntax := do
  let visible ← visibility
  let tokens ← ahead
  let second := tokens.drop 1
  let third := tokens.drop 2
  if startsFunction tokens then function self begin true
  else if Ahead.word "extern" tokens then
    if Ahead.word "crate" second then externCrate begin else foreignItems self begin
  else if Ahead.word "use" tokens then useItem begin
  else if Ahead.word "static" tokens then staticItem self begin
  else if Ahead.word "const" tokens then constantItem self begin
  else if Ahead.word "unsafe" tokens then
    if Ahead.word "trait" second || Ahead.word "auto" second && Ahead.word "trait" third then
      trait self begin
    else if Ahead.word "impl" second then implementation self begin visible
    else if Ahead.word "extern" second then foreignItems self begin
    else module self begin
  else if Ahead.word "mod" tokens then module self begin
  else if Ahead.word "type" tokens then typeAlias self begin true false
  else if Ahead.word "struct" tokens then structItem self begin
  else if Ahead.word "enum" tokens then enumItem self begin
  else if Ahead.word "union" tokens && Ahead.name second then unionItem self begin
  else if Ahead.word "trait" tokens || Ahead.word "auto" tokens && Ahead.word "trait" second then
    trait self begin
  else if Ahead.word "impl" tokens || Ahead.word "default" tokens && !Ahead.mark ['!'] second then
    implementation self begin visible
  else if Ahead.word "macro" tokens then macroItem begin
  else if !visible && startsInvocation tokens then invocation self begin
  else failure

def item (self : Grammar) : Reader Syntax := do
  let begin ← start
  attributes self
  itemAfter self begin

end LeakTrace.Crate
