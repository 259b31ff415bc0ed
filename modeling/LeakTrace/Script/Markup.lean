import LeakTrace.Script.Definition

namespace LeakTrace.Script

open Reader

def goRaw (rest : List Char) (stop : Nat) : Reader Unit :=
  modify fun cursor => Cursor.place cursor.size cursor.faults rest stop cursor.comments

/-- Passes the given characters at the token ahead, which may be the start of a longer token. -/
def expectRaw (text : List Char) : Reader Unit := do
  let cursor ← get
  match Text.after? text cursor.ahead with
  | some rest => set (cursor.jump rest (cursor.start + text.length))
  | none => fail

def startsRaw (text : List Char) : Reader Bool := do
  return Text.startsWith text (← get).ahead

def isTagPart (c : Char) : Bool :=
  Letter.isAsciiLetter c || Letter.isAsciiDigit c || c == '_' || c == '$' || c == '-'

def tagName : Reader Syntax := do
  let cursor ← get
  match cursor.token with
  | .word _ =>
    match cursor.tokenRest with
    | '-' :: _ =>
      let more := cursor.tokenRest.takeWhile isTagPart
      let stop := cursor.tokenStop + more.length
      set (cursor.jump (cursor.tokenRest.drop more.length) stop)
      return Syntax.leaf .name cursor.start stop
    | _ => leaf .name
  | _ => fail

def elementName : Reader Syntax := do
  let name ← tagName
  if ← accept ":" then
    let inner ← tagName
    close .other name.start [name, inner]
  else dotted (← size) name

def attributeText : Reader Syntax := do
  let cursor ← get
  match cursor.ahead with
  | quote :: rest =>
    let body := rest.takeWhile (· != quote)
    match rest.drop body.length with
    | _ :: after =>
      let stop := cursor.start + 2 + Text.byteLength body
      set (cursor.jump after stop)
      return Syntax.leaf .string cursor.start stop
    | [] => fail
  | [] => fail

variable (self : Grammar)

/-- An expression in braces, which may be left out. The place behind it is not passed. -/
def embedded : Reader Syntax := do
  let begin ← start
  expect "\x7b"
  let value ← if ← at? "\x7d" then pure []
    else if ← at? "..." then pure [← spread self]
    else pure [← self (.sequence false)]
  expectRaw ['\x7d']
  close .other begin value

def attributeValue : Reader Syntax := do
  match (← get).ahead with
  | '"' :: _ | '\'' :: _ => attributeText
  | '\x7b' :: _ => embedded self
  | '<' :: _ => self .markup
  | _ => fail

def tagAttribute : Reader Syntax := do
  if ← at? "\x7b" then embedded self
  else
    let begin ← start
    let name ← tagName
    let name ← if ← accept ":" then do
        let inner ← tagName
        close .other begin [name, inner]
      else pure name
    if ← startsRaw ['='] then
      expectRaw ['=']
      let value ← attributeValue self
      close .other begin [name, value]
    else close .other begin [name]

def tagAttributes : Reader (List Syntax) := do
  itemsWhile (return !(← startsRaw ['>']) && !(← startsRaw ['/'])) (tagAttribute self) (← size) []

/-- Whether a run of text between elements shows: more than line ends and the blanks after them. -/
def showsText (afterLine : Bool) : List Char → Bool
  | [] => false
  | c :: rest =>
    if c == '\n' then showsText true rest
    else if afterLine && isPlainBlank c then showsText true rest
    else true

def characterLength : List Char → Nat
  | '&' :: '#' :: x :: rest =>
    if x == 'x' || x == 'X' then finish 3 6 isHex rest
    else finish 2 5 Letter.isAsciiDigit (x :: rest)
  | '&' :: rest => finish 1 30 Letter.isAsciiLetter rest
  | _ => 0
where
  finish (before most : Nat) (ok : Char → Bool) (cs : List Char) : Nat :=
    let body := cs.takeWhile ok
    if body.isEmpty || body.length > most then 0
    else match cs.drop body.length with
      | ';' :: _ => before + body.length + 1
      | _ => 0

def contents : (fuel : Nat) → List Syntax → Reader (List Syntax)
  | 0, _ => fail
  | fuel + 1, parts => do
    let cursor ← get
    match cursor.behind with
    | [] => fail
    | '<' :: '/' :: _ =>
      goRaw cursor.behind cursor.stop
      return parts.reverse
    | '<' :: _ =>
      goRaw cursor.behind cursor.stop
      let element ← self .markup
      contents fuel (element :: parts)
    | '\x7b' :: _ =>
      goRaw cursor.behind cursor.stop
      let value ← embedded self
      contents fuel (value :: parts)
    | '&' :: _ =>
      match characterLength cursor.behind with
      | 0 => fail
      | n =>
        goRaw (cursor.behind.drop n) (cursor.stop + n)
        contents fuel (Syntax.leaf .other cursor.stop (cursor.stop + n) :: parts)
    | '>' :: _ | '\x7d' :: _ => fail
    | text =>
      let run := text.takeWhile fun c => !(c == '<' || c == '>' || c == '\x7b' || c == '\x7d' || c == '&')
      let stop := cursor.stop + Text.byteLength run
      goRaw (text.drop run.length) stop
      let parts := if showsText false run then Syntax.leaf .other cursor.stop stop :: parts else parts
      contents fuel parts

def element : Reader Syntax := do
  let begin ← start
  expectRaw ['<']
  if ← startsRaw ['>'] then
    expectRaw ['>']
    let opening ← close .other begin []
    rest self begin opening
  else
    let name ← elementName
    let items ← tagAttributes self
    if ← startsRaw ['/'] then
      expectRaw ['/', '>']
      close .other begin (name.as .name :: items)
    else
      expectRaw ['>']
      let opening ← close .other begin (name.as .name :: items)
      rest self begin opening
where
  rest (self : Grammar) (begin : Nat) (opening : Syntax) : Reader Syntax := do
    let parts ← contents self (← size) []
    let closeStart ← start
    expectRaw ['<', '/']
    let name ← if ← startsRaw ['>'] then pure [] else pure [(← elementName).as .name]
    expectRaw ['>']
    let closing ← close .other closeStart name
    close .other begin (opening :: parts ++ [closing])

end LeakTrace.Script
