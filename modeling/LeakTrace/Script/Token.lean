import LeakTrace.Text.Basic

namespace LeakTrace.Script

section

variable (c : Char)

def isBlank : Bool :=
  Text.isBlank c || c.toNat == 0xFEFF || c.toNat == 0x2060 || c.toNat == 0x200B

def isMark : Bool :=
  match c with
  | ':' | ';' | '`' | '"' | '\'' | '@' | '#' | '.' | ',' | '|' | '^' | '&' | '<' | '=' | '>' | '+'
  | '-' | '*' | '/' | '\\' | '%' | '?' | '!' | '~' | '(' | ')' | '[' | ']' | '\x7b' | '\x7d' => true
  | _ => false

def isNamePart : Bool := c.toNat ≥ 0x20 && !isMark c && !isBlank c

def isNameStart : Bool := isNamePart c && !Letter.isAsciiDigit c

def isHex : Bool := (CharSet.hexValue? c).isSome

def isLineEnd : Bool :=
  c == '\n' || c == '\r' || c.toNat == 0x2028 || c.toNat == 0x2029

end

/-- Takes the characters of a name from the text, among them escapes of four or more hexadecimal
digits. -/
def nameFrom (taken : List Char) : List Char → List Char × List Char
  | '\\' :: 'u' :: '\x7b' :: rest =>
    let digits := rest.takeWhile isHex
    match rest.drop digits.length with
    | '\x7d' :: _ =>
      if digits.isEmpty then (taken.reverse, '\\' :: 'u' :: '\x7b' :: rest)
      else nameFrom ('\x7b' :: 'u' :: '\\' :: taken) rest
    | _ => (taken.reverse, '\\' :: 'u' :: '\x7b' :: rest)
  | '\\' :: 'u' :: a :: b :: c :: d :: rest =>
    if isHex a && isHex b && isHex c && isHex d then
      nameFrom (d :: c :: b :: a :: 'u' :: '\\' :: taken) rest
    else (taken.reverse, '\\' :: 'u' :: a :: b :: c :: d :: rest)
  | '\x7d' :: rest =>
    if (taken.dropWhile isHex).take 3 == ['\x7b', 'u', '\\'] then nameFrom ('\x7d' :: taken) rest
    else (taken.reverse, '\x7d' :: rest)
  | c :: rest => if isNamePart c then nameFrom (c :: taken) rest else (taken.reverse, c :: rest)
  | [] => (taken.reverse, [])

/-- Length of digits that go on after a first one; single underscores may stand between them. -/
def digitTail (isDigit : Char → Bool) : List Char → Nat
  | '_' :: d :: rest => if isDigit d then 2 + digitTail isDigit rest else 0
  | d :: rest => if isDigit d then 1 + digitTail isDigit rest else 0
  | [] => 0

def digitRun (isDigit : Char → Bool) : List Char → Nat
  | d :: rest => if isDigit d then 1 + digitTail isDigit rest else 0
  | [] => 0

def exponentLength : List Char → Nat
  | e :: rest =>
    if e == 'e' || e == 'E' then
      let sign := match rest with
        | '-' :: _ | '+' :: _ => 1
        | _ => 0
      let digits := digitRun Letter.isAsciiDigit (rest.drop sign)
      if digits == 0 then 0 else 1 + sign + digits
    else 0
  | [] => 0

def basedLength : List Char → Nat
  | '0' :: base :: rest =>
    let digits := match base with
      | 'x' | 'X' => digitRun isHex rest
      | 'b' | 'B' => digitRun (fun c => c == '0' || c == '1') rest
      | 'o' | 'O' => digitRun (fun c => '0' ≤ c && c ≤ '7') rest
      | _ => 0
    if digits == 0 then 0
    else if rest.drop digits |>.head? |>.any (· == 'n') then digits + 3 else digits + 2
  | _ => 0

/-- Whether the digits may be followed by a point or an exponent: no zero before another zero. -/
def isPlainInteger : List Char → Bool
  | '0' :: d :: _ => '1' ≤ d && d ≤ '9'
  | _ => true

def decimalLength (cs : List Char) : Nat :=
  let whole := digitRun Letter.isAsciiDigit cs
  let rest := cs.drop whole
  match whole, rest with
  | 0, '.' :: rest =>
    let digits := digitRun Letter.isAsciiDigit rest
    if digits == 0 then 0 else 1 + digits + exponentLength (rest.drop digits)
  | 0, _ => 0
  | _, 'n' :: _ => whole + 1
  | _, '.' :: rest =>
    if isPlainInteger (cs.take whole) then
      let digits := digitRun Letter.isAsciiDigit rest
      whole + 1 + digits + exponentLength (rest.drop digits)
    else whole
  | _, _ => if isPlainInteger (cs.take whole) then whole + exponentLength rest else whole

def numberLength (cs : List Char) : Nat :=
  match basedLength cs with
  | 0 => decimalLength cs
  | n => n

def escapeLength : List Char → Nat
  | 'x' :: a :: b :: _ => if isHex a && isHex b then 3 else 0
  | 'x' :: _ => 0
  | 'u' :: '\x7b' :: rest =>
    let digits := (rest.takeWhile isHex).length
    match digits, rest.drop digits with
    | 0, _ => 0
    | _, '\x7d' :: _ => digits + 3
    | _, _ => 0
  | 'u' :: a :: b :: c :: d :: _ => if isHex a && isHex b && isHex c && isHex d then 5 else 0
  | 'u' :: _ => 0
  | '\r' :: '\n' :: _ => 2
  | c :: rest =>
    if '0' ≤ c && c ≤ '7' then
      1 + ((rest.take 2).takeWhile fun d => '0' ≤ d && d ≤ '7').length
    else 1
  | [] => 0

def stringEnd? (quote : Char) : (fuel : Nat) → List Char → Nat → Option (List Char × Nat)
  | 0, _, _ => none
  | fuel + 1, cs, bytes =>
    match cs with
    | [] => none
    | '\\' :: rest =>
      match escapeLength rest with
      | 0 => none
      | n => stringEnd? quote fuel (rest.drop n) (bytes + 1 + Text.byteLength (rest.take n))
    | c :: rest =>
      if c == quote then some (rest, bytes + 1)
      else if c == '\n' || c == '\r' then none
      else stringEnd? quote fuel rest (bytes + c.utf8Size)

def patternEnd? (inClass : Bool) : List Char → Nat → Option (List Char × Nat)
  | '\\' :: c :: rest, bytes =>
    if c == '\n' then none else patternEnd? inClass rest (bytes + 1 + c.utf8Size)
  | c :: rest, bytes =>
    if c == '\n' || c == '\\' then none
    else if inClass then patternEnd? (c != ']') rest (bytes + c.utf8Size)
    else if c == '/' then some (c :: rest, bytes)
    else patternEnd? (c == '[') rest (bytes + c.utf8Size)
  | [], _ => none

def punctuators : List String :=
  [">>>=", "...", "===", "!==", "**=", "<<=", ">>=", ">>>", "&&=", "||=", "??=", "=>", "==", "!=",
    "<=", ">=", "&&", "||", "??", "?.", "++", "--", "+=", "-=", "*=", "/=", "%=", "&=", "|=", "^=",
    "<<", ">>", "**", "\x7b", "\x7d", "(", ")", "[", "]", ";", ",", "<", ">", "+", "-", "*", "/",
    "%", "&", "|", "^", "!", "~", "?", ":", "=", ".", "@"]

/-- The operators that start with each character, longer ones first. -/
def punctuatorsOf (c : Char) : List String :=
  punctuators.filter fun p => p.toList.head? == some c

/-- The table of operators by first character, for the characters of ASCII. -/
def punctuatorTable : Array (List (String × List Char)) :=
  ((List.range 128).map fun n =>
    (punctuatorsOf (Char.ofNat n)).map fun p => (p, p.toList)).toArray

/-- The longest operator at the start of the text. A question mark before a point and a digit stands
alone. -/
def punctuator? (cs : List Char) : Option (String × List Char) :=
  match cs with
  | '?' :: '.' :: d :: rest =>
    if Letter.isAsciiDigit d then some ("?", '.' :: d :: rest) else some ("?.", d :: rest)
  | c :: _ =>
    (punctuatorTable.getD c.toNat []).findSome? fun (name, chars) =>
      (Text.after? chars cs).map fun rest => (name, rest)
  | [] => none

inductive Token where
  | finish
  | word (text : String)
  | privateName
  | number
  | string
  | punct (text : String)
  | template
  | unreadable
  deriving DecidableEq, Inhabited

inductive TriviaSort where
  | comment
  | html
  | skipped
  deriving DecidableEq, Inhabited

/-- A comment or the like, with the text after it. -/
structure Trivia where
  start : Nat
  stop : Nat
  rest : List Char
  sort : TriviaSort := .comment
  deriving Inhabited

/-- Where a text does not fit the grammar and how it is read nevertheless: some text is passed over,
or a token is supplied before the one at an offset. -/
inductive Fault where
  | skipped (start stop : Nat)
  | missing (offset : Nat) (token : Token)
  deriving DecidableEq, Inhabited

def Fault.offset : Fault → Nat
  | skipped start _ => start
  | missing offset _ => offset

/-- A place between two tokens: the text just behind the last token, and the token ahead. -/
structure Cursor where
  size : Nat
  behind : List Char
  stop : Nat
  gap : List Trivia := []
  ahead : List Char := []
  start : Nat := 0
  token : Token := .finish
  tokenRest : List Char := []
  tokenStop : Nat := 0
  comments : List Trivia := []
  faults : List Fault := []
  supplied : Bool := false
  /-- Whether the last token is not in the text. No statement ends by itself behind it. -/
  afterSupplied : Bool := false
  deriving Inhabited

namespace Cursor

def commentEnd? (size : Nat) : List Char → Option (List Char × Nat)
  | '/' :: '/' :: rest =>
    let body := rest.takeWhile fun c => !isLineEnd c
    some (rest.drop body.length, 2 + Text.byteLength body)
  | '/' :: '*' :: rest => blockEnd? size rest 2
  | _ => none
where
  blockEnd? : Nat → List Char → Nat → Option (List Char × Nat)
    | 0, _, _ => none
    | _ + 1, [], _ => none
    | _ + 1, '*' :: '/' :: rest, bytes => some (rest, bytes + 2)
    | fuel + 1, c :: rest, bytes => blockEnd? fuel rest (bytes + c.utf8Size)

/-- A comment mark of old pages runs to the end of its line. -/
def htmlCommentEnd? (cs : List Char) : Option (List Char × Nat) :=
  let opened := (Text.after? ['<', '!', '-', '-'] cs).map (·, 4)
  let mark := opened.orElse fun _ => (Text.after? ['-', '-', '>'] cs).map (·, 3)
  mark.map fun (rest, bytes) =>
    let body := rest.takeWhile fun c => !(c == '\n' || c.toNat == 0x2028 || c.toNat == 0x2029)
    (rest.drop body.length, bytes + Text.byteLength body)

def skip : (fuel : Nat) → List Fault → List Char → Nat → List Trivia →
    List Char × Nat × List Trivia × List Fault
  | 0, faults, cs, offset, gap => (cs, offset, gap.reverse, faults)
  | fuel + 1, faults, cs, offset, gap =>
    match faultAt? faults offset with
    | some (stop, faults) =>
      let rest := Text.dropBytes (stop - offset) cs
      skip fuel faults rest stop (⟨offset, stop, rest, .skipped⟩ :: gap)
    | none =>
      match cs with
      | [] => ([], offset, gap.reverse, faults)
      | c :: rest =>
        if isBlank c then skip fuel faults rest (offset + c.utf8Size) gap
        else if c == '/' then
          match commentEnd? fuel cs with
          | some (rest, bytes) =>
            skip fuel faults rest (offset + bytes) (⟨offset, offset + bytes, rest, .comment⟩ :: gap)
          | none => (cs, offset, gap.reverse, faults)
        else (cs, offset, gap.reverse, faults)
where
  faultAt? (faults : List Fault) (offset : Nat) : Option (Nat × List Fault) :=
    match faults with
    | .skipped start stop :: rest => if start == offset && offset < stop then some (stop, rest) else none
    | _ => none

def tokenAt (size : Nat) (cs : List Char) : Token × List Char × Nat :=
  match cs with
  | [] => (.finish, [], 0)
  | '#' :: rest =>
    let (name, after) := nameFrom [] rest
    if name.isEmpty then (.unreadable, rest, 1) else (.privateName, after, 1 + Text.byteLength name)
  | '`' :: rest => (.template, rest, 1)
  | c :: rest =>
    if c == '"' || c == '\'' then
      match stringEnd? c size rest 1 with
      | some (after, bytes) => (.string, after, bytes)
      | none =>
        let line := rest.takeWhile fun c => c != '\n' && c != '\r'
        (.unreadable, rest.drop line.length, 1 + Text.byteLength line)
    else if Letter.isAsciiDigit c || (c == '.' && rest.head?.any Letter.isAsciiDigit) then
      let n := numberLength cs
      (.number, cs.drop n, n)
    else if isNameStart c || c == '\\' then
      let (name, after) := nameFrom [] cs
      if name.isEmpty then (.unreadable, rest, c.utf8Size)
      else (.word (String.ofList name), after, Text.byteLength name)
    else match punctuator? cs with
      | some (name, after) => (.punct name, after, name.length)
      | none => (.unreadable, rest, c.utf8Size)

def place (size : Nat) (faults : List Fault) (behind : List Char) (stop : Nat)
    (comments : List Trivia) : Cursor :=
  let faults := faults.dropWhile fun fault => fault.offset < stop
  let (ahead, start, gap, faults) := skip (size + 1) faults behind stop []
  let plain : Cursor :=
    let (token, tokenRest, bytes) := tokenAt size ahead
    { size, behind, stop, gap, ahead, start, token, tokenRest, tokenStop := start + bytes, comments
      faults }
  match faults with
  | .missing offset token :: rest =>
    if offset == start then
      { size, behind, stop, ahead := behind, start := stop, token, tokenRest := behind
        tokenStop := stop, comments, faults := rest, supplied := true }
    else plain
  | _ => plain

def ofSource (source : String) (faults : List Fault) : Cursor :=
  place (source.utf8ByteSize + 1) faults source.toList 0 []

/-- Goes to the text `rest` at `stop`, which lies behind the comments of the gap. -/
def jump (cursor : Cursor) (rest : List Char) (stop : Nat) : Cursor :=
  place cursor.size cursor.faults rest stop (cursor.gap.reverse ++ cursor.comments)

def next (cursor : Cursor) : Cursor :=
  let after := cursor.jump cursor.tokenRest cursor.tokenStop
  if cursor.supplied then { after with afterSupplied := true } else after

end Cursor

/-- Blanks as they count for the end of a statement. -/
def isPlainBlank (c : Char) : Bool := c == ' ' || (9 ≤ c.toNat && c.toNat ≤ 13)

def endsLine (c : Char) : Bool := c == '\n' || c.toNat == 0x2028 || c.toNat == 0x2029

/-- What passing blanks and comments found: a slash that starts no comment, a block comment on one
line, or anything else. -/
inductive Passed where
  | refused | sameLine | accepted
  deriving DecidableEq

def passBlock (sawLine : Bool) : List Char → List Char × Bool
  | '*' :: '/' :: rest => (rest, sawLine)
  | c :: rest => passBlock (sawLine || endsLine c) rest
  | [] => ([], sawLine)

/-- Passes blanks and comments; unless `all` is set it stops behind the first block comment. -/
def passComments (all : Bool) : (fuel : Nat) → (sawLine : Bool) → List Char → Passed × List Char
  | 0, _, cs => (.refused, cs)
  | fuel + 1, sawLine, cs =>
    match cs.dropWhile isPlainBlank with
    | '/' :: '/' :: rest => passComments all fuel sawLine (rest.dropWhile fun c => !endsLine c)
    | '/' :: '*' :: rest =>
      let (rest, sawLine) := passBlock sawLine rest
      if all || rest.head? == some '/' then passComments all fuel sawLine rest
      else (if sawLine then .accepted else .sameLine, rest)
    | '/' :: rest => (.refused, rest)
    | rest => (.accepted, rest)

def endsBefore (cs : List Char) : Bool :=
  match cs with
  | '.' :: rest => rest.head?.any Letter.isAsciiDigit
  | '+' :: rest => rest.head? == some '+'
  | '-' :: rest => rest.head? == some '-'
  | '!' :: rest => rest.head? != some '='
  | 'i' :: 'n' :: rest =>
    if !rest.head?.any Letter.isAsciiLetter then false
    else match Text.after? "stanceof".toList rest with
      | some rest => rest.head?.any Letter.isAsciiLetter
      | none => true
  | c :: _ =>
    !List.contains ['`', ',', ':', ';', '*', '%', '>', '<', '=', '[', '(', '?', '^', '|', '&', '/'] c
  | [] => true

/-- Whether a statement ends here without a semicolon. `afterOperand` says that an operator could
follow, in which case a comment alone does not end the statement. -/
def endsHere (afterOperand : Bool) : (fuel : Nat) → List Char → Bool
  | 0, _ => false
  | fuel + 1, cs =>
    match cs with
    | [] => true
    | '/' :: _ =>
      match passComments false (fuel + 1) false cs with
      | (.refused, _) => false
      | (passed, rest) =>
        match rest with
        | [] => passed == .accepted && !afterOperand
        | c :: _ =>
          if passed == .accepted && !afterOperand && c != ',' && c != '=' then true
          else if c == '\x7d' then true
          else if endsLine c then nextLine fuel rest
          else if isPlainBlank c then endsHere afterOperand fuel (rest.drop 1)
          else false
    | c :: rest =>
      if c == '\x7d' then true
      else if endsLine c then nextLine fuel cs
      else if isPlainBlank c then endsHere afterOperand fuel rest
      else false
where
  nextLine (fuel : Nat) (cs : List Char) : Bool :=
    match passComments true (fuel + 1) false (cs.drop 1) with
    | (.refused, _) => false
    | (_, rest) => endsBefore rest

end LeakTrace.Script
