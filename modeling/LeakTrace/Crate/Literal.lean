import LeakTrace.Text.Lossy

namespace LeakTrace.Crate

def isNameStart (c : Char) : Bool := c == '_' || Letter.isNameStart c

def isNamePart (c : Char) : Bool := Letter.isNameContinue c

def nameLength : List Char → Nat
  | c :: rest => if isNameStart c then 1 + (rest.takeWhile isNamePart).length else 0
  | [] => 0

def isDecimal (c : Char) : Bool := Letter.isAsciiDigit c

def hexDigit? (c : Char) : Option Nat := CharSet.hexValue? c

def isHex (c : Char) : Bool := (hexDigit? c).isSome

inductive Quoting where
  | text | bytes | foreign
  deriving DecidableEq

/-- The character of an escape such as `41}`, whose opening brace is passed, and its length. -/
def codePoint? : List Char → (value digits length : Nat) → Option (Char × Nat)
  | [], _, _, _ => none
  | c :: rest, value, digits, length =>
    match hexDigit? c with
    | some digit =>
      if digits = 6 then none else codePoint? rest (value * 16 + digit) (digits + 1) (length + 1)
    | none =>
      if digits = 0 then none
      else if c = '_' then codePoint? rest value digits (length + 1)
      else if c = '\x7d' then
        if value.isValidChar then some (Char.ofNat value, length + 1) else none
      else none

section

variable (quoting : Quoting)

def escapeLength? : List Char → Option Nat
  | 'x' :: a :: b :: _ =>
    let fits := match quoting with
      | .text => '0' ≤ a && a ≤ '7'
      | .bytes => isHex a
      | .foreign => isHex a && !(a == '0' && b == '0')
    if fits && isHex b then some 3 else none
  | 'u' :: '\x7b' :: rest =>
    match quoting, codePoint? rest 0 0 0 with
    | .bytes, _ | _, none => none
    | .foreign, some (c, length) => if c.toNat = 0 then none else some (length + 2)
    | .text, some (_, length) => some (length + 2)
  | 'n' :: _ | 'r' :: _ | 't' :: _ | '\\' :: _ | '\'' :: _ | '"' :: _ => some 1
  | '0' :: _ => if quoting = .foreign then none else some 1
  | _ => none

def continuationLength? (afterReturn : Bool) : List Char → Option Nat
  | [] => none
  | c :: rest =>
    if afterReturn then if c = '\n' then (continuationLength? false rest).map (· + 1) else none
    else if c = '\r' then (continuationLength? true rest).map (· + 1)
    else if c = ' ' || c = '\t' || c = '\n' then (continuationLength? false rest).map (· + 1)
    else some 0

def isPlain (c : Char) : Bool :=
  match quoting with
  | .text => true
  | .bytes => c.toNat < 0x80
  | .foreign => c.toNat != 0

def quotedLength? : (fuel : Nat) → List Char → (length : Nat) → Option Nat
  | 0, _, _ => none
  | fuel + 1, cs, length =>
    match cs with
    | [] | ['\\'] => none
    | '"' :: _ => some (length + 1)
    | '\r' :: rest =>
      match rest with
      | '\n' :: rest => quotedLength? fuel rest (length + 2)
      | _ => none
    | '\\' :: c :: rest =>
      if c = '\n' || c = '\r' then
        match continuationLength? (c = '\r') rest with
        | some n => quotedLength? fuel (rest.drop n) (length + 2 + n)
        | none => none
      else match escapeLength? quoting (c :: rest) with
        | some n => quotedLength? fuel ((c :: rest).drop n) (length + 1 + n)
        | none => none
    | c :: rest => if isPlain quoting c then quotedLength? fuel rest (length + 1) else none

/-- Length of a raw literal after its opening quote, with the closing quote and its marks. -/
def rawBodyLength? (marks : List Char) : List Char → (length : Nat) → Option Nat
  | [], _ => none
  | '\r' :: '\n' :: rest, length => rawBodyLength? marks rest (length + 2)
  | c :: rest, length =>
    if c = '"' && Text.startsWith marks rest then some (length + 1 + marks.length)
    else if c = '\r' || !isPlain quoting c then none
    else rawBodyLength? marks rest (length + 1)

def rawLength? (cs : List Char) : Option Nat :=
  let marks := cs.takeWhile (· == '#')
  match cs.drop marks.length with
  | '"' :: rest =>
    if marks.length > 255 then none else rawBodyLength? quoting marks rest (marks.length + 1)
  | _ => none

def characterLength? : List Char → Option Nat
  | [] => none
  | c :: rest =>
    let body := if c = '\\' then (escapeLength? quoting rest).map (· + 1)
      else if isPlain quoting c then some 1
      else none
    body.bind fun n => if (c :: rest)[n]? = some '\'' then some (n + 1) else none

end

/-- Where the digits before an exponent end, whether a point is among them, and whether an exponent
follows. -/
def mantissa? (point : Bool) : List Char → (length : Nat) → Option (Nat × Bool × Bool)
  | [], length => some (length, point, false)
  | c :: rest, length =>
    if isDecimal c || c = '_' then mantissa? point rest (length + 1)
    else if c = '.' && !point then
      if rest.head?.any fun d => d == '.' || isNameStart d then none
      else mantissa? true rest (length + 1)
    else some (length, point, c = 'e' || c = 'E')

def exponentLength? (sign value : Bool) : List Char → (length : Nat) → Option Nat
  | [], length => if value then some length else none
  | c :: rest, length =>
    if isDecimal c then exponentLength? sign true rest (length + 1)
    else if c = '_' then exponentLength? sign value rest (length + 1)
    else if (c = '+' || c = '-') && !value then
      if sign then none else exponentLength? true value rest (length + 1)
    else if value then some length else none

def decimalLength? (cs : List Char) : Option Nat :=
  if cs.head?.any isDecimal then
    (mantissa? false cs 0).bind fun (length, point, exponent) =>
      if exponent then
        match exponentLength? false false (cs.drop (length + 1)) 0 with
        | some n => some (length + 1 + n)
        | none => if point then some length else none
      else if point then some length else none
  else none

/-- Length of the digits of a whole number. A digit too large for the base makes it malformed. -/
def digitsLength? (base : Nat) : List Char → (length : Nat) → (empty : Bool) → Option Nat
  | [], length, empty => if empty then none else some length
  | c :: rest, length, empty =>
    if c = '_' then
      if empty && base = 10 then none else digitsLength? base rest (length + 1) empty
    else match hexDigit? c with
      | some digit =>
        if digit < base then digitsLength? base rest (length + 1) false
        else if isDecimal c || empty then none
        else some length
      | none => if empty then none else some length

def baseOf : List Char → Nat × Nat
  | '0' :: 'x' :: _ => (16, 2)
  | '0' :: 'o' :: _ => (8, 2)
  | '0' :: 'b' :: _ => (2, 2)
  | _ => (10, 0)

def integerLength? (cs : List Char) : Option Nat :=
  let (base, skipped) := baseOf cs
  digitsLength? base (cs.drop skipped) skipped true

def numberLength? (cs : List Char) : Option Nat :=
  let whole (length? : Option Nat) : Option Nat := length?.bind fun length =>
    let suffix := nameLength (cs.drop length)
    if (cs.drop (length + suffix)).head?.any isNamePart then none else some (length + suffix)
  (whole (decimalLength? cs)).orElse fun _ => whole (integerLength? cs)

def literalLength? (size : Nat) (cs : List Char) : Option Nat :=
  let suffixed (length? : Option Nat) : Option Nat := length?.map fun length =>
    length + nameLength (cs.drop length)
  match cs with
  | '"' :: rest => suffixed (quotedLength? .text size rest 1)
  | 'r' :: rest => suffixed ((rawLength? .text rest).map (· + 1))
  | 'b' :: '"' :: rest => suffixed (quotedLength? .bytes size rest 2)
  | 'b' :: 'r' :: rest => suffixed ((rawLength? .bytes rest).map (· + 2))
  | 'c' :: '"' :: rest => suffixed (quotedLength? .foreign size rest 2)
  | 'c' :: 'r' :: rest => suffixed ((rawLength? .foreign rest).map (· + 2))
  | 'b' :: '\'' :: rest => suffixed ((characterLength? .bytes rest).map (· + 2))
  | '\'' :: rest => suffixed ((characterLength? .text rest).map (· + 1))
  | _ => numberLength? cs

inductive Literal where
  | string (value : String)
  | characters (value : String)
  | integer (digits : String) (suffixed : Bool)
  | decimal (digits : String)
  | other
  deriving DecidableEq, Inhabited

namespace Literal

/-- The values between the quotes, character codes or bytes. -/
def values : (fuel : Nat) → (closing : Char) → List Char → List Nat → List Nat
  | 0, _, _, read => read.reverse
  | fuel + 1, closing, cs, read =>
    match cs with
    | [] => read.reverse
    | '\r' :: '\n' :: rest => values fuel closing rest (10 :: read)
    | '\\' :: 'x' :: a :: b :: rest =>
      values fuel closing rest (((hexDigit? a).getD 0 * 16 + (hexDigit? b).getD 0) :: read)
    | '\\' :: 'u' :: '\x7b' :: rest =>
      match codePoint? rest 0 0 0 with
      | some (c, length) => values fuel closing (rest.drop length) (c.toNat :: read)
      | none => read.reverse
    | '\\' :: c :: rest =>
      match c with
      | 'n' => values fuel closing rest (10 :: read)
      | 'r' => values fuel closing rest (13 :: read)
      | 't' => values fuel closing rest (9 :: read)
      | '0' => values fuel closing rest (0 :: read)
      | '\n' | '\r' => values fuel closing
          (rest.dropWhile fun d => d == ' ' || d == '\t' || d == '\n' || d == '\r') read
      | _ => values fuel closing rest (c.toNat :: read)
    | c :: rest => if c = closing then read.reverse else values fuel closing rest (c.toNat :: read)

def textOf (codes : List Nat) : String := String.ofList (codes.map Char.ofNat)

def rawText (cs : List Char) : List Char :=
  let marks := (cs.takeWhile (· == '#')).length
  let body := (cs.drop (marks + 1)).reverse.dropWhile (· != '"')
  (body.drop 1).reverse

def character (cs : List Char) : String :=
  match cs with
  | '\\' :: _ => textOf (values (cs.length + 1) '\'' cs [])
  | c :: _ => c.toString
  | [] => ""

/-- The value of a whole number and the text behind it; nothing for a number with a point or an
exponent. -/
def integer? (base : Nat) : (fuel : Nat) → List Char → (value : Nat) → Option (Nat × List Char)
  | 0, _, _ => none
  | fuel + 1, cs, value =>
    match cs with
    | [] => some (value, [])
    | '_' :: rest => integer? base fuel rest value
    | c :: rest =>
      if base = 10 && c = '.' then none
      else if base = 10 && (c = 'e' || c = 'E') then
        let tail := rest.dropWhile fun d => isDecimal d || d == '_'
        let digits := (rest.take (rest.length - tail.length)).any isDecimal
        match tail with
        | '-' :: _ | '+' :: _ => none
        | _ => if digits then none else some (value, cs)
      else match hexDigit? c with
        | some digit =>
          if digit < base then integer? base fuel rest (value * base + digit) else some (value, cs)
        | none => some (value, cs)

/-- A number with a point or an exponent: its digits without underscores and plus sign. -/
def decimalDigits (exponent : Bool) : List Char → List Char → List Char
  | [], read => read.reverse
  | c :: rest, read =>
    if c = '_' || c = '+' && exponent then decimalDigits exponent rest read
    else if isDecimal c || c = '.' || c = '-' && exponent then
      decimalDigits exponent rest (c :: read)
    else if (c = 'e' || c = 'E') && !exponent &&
        (rest.find? (· != '_')).any (fun d => d == '-' || d == '+' || isDecimal d) then
      decimalDigits true rest ('e' :: read)
    else read.reverse

def number (cs : List Char) : Literal :=
  let (base, skipped) := baseOf cs
  match integer? base (cs.length + 1) (cs.drop skipped) 0 with
  | some (value, suffix) => .integer (toString value) (!suffix.isEmpty)
  | none => .decimal (String.ofList (decimalDigits false cs []))

def ofText (cs : List Char) : Literal :=
  match cs with
  | '"' :: rest => .string (textOf (values (rest.length + 1) '"' rest []))
  | 'r' :: rest => .string (String.ofList (rawText rest))
  | 'b' :: '"' :: rest =>
    .characters (String.ofList (Text.lossy none (values (rest.length + 1) '"' rest []) []))
  | 'b' :: 'r' :: rest => .characters (String.ofList (rawText rest))
  | '\'' :: rest => .characters (character rest)
  | 'b' :: _ | 'c' :: _ => .other
  | _ => number cs

end Literal

end LeakTrace.Crate
