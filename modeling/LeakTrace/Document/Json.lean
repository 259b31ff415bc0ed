import LeakTrace.Document.Basic

namespace LeakTrace.Json

def isBlank (c : Char) : Bool := c == ' ' || c == '\n' || c == '\t' || c == '\r'

def skipBlanks (cs : List Char) : List Char := cs.dropWhile isBlank

def unit? (cs : List Char) : Option (Nat × List Char) := do
  let digits := cs.take 4
  guard (digits.length == 4)
  return (← Scalar.natural? 16 digits, cs.drop 4)

def escaped? (cs : List Char) : Option (Char × List Char) := do
  let (first, rest) ← unit? cs
  if 0xD800 ≤ first && first ≤ 0xDBFF then
    let rest ← Text.after? ['\\', 'u'] rest
    let (second, rest) ← unit? rest
    guard (0xDC00 ≤ second && second ≤ 0xDFFF)
    return (Char.ofNat (0x10000 + (first - 0xD800) * 0x400 + (second - 0xDC00)), rest)
  else
    guard first.isValidChar
    return (Char.ofNat first, rest)

def chars? : (fuel : Nat) → (reversed : List Char) → List Char → Option (String × List Char)
  | 0, _, _ => none
  | fuel + 1, reversed, cs =>
    match cs with
    | '"' :: rest => some (String.ofList reversed.reverse, rest)
    | '\\' :: 'u' :: rest => (escaped? rest).bind fun (c, rest) => chars? fuel (c :: reversed) rest
    | '\\' :: c :: rest =>
      let meant := match c with
        | '"' => some '"'
        | '\\' => some '\\'
        | '/' => some '/'
        | 'b' => some '\x08'
        | 'f' => some '\x0c'
        | 'n' => some '\n'
        | 'r' => some '\r'
        | 't' => some '\t'
        | _ => none
      meant.bind fun c => chars? fuel (c :: reversed) rest
    | c :: rest => if c.toNat < 0x20 then none else chars? fuel (c :: reversed) rest
    | [] => none

/-- A number: digits without a needless zero in front, a fraction, an exponent. A whole number that
needs more than 64 bits counts as a real one. -/
def number? (cs : List Char) : Option (Scalar × List Char) := do
  let (negative, digitsOn) := match cs with
    | '-' :: rest => (true, rest)
    | _ => (false, cs)
  let digits := digitsOn.takeWhile Letter.isAsciiDigit
  let value ← Text.digits? digits
  guard (digits.length == 1 || digits.head? != some '0')
  let rest := digitsOn.drop digits.length
  let (fraction, rest) ← match rest with
    | '.' :: rest =>
      let part := rest.takeWhile Letter.isAsciiDigit
      if part.isEmpty then none else some (true, rest.drop part.length)
    | _ => some (false, rest)
  let (exponent, rest) ← match rest with
    | 'e' :: rest | 'E' :: rest =>
      let rest := match rest with
        | '+' :: rest | '-' :: rest => rest
        | _ => rest
      let part := rest.takeWhile Letter.isAsciiDigit
      if part.isEmpty then none else some (true, rest.drop part.length)
    | _ => some (false, rest)
  let text := String.ofList (cs.take (cs.length - rest.length))
  let whole := !fraction && !exponent && (if negative then 0 < value && value ≤ Text.signBound
    else value < Text.wordBound)
  return (if whole then .integer (if negative then -(value : Int) else value) else .real text, rest)

mutual

/-- A value, and what follows it. Values nest at most as deep as the fuel. -/
def value? (length : Nat) : (fuel : Nat) → List Char → Option (Document × List Char)
  | 0, _ => none
  | fuel + 1, cs =>
    match skipBlanks cs with
    | 'n' :: 'u' :: 'l' :: 'l' :: rest => some (.null, rest)
    | 't' :: 'r' :: 'u' :: 'e' :: rest => some (.bool true, rest)
    | 'f' :: 'a' :: 'l' :: 's' :: 'e' :: rest => some (.bool false, rest)
    | '"' :: rest => (chars? (length + 1) [] rest).map fun (text, rest) => (.string text, rest)
    | '[' :: rest =>
      match skipBlanks rest with
      | ']' :: rest => some (.row [], rest)
      | rest => (items? length fuel length rest).map fun (items, rest) => (.row items, rest)
    | '\x7b' :: rest =>
      match skipBlanks rest with
      | '\x7d' :: rest => some (.record [], rest)
      | rest => (entries? length fuel length rest).map fun (entries, rest) => (.record entries, rest)
    | cs => (number? cs).map fun (number, rest) => (.scalar number, rest)
termination_by fuel => (fuel, 0, 0)

def items? (length : Nat) (fuel : Nat) : (count : Nat) → List Char →
    Option (List Document × List Char)
  | 0, _ => none
  | count + 1, cs => do
    let (item, rest) ← value? length fuel cs
    match skipBlanks rest with
    | ']' :: rest => return ([item], rest)
    | ',' :: rest =>
      let (items, rest) ← items? length fuel count rest
      return (item :: items, rest)
    | _ => none
termination_by count => (fuel, 1, count)

def entries? (length : Nat) (fuel : Nat) : (count : Nat) → List Char →
    Option (List (Option String × Document) × List Char)
  | 0, _ => none
  | count + 1, cs => do
    let rest ← Text.after? ['"'] (skipBlanks cs)
    let (key, rest) ← chars? (length + 1) [] rest
    let rest ← Text.after? [':'] (skipBlanks rest)
    let (value, rest) ← value? length fuel rest
    match skipBlanks rest with
    | '\x7d' :: rest => return ([(some key, value)], rest)
    | ',' :: rest =>
      let (entries, rest) ← entries? length fuel count rest
      return ((some key, value) :: entries, rest)
    | _ => none
termination_by count => (fuel, 1, count)

end

def depthLimit : Nat := 128

def document? (text : String) : Option Document := do
  let cs := text.toList
  let (document, rest) ← value? cs.length depthLimit cs
  guard (skipBlanks rest).isEmpty
  return document

def hexDigit (n : Nat) : Char := Char.ofNat (if n < 10 then 48 + n else 87 + n)

def quotedChar (c : Char) : List Char :=
  match c with
  | '"' => ['\\', '"']
  | '\\' => ['\\', '\\']
  | '\n' => ['\\', 'n']
  | '\r' => ['\\', 'r']
  | '\t' => ['\\', 't']
  | '\x08' => ['\\', 'b']
  | '\x0c' => ['\\', 'f']
  | c =>
    if c.toNat < 0x20 then ['\\', 'u', '0', '0', hexDigit (c.toNat / 16), hexDigit (c.toNat % 16)]
    else [c]

def quoted (text : String) : String :=
  "\"" ++ String.ofList (text.toList.flatMap quotedChar) ++ "\""

def scalarText : Scalar → String
  | .null => "null"
  | .bool value => if value then "true" else "false"
  | .integer value => toString value
  | .real text => text
  | .string text | .plain text => quoted text

def indented (depth : Nat) (line : String) : String :=
  String.ofList (List.replicate (2 * depth) ' ') ++ line

mutual

def pretty (depth : Nat) : Document → String
  | .scalar value => scalarText value
  | .list [] => "[]"
  | .row [] => "[]"
  | .record [] => "\x7b\x7d"
  | .list items => "[\n" ++ prettyItems (depth + 1) items ++ "\n" ++ indented depth "]"
  | .row items => "[\n" ++ prettyItems (depth + 1) items ++ "\n" ++ indented depth "]"
  | .record entries =>
    "\x7b\n" ++ prettyEntries (depth + 1) entries ++ "\n" ++ indented depth "\x7d"

def prettyItems (depth : Nat) : List Document → String
  | [] => ""
  | [item] => indented depth (pretty depth item)
  | item :: items => indented depth (pretty depth item) ++ ",\n" ++ prettyItems depth items

def prettyEntries (depth : Nat) : List (Option String × Document) → String
  | [] => ""
  | [(key, value)] => indented depth (quoted (key.getD "") ++ ": " ++ pretty depth value)
  | (key, value) :: entries =>
    indented depth (quoted (key.getD "") ++ ": " ++ pretty depth value) ++ ",\n" ++
      prettyEntries depth entries

end

end LeakTrace.Json
