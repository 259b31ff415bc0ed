import LeakTrace.Document.Basic

namespace LeakTrace.Toml

def isSpace (c : Char) : Bool := c == ' ' || c == '\t'

def skipSpaces (cs : List Char) : List Char := cs.dropWhile isSpace

def isPlain (c : Char) : Bool := c == '\t' || (0x20 ≤ c.toNat && c.toNat != 0x7F)

def newline? : List Char → Option (List Char)
  | '\n' :: rest => some rest
  | '\r' :: '\n' :: rest => some rest
  | _ => none

def skipComment (cs : List Char) : List Char :=
  match cs with
  | '#' :: rest => rest.dropWhile isPlain
  | _ => cs

def skipLines : (fuel : Nat) → List Char → List Char
  | 0, cs => cs
  | fuel + 1, cs =>
    let rest := skipComment (skipSpaces cs)
    match newline? rest with
    | some rest => skipLines fuel rest
    | none => rest

/-- What follows the blanks and line ends behind a backslash, of which at least one is a line
end. -/
def continued? (cs : List Char) : Option (List Char) :=
  (newline? (skipSpaces cs)).map fun rest => rest.dropWhile fun c =>
    isSpace c || c == '\n' || c == '\r'

def escaped? (cs : List Char) : Option (Char × List Char) :=
  let hex (digits : Nat) (rest : List Char) : Option (Char × List Char) := do
    let taken := rest.take digits
    guard (taken.length == digits)
    let value ← Scalar.natural? 16 taken
    guard value.isValidChar
    return (Char.ofNat value, rest.drop digits)
  match cs with
  | 'b' :: rest => some ('\x08', rest)
  | 't' :: rest => some ('\t', rest)
  | 'n' :: rest => some ('\n', rest)
  | 'f' :: rest => some ('\x0c', rest)
  | 'r' :: rest => some ('\r', rest)
  | '"' :: rest => some ('"', rest)
  | '\\' :: rest => some ('\\', rest)
  | 'u' :: rest => hex 4 rest
  | 'U' :: rest => hex 8 rest
  | _ => none

def line? (quote : Char) : (fuel : Nat) → (reversed : List Char) → List Char →
    Option (String × List Char)
  | 0, _, _ => none
  | fuel + 1, reversed, cs =>
    match cs with
    | [] => none
    | c :: rest =>
      if c == quote then some (String.ofList reversed.reverse, rest)
      else if c == '\\' && quote == '"' then
        (escaped? rest).bind fun (c, rest) => line? quote fuel (c :: reversed) rest
      else if isPlain c then line? quote fuel (c :: reversed) rest
      else none

/-- A string of several lines after its three opening quotes. Up to two quotes may stand before the
three closing ones. -/
def lines? (quote : Char) : (fuel : Nat) → (reversed : List Char) → List Char →
    Option (String × List Char)
  | 0, _, _ => none
  | fuel + 1, reversed, cs =>
    let quotes := (cs.takeWhile (· == quote)).length
    if 3 ≤ quotes then
      let kept := min (quotes - 3) 2
      some (String.ofList (List.replicate kept quote ++ reversed).reverse, cs.drop (kept + 3))
    else match newline? cs with
      | some rest => lines? quote fuel ('\n' :: reversed) rest
      | none =>
        match cs with
        | [] => none
        | c :: rest =>
          if c == '\\' && quote == '"' then
            match continued? rest with
            | some rest => lines? quote fuel reversed rest
            | none => (escaped? rest).bind fun (c, rest) => lines? quote fuel (c :: reversed) rest
          else if isPlain c then lines? quote fuel (c :: reversed) rest
          else none

def string? (cs : List Char) : Option (String × List Char) :=
  let fuel := cs.length + 1
  let opened (quote : Char) (rest : List Char) : Option (String × List Char) :=
    lines? quote fuel [] ((newline? rest).getD rest)
  match cs with
  | '"' :: '"' :: '"' :: rest => opened '"' rest
  | '\'' :: '\'' :: '\'' :: rest => opened '\'' rest
  | '"' :: rest => line? '"' fuel [] rest
  | '\'' :: rest => line? '\'' fuel [] rest
  | _ => none

def digits? (base : Nat) (cs : List Char) : Option Nat := do
  let groups := Text.splitAt (· == '_') cs
  guard (groups.all fun group => !group.isEmpty)
  Scalar.natural? base groups.flatten

def integer? (cs : List Char) : Option (Int × List Char) := do
  let word := cs.takeWhile fun c =>
    Letter.isAsciiLetter c || Letter.isAsciiDigit c || c == '_' || c == '+' || c == '-'
  let decimal (digits : List Char) : Option Nat :=
    if 1 < digits.length && digits.head? == some '0' then none else digits? 10 digits
  let value ← match word with
    | '0' :: 'x' :: digits => (digits? 16 digits).map fun n => (n : Int)
    | '0' :: 'o' :: digits => (digits? 8 digits).map fun n => (n : Int)
    | '0' :: 'b' :: digits => (digits? 2 digits).map fun n => (n : Int)
    | '-' :: digits => (decimal digits).map fun n => -(n : Int)
    | '+' :: digits => (decimal digits).map fun n => (n : Int)
    | digits => (decimal digits).map fun n => (n : Int)
  guard (decide (-(Text.signBound : Int) ≤ value) && decide (value < Text.signBound))
  return (value, cs.drop word.length)

mutual

/-- A value: a string, a whole number or a list. Settings have no values of other sorts. -/
def value? : (fuel : Nat) → List Char → Option (Document × List Char)
  | 0, _ => none
  | fuel + 1, cs =>
    match string? cs with
    | some (text, rest) => some (.string text, rest)
    | none =>
      match cs with
      | '[' :: rest => (items? fuel rest).map fun (items, rest) => (.list items, rest)
      | _ => (integer? cs).map fun (value, rest) => (.scalar (.integer value), rest)

def items? : (fuel : Nat) → List Char → Option (List Document × List Char)
  | 0, _ => none
  | fuel + 1, cs =>
    match skipLines (cs.length + 1) cs with
    | ']' :: rest => some ([], rest)
    | cs => do
      let (item, rest) ← value? fuel cs
      match skipLines (rest.length + 1) rest with
      | ']' :: rest => return ([item], rest)
      | ',' :: rest =>
        let (items, rest) ← items? fuel rest
        return (item :: items, rest)
      | _ => none

end

def key? (cs : List Char) : Option (String × List Char) :=
  let isBare (c : Char) : Bool :=
    Letter.isAsciiLetter c || Letter.isAsciiDigit c || c == '_' || c == '-'
  match cs with
  | '"' :: rest => line? '"' (cs.length + 1) [] rest
  | '\'' :: rest => line? '\'' (cs.length + 1) [] rest
  | _ =>
    let word := cs.takeWhile isBare
    if word.isEmpty then none else some (String.ofList word, cs.drop word.length)

def settings? : (fuel : Nat) → List Char → Option (List (Option String × Document))
  | 0, _ => none
  | fuel + 1, cs =>
    match skipLines (cs.length + 1) cs with
    | [] => some []
    | cs => do
      let (key, rest) ← key? cs
      let rest ← Text.after? ['='] (skipSpaces rest)
      let (value, rest) ← value? (cs.length + 1) (skipSpaces rest)
      let rest := skipComment (skipSpaces rest)
      let rest ← if rest.isEmpty then some [] else newline? rest
      let settings ← settings? fuel rest
      return (some key, value) :: settings

/-- The settings of a text. Tables are refused, since no setting is one. -/
def document? (text : String) : Option Document :=
  let cs := match text.toList with
    | '\uFEFF' :: rest => rest
    | cs => cs
  (settings? (cs.length + 1) cs).map .record

end LeakTrace.Toml
