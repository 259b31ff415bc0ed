import LeakTrace.Text.Basic

namespace LeakTrace.Crate

namespace Nesting

def afterBlock : (opened : Nat) → List Char → List Char
  | 0, cs => cs
  | opened + 1, '/' :: '*' :: rest => afterBlock (opened + 2) rest
  | opened + 1, '*' :: '/' :: rest => afterBlock opened rest
  | opened + 1, _ :: rest => afterBlock (opened + 1) rest
  | _ + 1, [] => []
termination_by _ cs => cs.length

def afterString : List Char → List Char
  | '\\' :: _ :: rest => afterString rest
  | '"' :: rest => rest
  | _ :: rest => afterString rest
  | [] => []

def afterRaw (marks : List Char) : List Char → List Char
  | '"' :: rest =>
    match Text.after? marks rest with
    | some rest => rest
    | none => afterRaw marks rest
  | _ :: rest => afterRaw marks rest
  | [] => []

/-- Whether a letter before a raw string makes the string's `r` the end of a name. -/
def continuesName (c : Char) : Bool :=
  (Letter.isAsciiLetter c || Letter.isAsciiDigit c || c == '_') && c != 'b'

def raw? (cs : List Char) : Option (List Char) :=
  let marks := cs.takeWhile (· == '#')
  match cs.drop marks.length with
  | '"' :: rest => some (afterRaw marks rest)
  | _ => none

/-- Passes a character literal, or the quote of a lifetime, after the quote. -/
def afterQuote : List Char → List Char
  | '\\' :: rest => ((rest.drop 1).dropWhile (· != '\'')).drop 1
  | _ :: '\'' :: rest => rest
  | cs => cs

def deepest : (fuel : Nat) → (previous : Char) → List Char → (depth most : Nat) → Nat
  | 0, _, _, _, most => most
  | fuel + 1, previous, cs, depth, most =>
    match cs with
    | [] => most
    | '/' :: '/' :: rest => deepest fuel '/' (rest.dropWhile (· != '\n')) depth most
    | '/' :: '*' :: rest => deepest fuel '/' (afterBlock 1 rest) depth most
    | '"' :: rest => deepest fuel '"' (afterString rest) depth most
    | '\'' :: rest => deepest fuel '\'' (afterQuote rest) depth most
    | c :: rest =>
      if c == '(' || c == '[' || c == '\x7b' then
        deepest fuel c rest (depth + 1) (max most (depth + 1))
      else if c == ')' || c == ']' || c == '\x7d' then deepest fuel c rest (depth - 1) most
      else if c == 'r' && !continuesName previous then
        match raw? rest with
        | some rest => deepest fuel '"' rest depth most
        | none => deepest fuel c rest depth most
      else deepest fuel c rest depth most

end Nesting

def nesting (source : String) : Nat :=
  let cs := source.toList
  Nesting.deepest (cs.length + 1) ' ' cs 0 0

end LeakTrace.Crate
