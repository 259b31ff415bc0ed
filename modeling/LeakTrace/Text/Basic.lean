import LeakTrace.Text.Letter

namespace LeakTrace.Text

/-- White space: the characters that trimming removes. -/
def isBlank (c : Char) : Bool :=
  let n := c.toNat
  (9 ≤ n && n ≤ 13) || n == 32 || n == 0x85 || n == 0xA0 || n == 0x1680 ||
    (0x2000 ≤ n && n ≤ 0x200A) || n == 0x2028 || n == 0x2029 || n == 0x202F || n == 0x205F ||
    n == 0x3000

def trimStart (cs : List Char) : List Char := cs.dropWhile isBlank

def trimEnd (cs : List Char) : List Char := (cs.reverse.dropWhile isBlank).reverse

def trim (cs : List Char) : List Char := trimEnd (trimStart cs)

def trimmed (s : String) : String := String.ofList (trim s.toList)

def lower (cs : List Char) : List Char := cs.flatMap Letter.lower

def lowered (s : String) : String := String.ofList (lower s.toList)

def after? : List Char → List Char → Option (List Char)
  | [], cs => some cs
  | _ :: _, [] => none
  | p :: ps, c :: cs => if p = c then after? ps cs else none

def startsWith (start cs : List Char) : Bool := (after? start cs).isSome

/-- The text before and after the first place where `needle` stands. -/
def find? (needle : List Char) : List Char → Option (List Char × List Char)
  | [] => if needle.isEmpty then some ([], []) else none
  | c :: cs => match after? needle (c :: cs) with
    | some rest => some ([], rest)
    | none => (find? needle cs).map fun (before, rest) => (c :: before, rest)

/-- Cuts at every character that satisfies `cut`; the parts may be empty. -/
def splitAt (cut : Char → Bool) : List Char → List (List Char)
  | [] => [[]]
  | c :: cs =>
    if cut c then [] :: splitAt cut cs
    else match splitAt cut cs with
      | [] => [[c]]
      | part :: parts => (c :: part) :: parts

def dropReturn (line : List Char) : List Char :=
  match line.reverse with
  | '\r' :: rest => rest.reverse
  | _ => line

/-- The lines of a text without their endings: a line feed, or a carriage return and a line feed.
A text that ends with an ending has no further line. -/
def lines (cs : List Char) : List (List Char) :=
  match _rest : cs.dropWhile (· != '\n') with
  | [] => if cs.isEmpty then [] else [cs]
  | _ :: more => dropReturn (cs.takeWhile (· != '\n')) :: lines more
termination_by cs.length
decreasing_by
  have shorter := (List.dropWhile_suffix (l := cs) (· != '\n')).length_le
  rw [_rest] at shorter
  exact shorter

def linesOf (s : String) : List String := (lines s.toList).map String.ofList

/-- The text between two byte offsets; nothing when they are out of range or inside a character. -/
def slice? (s : ByteArray) (start stop : Nat) : Option String :=
  if start ≤ stop ∧ stop ≤ s.size then String.fromUTF8? (s.extract start stop) else none

def byteLength (cs : List Char) : Nat := cs.foldl (fun n c => n + c.utf8Size) 0

/-- What remains after the characters that start before the byte offset. -/
def dropBytes : Nat → List Char → List Char
  | 0, cs => cs
  | _ + 1, [] => []
  | n + 1, c :: cs => dropBytes (n + 1 - c.utf8Size) cs
termination_by _ cs => cs.length

def wordBound : Nat := 18446744073709551616

def signBound : Nat := 9223372036854775808

def halfWordBound : Nat := 4294967296

/-- The value of a run of decimal digits; nothing for an empty run or another character. -/
def digits? : List Char → Option Nat
  | [] => none
  | cs => cs.foldlM (fun n c => if Letter.isAsciiDigit c then some (n * 10 + (c.toNat - 48)) else none) 0

/-- A natural number below `bound`, with an optional plus sign. -/
def natBelow? (bound : Nat) (cs : List Char) : Option Nat :=
  let digits := match cs with
    | '+' :: rest => rest
    | _ => cs
  (digits? digits).filter (· < bound)

def word? (s : String) : Option Nat := natBelow? wordBound s.toList

def integer? (cs : List Char) : Option Int :=
  match cs with
  | '-' :: rest => ((digits? rest).filter (· ≤ signBound)).map fun n => -(n : Int)
  | _ => (natBelow? signBound cs).map fun n => (n : Int)

def sameIgnoringCase (a b : String) : Bool :=
  a.toList.map Letter.asciiLower == b.toList.map Letter.asciiLower

def replaceAll (needle replacement : List Char) (cs : List Char) : List Char :=
  match find? needle cs with
  | none => cs
  | some (before, rest) =>
    if rest.length < cs.length then before ++ replacement ++ replaceAll needle replacement rest
    else cs
termination_by cs.length

end LeakTrace.Text
