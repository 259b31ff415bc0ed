namespace LeakTrace

inductive GlobPart where
  | char (c : Char)
  | any
  | among (ranges : List (Char × Char))
  | except (ranges : List (Char × Char))
  | sequence
  /-- Any number of whole directories, or all the rest. -/
  | directories
  deriving DecidableEq, Inhabited

abbrev Glob := List GlobPart

namespace Glob

/-- The ranges between brackets; a hyphen between two characters joins them. -/
def ranges : List Char → List (Char × Char)
  | a :: '-' :: b :: rest => (a, b) :: ranges rest
  | a :: rest => (a, a) :: ranges rest
  | [] => []

def bracketed? (cs : List Char) : Option (List Char × List Char) :=
  match cs with
  | [] => none
  | c :: rest =>
    match rest.dropWhile (· != ']') with
    | _ :: after => some (c :: rest.takeWhile (· != ']'), after)
    | [] => none

/-- Reads a glob. Two stars have to be a directory of their own, and `atStart` tells whether one
may begin here. -/
def parts? : (fuel : Nat) → (atStart : Bool) → List Char → Option Glob
  | 0, _, _ => none
  | _ + 1, _, [] => some []
  | fuel + 1, atStart, c :: rest =>
    match c with
    | '?' => (parts? fuel false rest).map (.any :: ·)
    | '*' =>
      match rest with
      | '*' :: '*' :: _ => none
      | '*' :: after =>
        if !atStart then none
        else match after with
          | [] => some [.directories]
          | '/' :: after => (parts? fuel true after).map (.directories :: ·)
          | _ => none
      | _ => (parts? fuel false rest).map (.sequence :: ·)
    | '[' =>
      match rest with
      | '!' :: inside => do
        let (chars, after) ← bracketed? inside
        return .except (ranges chars) :: (← parts? fuel false after)
      | _ => do
        let (chars, after) ← bracketed? rest
        return .among (ranges chars) :: (← parts? fuel false after)
    | _ => (parts? fuel (c == '/') rest).map (.char c :: ·)

def ofText? (text : String) : Option Glob :=
  let cs := text.toList
  parts? (cs.length + 1) true cs

def suffixes : List Char → List (List Char)
  | [] => [[]]
  | c :: rest => (c :: rest) :: suffixes rest

def afterSlashes : List Char → List (List Char)
  | [] => []
  | c :: rest => if c == '/' then rest :: afterSlashes rest else afterSlashes rest

def contains (ranges : List (Char × Char)) (c : Char) : Bool :=
  ranges.any fun (low, high) => low ≤ c && c ≤ high

def fits : Glob → List Char → Bool
  | [], cs => cs.isEmpty
  | .sequence :: rest, cs => (suffixes cs).any (fits rest)
  | .directories :: rest, cs => (cs :: (afterSlashes cs ++ [[]])).any (fits rest)
  | .char c :: rest, cs =>
    match cs with
    | d :: cs => c == d && fits rest cs
    | [] => false
  | .any :: rest, cs =>
    match cs with
    | _ :: cs => fits rest cs
    | [] => false
  | .among ranges :: rest, cs =>
    match cs with
    | c :: cs => contains ranges c && fits rest cs
    | [] => false
  | .except ranges :: rest, cs =>
    match cs with
    | c :: cs => !contains ranges c && fits rest cs
    | [] => false

def matchesPath (glob : Glob) (path : String) : Bool := fits glob path.toList

end Glob

end LeakTrace
