import LeakTrace.Text.Basic
import Std.Data.TreeMap

namespace LeakTrace

/-- The rules that are switched off, by line; an empty list of rules stands for every rule. -/
structure Suppressions where
  byLine : Std.TreeMap Nat (List String) := {}

namespace Suppressions

def directive : List Char := "sentinel:disable".toList

/-- What a line starts with when it is a comment. -/
def markers : List (List Char) := [['/', '/'], ['/', '*'], ['*'], ['#']]

def dropClosings : List Char → List Char
  | '/' :: '*' :: rest => dropClosings rest
  | cs => cs

/-- The rules that a comment line switches off for the statement below it. -/
def directive? (line : List Char) : Option (List String) :=
  let text := Text.trimStart line
  if markers.any fun marker => Text.startsWith marker text then
    (Text.find? directive text).map fun (_, rest) =>
      let rest := (dropClosings rest.reverse).reverse
      let parts := (Text.splitAt (fun c => c == ',' || c == ' ') rest).map Text.trim
      (parts.filter fun part => !part.isEmpty).map String.ofList
  else none

/-- The number of the first line with text on it; the list starts at line `number`. -/
def nextLine? (number : Nat) : List (List Char) → Option Nat
  | [] => none
  | line :: rest => if line.all Text.isBlank then nextLine? (number + 1) rest else some number

/-- The lines that directives are for, with the rules that they list. -/
def ofLines (number : Nat) : List (List Char) → List (Nat × List String)
  | [] => []
  | line :: rest =>
    match directive? line, nextLine? (number + 1) rest with
    | some rules, some target => (target, rules) :: ofLines (number + 1) rest
    | _, _ => ofLines (number + 1) rest

def ofSource (source : String) : Suppressions := ⟨.ofList (ofLines 1 (Text.lines source.toList))⟩

def isEmpty (suppressions : Suppressions) : Bool := suppressions.byLine.isEmpty

/-- Whether a statement that starts on `line` is excused from `rule`. -/
def covers (suppressions : Suppressions) (line : Nat) (rule : String) : Bool :=
  match suppressions.byLine[line]? with
  | some rules => rules.isEmpty || rules.contains rule
  | none => false

end Suppressions

end LeakTrace
