import LeakTrace.Text.Basic

namespace LeakTrace

inductive Scalar where
  | null
  | bool (value : Bool)
  | integer (value : Int)
  | real (text : String)
  | string (text : String)
  /-- A bare word, whose sort is decided by what it is read as. -/
  | plain (text : String)
  deriving DecidableEq, Inhabited

/-- The contents of a rule file, a catalog or a report, whatever format they are written in. -/
inductive Document where
  | scalar (value : Scalar)
  | list (items : List Document)
  /-- A list that may also give the fields of a record by their places. -/
  | row (items : List Document)
  /-- Values under keys. A key that is no single value is missing. -/
  | record (entries : List (Option String × Document))
  deriving Inhabited

namespace Scalar

def nullWords : List String := ["null", "Null", "NULL", "~"]

def isNull : Scalar → Bool
  | null => true
  | plain text => text.isEmpty || nullWords.contains text
  | _ => false

def text? : Scalar → Option String
  | string text | plain text => some text
  | _ => none

def bool? : Scalar → Option Bool
  | bool value => some value
  | plain text =>
    if ["true", "True", "TRUE"].contains text then some true
    else if ["false", "False", "FALSE"].contains text then some false
    else none
  | _ => none

def natural? (base : Nat) (cs : List Char) : Option Nat :=
  if cs.isEmpty then none
  else cs.foldlM (fun n c =>
    (CharSet.hexValue? c).bind fun digit => if digit < base then some (n * base + digit) else none) 0

/-- A bare number without sign. Digits that start with a zero are no number. -/
def unsigned? (cs : List Char) : Option Nat :=
  match cs with
  | '0' :: 'x' :: digits => natural? 16 digits
  | '0' :: 'o' :: digits => natural? 8 digits
  | '0' :: 'b' :: digits => natural? 2 digits
  | '0' :: _ :: _ => none
  | _ => natural? 10 cs

def integer? : Scalar → Option Int
  | integer value => some value
  | plain text =>
    match text.toList with
    | '-' :: cs => (unsigned? cs).map fun n => -(n : Int)
    | '+' :: cs => (unsigned? cs).map fun n => (n : Int)
    | cs => (unsigned? cs).map fun n => (n : Int)
  | _ => none

end Scalar

namespace Document

def null : Document := scalar .null

def bool (value : Bool) : Document := scalar (.bool value)

def nat (value : Nat) : Document := scalar (.integer value)

def string (text : String) : Document := scalar (.string text)

def strings (texts : List String) : Document := list (texts.map string)

def object (fields : List (String × Document)) : Document :=
  record (fields.map fun (name, value) => (some name, value))

def option {α : Type} (write : α → Document) : Option α → Document
  | some value => write value
  | none => null

def isNull : Document → Bool
  | scalar value => value.isNull
  | _ => false

def string? : Document → Option String
  | scalar value => value.text?
  | _ => none

def bool? : Document → Option Bool
  | scalar value => value.bool?
  | _ => none

def integerIn? (low high : Int) : Document → Option Int
  | scalar value => value.integer?.filter fun n => decide (low ≤ n) && decide (n ≤ high)
  | _ => none

def integer? : Document → Option Int := integerIn? (-Text.signBound) (Text.signBound - 1)

def word? (document : Document) : Option Nat :=
  (document.integerIn? 0 (Text.wordBound - 1)).map Int.toNat

def halfWord? (document : Document) : Option Nat :=
  (document.integerIn? 0 (Text.halfWordBound - 1)).map Int.toNat

/-- The items of a list. A value that is left out is an empty list. -/
def items? : Document → Option (List Document)
  | list items | row items => some items
  | scalar (.plain "") => some []
  | _ => none

def listOf? {α : Type} (read : Document → Option α) (document : Document) : Option (List α) :=
  document.items?.bind fun items => items.mapM read

def strings? : Document → Option (List String) := listOf? string?

def optional? {α : Type} (read : Document → Option α) (document : Document) : Option (Option α) :=
  if document.isNull then some none else (read document).map some

abbrev Fields := List (String × Document)

/-- The fields of a record that are among the names, each at most once. Other fields are passed
over, or refused if the record is `closed`. -/
def fields? (names : List String) (closed : Bool) : Document → Option Fields
  | record entries => do
    let entries ← entries.mapM fun (key, value) => key.map fun key => (key, value)
    let (known, others) := entries.partition fun entry => names.contains entry.1
    guard (!closed || others.isEmpty)
    guard ((known.map Prod.fst).eraseDups.length == known.length)
    return known
  | row items => if items.length ≤ names.length then some (names.zip items) else none
  | scalar (.plain "") => some []
  | _ => none

namespace Fields

variable {α : Type} (fields : Fields) (name : String)

def need? (read : Document → Option α) : Option α :=
  (fields.lookup name).bind read

def option? (read : Document → Option α) : Option (Option α) :=
  match fields.lookup name with
  | some value => optional? read value
  | none => some none

def getD? (default : α) (read : Document → Option α) : Option α :=
  match fields.lookup name with
  | some value => read value
  | none => some default

end Fields

end Document

end LeakTrace
