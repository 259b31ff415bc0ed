import LeakTrace.Pattern.Template

namespace LeakTrace

inductive PatternFault where
  | repeatedFocus
  | kindsRefused (name : String)
  | unknownKind (name : String)
  | malformedPlaceholder
  | blank
  | unparsable (reason : String)
  | wrongSyntax (column : Nat)
  | strayFocus
  | onlyPlaceholder
  deriving DecidableEq

def PatternFault.message : PatternFault → String
  | repeatedFocus => "`$<!>` may appear only once"
  | kindsRefused name => "`$<" ++ name ++ ">` does not take node kinds"
  | unknownKind name => "unknown node kind '" ++ name ++ "'"
  | malformedPlaceholder => "malformed placeholder"
  | blank => "empty pattern"
  | unparsable reason => reason
  | wrongSyntax column => "syntax error at column " ++ toString column
  | strayFocus => "`$<!>` must precede a node"
  | onlyPlaceholder => "pattern must contain at least one concrete node"

/-- What may stand for a part of a pattern that is left open. -/
inductive Placeholder where
  | capture (name : String) (kinds : List Kind)
  | wildcard
  | variadic
  deriving Inhabited

namespace Placeholder

def template : Placeholder → Template
  | capture name kinds => .capture name kinds
  | wildcard => .wildcard
  | variadic => .variadic

def note (names : List String) (name : String) : List String :=
  if names.contains name then names else names ++ [name]

def lower (placeholder : Placeholder) : StateM (List String) Template := do
  if let capture name _ := placeholder then modify (note · name)
  return placeholder.template

/-- The identifiers that take the places of placeholders start with one of these. -/
def singleStem : String := "SentinelVar"

def variadicStem : String := "SentinelRest"

def standIn (number : Nat) : Placeholder → String
  | variadic => variadicStem ++ toString number
  | _ => singleStem ++ toString number

def number? (identifier : String) : Option Nat :=
  let cs := identifier.toList
  let digits := match Text.after? singleStem.toList cs with
    | some digits => some digits
    | none => Text.after? variadicStem.toList cs
  digits.bind (Text.natBelow? Text.wordBound)

structure Written where
  name : String
  kinds : Option (List Char)

def name? (cs : List Char) : Option (String × List Char) :=
  match cs with
  | '!' :: rest => some ("!", rest)
  | '.' :: '.' :: '.' :: rest => some ("...", rest)
  | '_' :: rest => some ("_", rest)
  | c :: _ =>
    if Letter.isAsciiLetter c then
      let isPart (c : Char) : Bool := Letter.isAsciiLetter c || Letter.isAsciiDigit c || c == '_'
      some (String.ofList (cs.takeWhile isPart), cs.dropWhile isPart)
    else none
  | [] => none

/-- The kinds behind a name, if there are any, up to the closing mark, and what follows that. -/
def kinds? : List Char → Option (Option (List Char) × List Char)
  | '>' :: rest => some (none, rest)
  | ':' :: rest =>
    let isPart (c : Char) : Bool := Letter.isAsciiLetter c || c == '_' || c == '|'
    let kinds := rest.takeWhile isPart
    match rest.dropWhile isPart with
    | '>' :: rest => if kinds.isEmpty then none else some (some kinds, rest)
    | _ => none
  | _ => none

/-- A placeholder at the start of the text, and what follows it. -/
def written? (cs : List Char) : Option (Written × List Char) := do
  let inside ← Text.after? ['$', '<'] cs
  let (name, rest) ← name? inside
  let (kinds, rest) ← kinds? rest
  return ({ name, kinds }, rest)

def kindsOf (written : Option (List Char)) : Except PatternFault (List Kind) :=
  match written with
  | none => .ok []
  | some cs => (Text.splitAt (· == '|') cs).mapM fun name =>
    match Kind.ofName? (String.ofList name) with
    | some kind => .ok kind
    | none => .error (.unknownKind (String.ofList name))

/-- The placeholder that is written; none for the mark of the focus. -/
def ofWritten (written : Written) : Except PatternFault (Option Placeholder) := do
  let special := written.name == "!" || written.name == "_" || written.name == "..."
  if special && written.kinds.isSome then throw (.kindsRefused written.name)
  match written.name with
  | "!" => return none
  | "_" => return some wildcard
  | "..." => return some variadic
  | name => return some (capture name (← kindsOf written.kinds))

end Placeholder

/-- A pattern with identifiers in place of its placeholders. -/
structure Snippet where
  reversed : List Char := []
  placeholders : Array Placeholder := #[]
  /-- The byte offset behind which the node to report stands. -/
  focus : Option Nat := none

namespace Snippet

def text (snippet : Snippet) : String := String.ofList snippet.reversed.reverse

def write (snippet : Snippet) (cs : List Char) : Snippet :=
  { snippet with reversed := cs.reverse ++ snippet.reversed }

def add (snippet : Snippet) (written : Placeholder.Written) : Except PatternFault Snippet := do
  match ← Placeholder.ofWritten written with
  | some placeholder =>
    let snippet := snippet.write (placeholder.standIn snippet.placeholders.size).toList
    return { snippet with placeholders := snippet.placeholders.push placeholder }
  | none =>
    if snippet.focus.isSome then throw .repeatedFocus
    return { snippet with focus := some (Text.byteLength snippet.reversed) }

def extend (snippet : Snippet) (cs : List Char) : Except PatternFault Snippet :=
  match cs with
  | [] => .ok snippet
  | c :: rest =>
    match Placeholder.written? (c :: rest) with
    | some (written, after) =>
      if after.length ≤ rest.length then do
        let next ← snippet.add written
        extend next after
      else .error .malformedPlaceholder
    | none => extend (snippet.write [c]) rest
termination_by cs.length

def ofText (pattern : String) : Except PatternFault Snippet := do
  let snippet ← extend {} pattern.toList
  let cs := snippet.reversed.reverse
  if (Text.find? ['$', '<'] cs).isSome then throw .malformedPlaceholder
  if (Text.trim cs).isEmpty then throw .blank
  return snippet

end Snippet

end LeakTrace
