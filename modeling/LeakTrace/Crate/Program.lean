import LeakTrace.Crate.Nesting
import LeakTrace.Crate.Statement

namespace LeakTrace.Crate

open Reader

def readAll? {α : Type} (tokens : List Token) (reader : Grammar → Reader α) : Option α :=
  match (reader (grammar (8 * depth tokens + 64))).run { rest := tokens, stop := 0 } with
  | some (value, { rest := [], .. }) => some value
  | _ => none
where
  depth : List Token → Nat
    | [] => 0
    | .group _ inner _ _ :: rest => depth inner + depth rest + 1
    | _ :: rest => depth rest + 1

def items? (tokens : List Token) : Option (List Syntax) :=
  readAll? tokens fun self => do
    innerAttributes self
    untilEnd (self .item) (← size) []

def afterInterpreter (cs : List Char) (offset : Nat) : List Char × Nat :=
  match cs with
  | '#' :: '!' :: rest =>
    match (Lexer.skip (rest.length + 1) rest 0).1 with
    | '[' :: _ => (cs, offset)
    | _ =>
      let line := cs.takeWhile (· != '\n')
      (cs.drop line.length, offset + Text.byteLength line)
  | _ => (cs, offset)

def programOf (size : Nat) (parts : List Outline) : Outline :=
  .node .program none 0 size none parts

/-- Where the character before `offset` starts, in text that starts at `position`. -/
def characterBefore (offset : Nat) : List Char → (position previous : Nat) → Nat
  | [], _, previous => previous
  | c :: rest, position, previous =>
    if offset ≤ position then previous
    else characterBefore offset rest (position + c.utf8Size) position

/-- Reads a file. A byte order mark moves all that stands on the first line one character ahead, and
a file that cannot be read is one error. -/
def program (source : String) : Outline :=
  let size := source.utf8ByteSize
  let (marked, text) := match source.toList with
    | '\uFEFF' :: rest => (true, rest)
    | cs => (false, cs)
  let (cs, offset) := afterInterpreter text (if marked then 3 else 0)
  match (tokens? cs offset).bind items? with
  | some items =>
    let parts := Syntax.drawAll 0 items
    if marked then
      let line := text.takeWhile (· != '\n')
      let lineStop := 3 + Text.byteLength line
      programOf size (parts.map (Outline.relocated fun offset =>
        if offset ≤ lineStop then characterBefore offset line 3 0 else offset))
    else programOf size parts
  | none => programOf size [Outline.leaf .error 0 size none]

/-- Reads an expression, statements, or items. A text of statements is put into braces first. -/
def snippet? (text : String) : Option (String × Outline) :=
  let wrapped := "\x7b " ++ text ++ " \x7d"
  let expression := (tokens? text.toList 0).bind fun tokens =>
    (readAll? tokens fun self => self (.expression true)).map fun value =>
      [Syntax.covering .statement false [value]]
  let statements : Option (List Syntax) := (tokens? wrapped.toList 0).bind fun tokens =>
    readAll? tokens fun self => do
      let (statements, _) ← inGroup .brace (do Statement.all self (← size) [])
      return statements
  let items := (tokens? text.toList 0).bind items?
  let drawn (text : String) (parts : List Syntax) : String × Outline :=
    (text, programOf text.utf8ByteSize (Syntax.drawAll 0 parts))
  match expression, statements, items with
  | some parts, _, _ => some (drawn text parts)
  | none, some parts, _ => some (drawn wrapped parts)
  | none, none, some parts => some (drawn text parts)
  | none, none, none => none

def tree (file source : String) : Tree := (program source).toTree file .rust source

def snippetTree? (text : String) : Option Tree :=
  (snippet? text).map fun (source, outline) => outline.toTree "<pattern>" .rust source

end LeakTrace.Crate
