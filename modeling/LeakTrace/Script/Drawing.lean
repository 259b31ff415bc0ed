import LeakTrace.Script.Syntax
import LeakTrace.Tree.Build

namespace LeakTrace.Script

def drawingDepth : Nat := 1024

def textAt (bytes : ByteArray) (start stop : Nat) : String := (Text.slice? bytes start stop).getD ""

def unquoted (raw : String) : String :=
  match raw.toList with
  | first :: rest =>
    match rest.reverse with
    | last :: inner =>
      if first = last && (first = '"' || first = '\'' || first = '`') then
        String.ofList inner.reverse
      else raw
    | [] => raw
  | [] => raw

def errorLeaf (part : Syntax) : Outline := Outline.leaf .error part.start part.stop none

namespace Drawing

variable (bytes : ByteArray)

def chunk (start stop : Nat) : Outline :=
  Outline.leaf .string start stop (some (textAt bytes start stop))

/-- The pieces of a template between `position` and `stop`: literal pieces, none of them empty, and
the values put between them. -/
def chunks (inner : Syntax → Outline) (stop : Nat) :
    (position : Nat) → List Syntax → List Outline
  | position, [] => if position < stop then [chunk bytes position stop] else []
  | position, part :: rest =>
    if part.form = .substitution then
      let before := if position < part.start then [chunk bytes position part.start] else []
      let value := (part.children.find? fun child => child.form != .comment).map inner
      before ++ value.toList ++ chunks inner stop part.stop rest
    else chunks inner stop position rest

def container (kind : Kind) (text : Option String) (inner : Syntax → Outline) (part : Syntax) :
    Outline :=
  .node kind none part.start part.stop text
    (part.children.map fun child => (inner child).withRole child.role)

def name (part : Syntax) : Outline :=
  if part.start = part.stop then errorLeaf part
  else Outline.leaf .identifier part.start part.stop (some (textAt bytes part.start part.stop))

def parameter (deeper : Syntax → Outline) (part : Syntax) : Outline :=
  let children := match part.form with
    | .assignment "=" =>
      ((part.children.find? fun c => c.role == some .left).map fun c =>
        (deeper c).withRole (some .name)).toList ++
      ((part.children.find? fun c => c.role == some .right).map fun c =>
        (deeper c).withRole (some .value)).toList
    | _ => [(deeper part).withRole (some .name)]
  .node .parameter (some .parameters) part.start part.stop none children

section

variable (inner deeper : Syntax → Outline) (part : Syntax)

def function : Outline :=
  .node .function none part.start part.stop none <| part.children.flatMap fun child =>
    match child.role with
    | some .parameters =>
      if child.form = .parameters then
        (child.children.filter fun c => c.form != .comment).map (parameter deeper)
      else [parameter deeper child]
    | some .name => [(inner child).withRole (some .name)]
    | some .body => [(inner child).withRole (some .body)]
    | _ => []

/-- A call shows what is called and the arguments; a template behind a name is the only argument. -/
def call : Outline :=
  .node .call none part.start part.stop none <| part.children.flatMap fun child =>
    match child.role with
    | some .function => [(inner child).withRole (some .function)]
    | some .arguments =>
      if child.form = .arguments then [(inner child).withRole (some .arguments)]
      else [.node .arguments (some .arguments) child.start child.stop none
        [(deeper child).withRole none]]
    | _ => []

/-- A name that stands for both the key and the value of a pair. -/
def shorthand (ident : Syntax) (value : Option Outline) : Outline :=
  let named := name bytes ident
  let value : Outline := match value with
    | some right => .node .assignment none ident.start right.stop (some "=")
        [named.withRole (some .left), right.withRole (some .right)]
    | none => named
  .node .pair none value.start value.stop none
    [named.withRole (some .key), value.withRole (some .value)]

def objectEntry : Outline :=
  match part.form with
  | .shorthand => shorthand bytes part none
  | .shorthandDefault =>
    match part.children.find? fun c => c.role == some .left with
    | some left =>
      shorthand bytes left ((part.children.find? fun c => c.role == some .right).map deeper)
    | none => inner part
  | _ => (inner part).withRole none

def object (kind : Kind) (inner deeper : Syntax → Outline) (part : Syntax) : Outline :=
  .node kind none part.start part.stop none (part.children.map (objectEntry bytes inner deeper))

def body : Outline :=
  let text := textAt bytes part.start part.stop
  match part.form with
  | .program => container .program none inner part
  | .block => container .block none inner part
  | .statement => container .statement none inner part
  | .declarator => container .declaration none inner part
  | .function => function inner deeper part
  | .classDecl => container .classDecl none inner part
  | .name | .shorthand => name bytes part
  | .member => container .member none inner part
  | .index => container .index none inner part
  | .call => call inner deeper part
  | .arguments => container .arguments none inner part
  | .object => object bytes .object inner deeper part
  | .objectPattern => object bytes .objectPattern inner deeper part
  | .pair => container .pair none inner part
  | .spread => container .spread none inner part
  | .array => container .array none inner part
  | .assignment operator => container .assignment (some operator) inner part
  | .shorthandDefault => container .assignment (some "=") inner part
  | .binary operator => container .binary (some operator) inner part
  | .string => Outline.leaf .string part.start part.stop (some (unquoted text))
  | .template =>
    .node .template none part.start part.stop none
      (chunks bytes inner (max (part.stop - 1) (part.start + 1)) (part.start + 1) part.children)
  | .number => Outline.leaf .number part.start part.stop (some text)
  | .boolean => Outline.leaf .boolean part.start part.stop (some text)
  | .null => Outline.leaf .null part.start part.stop none
  | .wrapper =>
    match part.children.find? fun child => child.form != .comment with
    | some child => inner child
    | none => Outline.leaf .other part.start part.stop none
  | .ret => container .ret none inner part
  | .comment => Outline.leaf .comment part.start part.stop (some text)
  | .parameters | .substitution | .other => container .other none inner part
  | .error => errorLeaf part

end

def draw : (room : Nat) → Syntax → Outline
  | 0 => errorLeaf
  | 1 => body bytes errorLeaf errorLeaf
  | room + 2 => body bytes (draw (room + 1)) (draw room)

end Drawing

def Syntax.toOutline (part : Syntax) (bytes : ByteArray) : Outline :=
  Drawing.draw bytes (drawingDepth + 1) part

end LeakTrace.Script
