import LeakTrace.Crate.Token
import LeakTrace.Tree.Build

namespace LeakTrace.Crate

/-- What the grammar asks later about a part that it has read. -/
inductive Form where
  | plain
  | literal
  | range
  | comparison
  | operation
  /-- An expression that ends with a block and needs no semicolon to be a statement. -/
  | closed
  | invocation (braced : Bool)
  | rest
  /-- A range in a pattern with one of its ends left out. -/
  | openRange
  /-- A type that is a path. `simple` says that it is one name, perhaps with arguments. -/
  | typePath (qualified simple : Bool)
  deriving DecidableEq, Inhabited

/-- How a part is drawn in the uniform tree. A part without a kind is drawn as its first child, and
not at all if it has none. -/
structure Style where
  kind : Option Kind := none
  role : Option Role := none
  text : Option String := none
  /-- How many levels deeper than the part above it this one lies. -/
  step : Nat := 1
  /-- Whether the part becomes an error where it lies too deep. -/
  limited : Bool := true
  /-- Whether the part reaches as far as its children instead of as far as its tokens. -/
  covering : Bool := false
  form : Form := .plain
  deriving Inhabited

inductive Syntax where
  | node (style : Style) (start stop : Nat) (children : List Syntax)
  deriving Inhabited

namespace Syntax

def style : Syntax → Style
  | node style _ _ _ => style

def start : Syntax → Nat
  | node _ start _ _ => start

def stop : Syntax → Nat
  | node _ _ stop _ => stop

def form (part : Syntax) : Form := part.style.form

def text (part : Syntax) : Option String := part.style.text

def as (role : Role) : Syntax → Syntax
  | node style start stop children => node { style with role := some role } start stop children

def covering (kind : Kind) (limited : Bool) (children : List Syntax) : Syntax :=
  let start := (children.head?.map Syntax.start).getD 0
  let stop := (children.getLast?.map Syntax.stop).getD 0
  node { kind := some kind, limited, covering := true } start stop children

/-- The same expression with attributes before it, the first of them at `start`. They belong to the
first operand, and a literal does not reach over them. -/
def withAttributes (start : Nat) : Syntax → Syntax
  | node style _ stop (left :: rest) =>
    match style.form with
    | .operation | .comparison => node style start stop (withAttributes start left :: rest)
    | _ => node style start stop (left :: rest)
  | node style first stop [] =>
    if style.form = .literal && start < first then
      node { style with kind := none, text := none, limited := false } start stop
        [node { style with step := 0 } first stop []]
    else node style start stop []

/-- An invocation that stands as a statement of its own and ends at `stop`. -/
def asStatement (stop : Nat) : Syntax → Syntax
  | node style start _ [called, node arguments from' to' values] =>
    node { style with limited := false } start stop
      [called, node { arguments with step := 1 } from' to' values]
  | other => other

def drawingDepth : Nat := 1024

def reach (outlines : List Outline) : Nat × Nat :=
  match outlines with
  | [] => (0, 0)
  | first :: rest => rest.foldl (fun (start, stop) outline =>
      (min start outline.start, max stop outline.stop)) (first.start, first.stop)

mutual

def draw (depth : Nat) : Syntax → Option Outline
  | node style start stop children =>
    let depth := depth + style.step
    if style.limited && drawingDepth < depth then
      some (.node .error style.role start stop none [])
    else match style.kind with
      | some kind =>
        let inner := drawAll depth children
        let (start, stop) := if style.covering then reach inner else (start, stop)
        some (.node kind style.role start stop style.text inner)
      | none => (drawFirst depth children).map (·.withRole style.role)

def drawFirst (depth : Nat) : List Syntax → Option Outline
  | [] => none
  | child :: _ => draw depth child

def drawAll (depth : Nat) : List Syntax → List Outline
  | [] => []
  | child :: rest => (draw depth child).toList ++ drawAll depth rest

end

end Syntax

end LeakTrace.Crate
