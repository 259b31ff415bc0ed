import LeakTrace.Script.Token
import LeakTrace.Tree.Kind

namespace LeakTrace.Script

/-- What a node of a script's syntax is, as far as the drawing of the uniform tree depends on it. -/
inductive Form where
  | program | block | statement | declarator | function | parameters | classDecl | name | member
  | index | call | arguments | object | objectPattern | shorthand | shorthandDefault | pair | spread
  | array | string | template | substitution | number | boolean | null
  /-- Parentheses and `await`, which the uniform tree does not show. -/
  | wrapper
  | ret | comment | other | error
  | assignment (operator : String)
  | binary (operator : String)
  deriving DecidableEq, Inhabited

/-- The syntax of a script with every named part in its place. -/
inductive Syntax where
  | node (form : Form) (role : Option Role) (start stop : Nat) (children : List Syntax)
  deriving Inhabited

namespace Syntax

def form : Syntax → Form
  | node form _ _ _ _ => form

def role : Syntax → Option Role
  | node _ role _ _ _ => role

def start : Syntax → Nat
  | node _ _ start _ _ => start

def stop : Syntax → Nat
  | node _ _ _ stop _ => stop

def children : Syntax → List Syntax
  | node _ _ _ _ children => children

def as (role : Role) : Syntax → Syntax
  | node form _ start stop children => node form (some role) start stop children

def leaf (form : Form) (start stop : Nat) : Syntax := node form none start stop []

def isTarget (part : Syntax) : Bool :=
  match part.form with
  | .name | .member | .index | .object | .array | .wrapper | .null => true
  | _ => false

mutual

/-- An expression read again as the pattern that it spells. -/
def toPattern : Syntax → Syntax
  | node form role start stop children =>
    match form with
    | .object => node .objectPattern role start stop (toPatterns children)
    | .array | .spread => node form role start stop (toPatterns children)
    | .pair => node form role start stop (toPatternsIn .value children)
    | .assignment _ => node form role start stop (toPatternsIn .left children)
    | _ => node form role start stop children

def toPatterns : List Syntax → List Syntax
  | [] => []
  | part :: rest => toPattern part :: toPatterns rest

/-- Only the parts in the given role become patterns. -/
def toPatternsIn (role : Role) : List Syntax → List Syntax
  | [] => []
  | part :: rest =>
    (if part.role = some role then toPattern part else part) :: toPatternsIn role rest

end

def ofTrivia (trivia : Trivia) : Syntax :=
  let form : Form := match trivia.sort with
    | .comment => .comment
    | .html => .other
    | .skipped => .error
  leaf form trivia.start trivia.stop

mutual

/-- Puts comments, in order, into the innermost parts that reach around them. -/
def attach (comments : List Trivia) : Syntax → Syntax
  | node form role start stop children => node form role start stop (attachAll comments children)

def attachAll (comments : List Trivia) : List Syntax → List Syntax
  | [] => comments.map ofTrivia
  | part :: rest =>
    let (before, later) := comments.span fun c => c.start < part.start
    let (within, after) := later.span fun c => c.stop ≤ part.stop
    before.map ofTrivia ++ attach within part :: attachAll after rest

end

end Syntax

end LeakTrace.Script
