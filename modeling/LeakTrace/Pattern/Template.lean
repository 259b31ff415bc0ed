import LeakTrace.Tree.Kind

namespace LeakTrace

mutual

inductive Template where
  /-- A node of this kind. Its text counts only if it is given. Children of an anchored template
  line up with those of the node; others are found among them in any order. -/
  | node (kind : Kind) (text : Option String) (anchored : Bool) (children : Slots)
  /-- Any node of one of the kinds, or of any kind if there are none, under a name. -/
  | capture (name : String) (kinds : List Kind)
  | wildcard
  | variadic
  | either (first second : Template)
  /-- The node that fits is the one to report. -/
  | focus (inner : Template)

/-- The children that a template asks for, each with the part it plays. -/
inductive Slots where
  | none
  | some (role : Option Role) (template : Template) (rest : Slots)

end

instance : Inhabited Template := ⟨.wildcard⟩

namespace Slots

def ofList : List (Option Role × Template) → Slots
  | [] => .none
  | (role, template) :: rest => .some role template (ofList rest)

def toList : Slots → List (Option Role × Template)
  | .none => []
  | .some role template rest => (role, template) :: rest.toList

end Slots

namespace Template

def isVariadic : Template → Bool
  | variadic => true
  | _ => false

/-- Whether the template is a placeholder and asks for no kind of node by itself. -/
def isPlaceholder : Template → Bool
  | capture .. | wildcard | variadic => true
  | _ => false

def leaf (kind : Kind) (text : Option String) : Template := node kind text true .none

end Template

structure Pattern where
  source : String
  template : Template
  /-- The names under which it captures nodes, in the order of their first appearance. -/
  captures : List String
  focused : Bool
  deriving Inhabited

def Pattern.defines (pattern : Pattern) (name : String) : Bool := pattern.captures.contains name

end LeakTrace
