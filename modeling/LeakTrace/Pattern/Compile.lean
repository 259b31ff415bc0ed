import LeakTrace.Pattern.Placeholder
import LeakTrace.Source

namespace LeakTrace

namespace Tree

theorem lt_of_mem_codeChildren {tree : Tree} {id child : Nat}
    (member : child ∈ tree.codeChildren id) : child < id :=
  lt_of_mem_children (List.mem_filter.1 member).1

/-- The node without the programs, statements and blocks that hold nothing else. -/
def unwrapped (tree : Tree) (id : NodeId) : NodeId :=
  match tree.kind id with
  | .program | .statement | .block =>
    match _only : tree.codeChildren id with
    | [child] => unwrapped tree child
    | _ => id
  | _ => id
termination_by id
decreasing_by all_goals exact lt_of_mem_codeChildren (by rw [_only]; exact List.mem_singleton_self _)

end Tree

structure Stencil where
  tree : Tree
  placeholders : Array Placeholder
  focus : Option NodeId := none

namespace Stencil

section

variable (stencil : Stencil)

def placeholder? (id : NodeId) : Option Placeholder :=
  if stencil.tree.kind id == .identifier then
    ((stencil.tree.text id).bind Placeholder.number?).bind fun number =>
      stencil.placeholders[number]?
  else none

/-- The template of a property's parent as a subscript with the name of the property. -/
def subscript (children : List (Option Role × Template)) (property : String) : Template :=
  let object := match children.find? fun child => child.1 == some Role.object with
    | some (_, template) => template
    | none => .wildcard
  .node .index none true (.ofList
    [(some .object, object), (some .index, .leaf .string (some property))])

/-- The placeholder that stands for a whole pair, when it is written in place of one. -/
def pairPlaceholder? (id : NodeId) : Option Placeholder := do
  let key ← stencil.tree.child? id .key
  let value ← stencil.tree.child? id .value
  guard (stencil.tree.text key == stencil.tree.text value)
  let _ ← stencil.placeholder? key
  stencil.placeholder? value

def property? (id : NodeId) : Option String := do
  let property ← stencil.tree.child? id .property
  if (stencil.placeholder? property).isSome then none else stencil.tree.text property

def concrete (id : NodeId) (children : List (Option Role × Template)) : Template :=
  let kind := stencil.tree.kind id
  .node kind (if kind.hasSignificantText then stencil.tree.text id else none) (!kind.isUnordered)
    (.ofList children)

/-- A property also fits a subscript with its name. -/
def access (id : NodeId) (children : List (Option Role × Template)) : Template :=
  match stencil.property? id with
  | some property => .either (stencil.concrete id children) (subscript children property)
  | none => stencil.concrete id children

/-- The name of a field also fits a string. -/
def fieldName (id : NodeId) : Template :=
  .either (.leaf .identifier (stencil.tree.text id)) (.leaf .string (stencil.tree.text id))

def focused (id : NodeId) (template : Template) : Template :=
  if stencil.focus == some id then .focus template else template

/-- The template of a node; the names that it captures join those captured before. -/
def lower (id : NodeId) : StateM (List String) Template := do
  let children : StateM (List String) (List (Option Role × Template)) :=
    (stencil.tree.codeChildren id).attach.mapM fun child => do
      return (stencil.tree.role child.1, ← lower child.1)
  let template ← match stencil.placeholder? id with
    | some placeholder => placeholder.lower
    | none =>
      match stencil.tree.kind id with
      | .pair =>
        match stencil.pairPlaceholder? id with
        | some placeholder => placeholder.lower
        | none => stencil.concrete id <$> children
      | .member => stencil.access id <$> children
      | .identifier =>
        if stencil.tree.role id == some .key then pure (stencil.fieldName id)
        else stencil.concrete id <$> children
      | _ => stencil.concrete id <$> children
  return stencil.focused id template
termination_by id
decreasing_by exact Tree.lt_of_mem_codeChildren child.2

end

/-- The outermost node below `root` that starts with the first character behind the offset that is
not blank. -/
def focusAt? (tree : Tree) (root : NodeId) (offset : Nat) : Option NodeId := do
  let behind := Text.dropBytes offset tree.source.toList
  let found := Text.trimStart behind
  if found.isEmpty then none
  let start := offset + (Text.byteLength behind - Text.byteLength found)
  tree.preorder.find? fun id =>
    tree.isAncestor root id && tree.kind id != .comment && (tree.span id).start == start

end Stencil

namespace Pattern

def compileText (language : Language) (source : String) : Except PatternFault Pattern := do
  let snippet ← Snippet.ofText source
  let text := snippet.text
  let tree ← match Source.snippet language text with
    | .ok tree => pure tree
    | .error fault => throw (.unparsable fault.message)
  if let some wrong := tree.preorder.find? fun id => tree.kind id == .error then
    throw (.wrongSyntax (tree.span wrong).column)
  let root := tree.unwrapped tree.root
  let shift := match Text.find? text.toList tree.source.toList with
    | some (before, _) => Text.byteLength before
    | none => 0
  let focus ← match snippet.focus with
    | some offset =>
      match Stencil.focusAt? tree root (offset + shift) with
      | some node => pure (some node)
      | none => throw .strayFocus
    | none => pure none
  let stencil : Stencil := { tree, placeholders := snippet.placeholders, focus }
  let (template, captures) := stencil.lower root []
  if template.isPlaceholder then throw .onlyPlaceholder
  return { source, template, captures, focused := focus.isSome }

def compile (language : Language) (rule source : String) : Except SetupError Pattern :=
  match compileText language source with
  | .ok pattern => .ok pattern
  | .error fault => .error (.invalidPattern rule source fault.message)

end Pattern

end LeakTrace
