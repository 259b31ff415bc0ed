import LeakTrace.Flow.Pass
import LeakTrace.Suppression

namespace LeakTrace

/-- What is known of a file: its scopes, bindings and shapes, and where rules are switched off. -/
structure Model where
  tree : Tree
  scopes : Scopes
  shapes : ShapeStore
  marks : Std.TreeMap NodeId Mark
  fixed : Std.TreeMap NodeId ShapeId
  suppressions : Suppressions

namespace Model

/-- The model of a tree within limits; `blocks` says whether blocks have scopes of their own. -/
def ofTree (tree : Tree) (blocks : Bool) (limits : Limits) : Except FileFault Model := do
  let pass ← Pass.run tree blocks limits
  return {
    tree
    scopes := pass.scopes
    shapes := pass.shapes
    marks := pass.marks
    fixed := pass.fixed
    suppressions := Suppressions.ofSource tree.source }

variable (model : Model)

/-- The mark of the node, or of the nearest node above it that the pass came to. -/
def markOf? (node : NodeId) : Option Mark :=
  (node :: model.tree.ancestors node).findSome? fun id => model.marks[id]?

def epochOf (node : NodeId) : Nat :=
  match model.markOf? node with
  | some mark => mark.epoch
  | none => 0

def scopeOf (node : NodeId) : ScopeId :=
  match model.markOf? node with
  | some mark => mark.scope
  | none => Scopes.root

def resolution (node : NodeId) : Resolution :=
  (model.scopes.resolution? node).getD .undeclared

def chain? (node : NodeId) : Option Chain :=
  Chain.resolve? model.tree model.scopes node

def bindingShape? (binding : BindingId) (epoch : Nat) : Option ShapeId :=
  (model.scopes.binding? binding).bind fun binding =>
    match binding.path with
    | some path => model.scopes.terminus model.shapes path epoch
    | none => binding.shape

def shapeOf? (node : NodeId) : Option ShapeId :=
  match model.fixed[node]? with
  | some shape => some shape
  | none =>
    match model.tree.kind node with
    | .identifier | .member | .index =>
      (model.chain? node).bind fun chain =>
        model.scopes.terminus model.shapes chain (model.epochOf node)
    | .assignment =>
      match _right : model.tree.child? node .right with
      | some right => shapeOf? right
      | none => none
    | _ => none
termination_by node
decreasing_by exact Tree.lt_of_child? _right

/-- The text that an expression evaluates to, with `*` for each unknown part. -/
def stringValue? (node : NodeId) : Option String :=
  match model.tree.kind node with
  | .identifier | .member | .index =>
    match (model.shapeOf? node).bind model.shapes.get? with
    | some (.leaf (.string text)) => some text
    | _ => none
  | _ => model.tree.concatenation node fun child =>
    if child < node then stringValue? child else none
termination_by node

/-- The node itself or the node above it that stands directly in a program or block. -/
def statementOf (node : NodeId) : NodeId :=
  match _link : model.tree.parent node with
  | none => node
  | some parent =>
    match model.tree.kind parent with
    | .program | .block => node
    | _ => statementOf parent
termination_by model.tree.size - node
decreasing_by
  all_goals
    have bounds := Tree.lt_of_parent _link
    exact Nat.sub_lt_sub_left (Nat.lt_trans bounds.1 bounds.2) bounds.1

def className? (node : NodeId) : Option String :=
  (((model.tree.ancestors node).find? fun id => model.tree.kind id == .classDecl).bind
    fun id => model.tree.child? id .name).bind model.tree.text

/-- Whether a comment above the statement around the node switches the rule off. -/
def isSuppressed (node : NodeId) (rule : String) : Bool :=
  model.suppressions.covers (model.tree.span (model.statementOf node)).line rule

end Model

end LeakTrace
