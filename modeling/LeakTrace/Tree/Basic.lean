import LeakTrace.Span
import LeakTrace.Tree.Kind

namespace LeakTrace

/-- A node is known by its place in the tree's array of nodes. -/
abbrev NodeId := Nat

structure Node where
  kind : Kind := .other
  role : Option Role := none
  parent : Option NodeId := none
  children : List NodeId := []
  span : Span := {}
  /-- A name, the value of a string, an operator, or the name of a structure. -/
  text : Option String := none
  deriving DecidableEq, Inhabited

/-- Children stand before their parent, and every parent is a node. -/
def Linked (nodes : Array Node) : Prop :=
  ∀ id node, nodes[id]? = some node →
    (∀ child ∈ node.children, child < id) ∧ ∀ parent ∈ node.parent, id < parent ∧ parent < nodes.size

structure Tree where
  file : String
  language : Language
  source : String
  nodes : Array Node
  root : NodeId
  linked : Linked nodes

namespace Tree

variable (tree : Tree)

def size : Nat := tree.nodes.size

/-- The node of a handle; a handle outside the tree has a node without links. -/
def node (id : NodeId) : Node := tree.nodes.getD id {}

def kind (id : NodeId) : Kind := (tree.node id).kind

def role (id : NodeId) : Option Role := (tree.node id).role

def text (id : NodeId) : Option String := (tree.node id).text

def span (id : NodeId) : Span := (tree.node id).span

def parent (id : NodeId) : Option NodeId := (tree.node id).parent

def children (id : NodeId) : List NodeId := (tree.node id).children

theorem node_eq (id : NodeId) : tree.node id = {} ∨ tree.nodes[id]? = some (tree.node id) := by
  unfold node
  rw [Array.getD_eq_getD_getElem?]
  cases tree.nodes[id]? with
  | none => exact .inl rfl
  | some node => exact .inr rfl

theorem lt_of_mem_children {tree : Tree} {id child : Nat} (member : child ∈ tree.children id) :
    child < id := by
  rcases tree.node_eq id with absent | present
  · rw [children, absent] at member
    cases member
  · exact (tree.linked id _ present).1 child member

theorem lt_of_parent {tree : Tree} {id parent : Nat} (link : tree.parent id = some parent) :
    id < parent ∧ parent < tree.size := by
  rcases tree.node_eq id with absent | present
  · rw [Tree.parent, absent] at link
    cases link
  · exact (tree.linked id _ present).2 parent link

def codeChildren (id : NodeId) : List NodeId :=
  (tree.children id).filter fun child => tree.kind child != .comment

def child? (id : NodeId) (role : Role) : Option NodeId :=
  (tree.children id).find? fun child => tree.role child == some role

theorem lt_of_child? {tree : Tree} {id child : Nat} {role : Role}
    (found : tree.child? id role = some child) : child < id :=
  lt_of_mem_children (List.mem_of_find?_eq_some found)

def content (id : NodeId) : String :=
  let span := tree.span id
  (Text.slice? tree.source.toUTF8 span.start span.stop).getD ""

def ancestors (id : NodeId) : List NodeId :=
  match _link : tree.parent id with
  | none => []
  | some parent => parent :: ancestors parent
termination_by tree.size - id
decreasing_by
  have bounds := lt_of_parent _link
  exact Nat.sub_lt_sub_left (Nat.lt_trans bounds.1 bounds.2) bounds.1

def isAncestor (ancestor id : NodeId) : Bool :=
  ancestor == id || (tree.ancestors id).contains ancestor

/-- The steps of a walk through a node, with the steps that are left after it. -/
def steps (id : NodeId) (rest : Nat) : Nat :=
  (tree.children id).attach.foldr (fun child rest => steps child.1 rest) rest + 1
termination_by id
decreasing_by exact lt_of_mem_children child.2

theorem steps_eq (id : NodeId) (rest : Nat) :
    tree.steps id rest = (tree.children id).foldr tree.steps rest + 1 := by
  rw [steps, List.foldr_attach (f := tree.steps)]

/-- The top of the stack is the next node, and its children take its place. The nodes so far stand in
`order`, the last one first. -/
def sweep (order : List NodeId) : (stack : List NodeId) → List NodeId
  | [] => order.reverse
  | id :: stack => sweep (id :: order) (tree.children id ++ stack)
termination_by stack => stack.foldr tree.steps 0
decreasing_by
  rw [List.foldr_append, List.foldr_cons, steps_eq]
  exact Nat.lt_succ_self _

/-- The node and all below it, each before its children, children from left to right. -/
def subtree (id : NodeId) : List NodeId := tree.sweep [] [id]

def preorder : List NodeId := tree.subtree tree.root

end Tree

end LeakTrace
