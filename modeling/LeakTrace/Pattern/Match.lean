import LeakTrace.Pattern.Template
import LeakTrace.Tree.Basic

namespace LeakTrace

/-- Nodes under names, in the order of the names. -/
structure Captures where
  entries : List (String × NodeId) := []
  deriving DecidableEq, Inhabited

namespace Captures

def get? (captures : Captures) (name : String) : Option NodeId := captures.entries.lookup name

def insert (captures : Captures) (name : String) (node : NodeId) : Captures :=
  let (before, after) := captures.entries.span fun entry => entry.1 < name
  ⟨before ++ (name, node) :: after⟩

end Captures

structure Partial where
  captures : Captures := {}
  focus : Option NodeId := none
  deriving DecidableEq, Inhabited

structure Match where
  node : NodeId
  root : NodeId
  captures : Captures
  deriving DecidableEq, Inhabited

namespace Tree

def comparisons : List String := ["==", "===", "!=", "!==", "<", "<=", ">", ">="]

def isCompared (tree : Tree) (id : NodeId) : Bool :=
  (tree.parent id).any fun parent =>
    tree.kind parent == .binary && (tree.text parent).any comparisons.contains

/-- Takes the node under the name. A name that is taken already asks for the same source text. -/
def capture? (tree : Tree) (name : String) (kinds : List Kind) (id : NodeId) (found : Partial) :
    Option Partial :=
  let kind := tree.kind id
  if kind == .comment || (!kinds.isEmpty && !kinds.contains kind) then none
  else if kind == .string && tree.isCompared id then none
  else match found.captures.get? name with
    | some earlier => if tree.content earlier == tree.content id then some found else none
    | none => some { found with captures := found.captures.insert name id }

/-- Whether the node plays the expected part; a node or template without one fits any. -/
def rolesAgree (tree : Tree) (expected : Option Role) (id : NodeId) : Bool :=
  match expected, tree.role id with
  | some expected, some actual => expected == actual
  | _, _ => true

/-- The first success over the ends of the list, longest first. -/
def firstSuffix {α : Type} (attempt : List NodeId → Option α) : List NodeId → Option α
  | [] => attempt []
  | id :: rest =>
    match attempt (id :: rest) with
    | some found => some found
    | none => firstSuffix attempt rest

/-- The first node for which the attempt succeeds, and the other nodes. -/
def pick {α : Type} (attempt : NodeId → Option α) : List NodeId → Option (α × List NodeId)
  | [] => none
  | id :: rest =>
    match attempt id with
    | some found => some (found, rest)
    | none => (pick attempt rest).map fun (found, others) => (found, id :: others)

mutual

def fit (tree : Tree) : Template → NodeId → Partial → Option Partial
  | .wildcard, id, found => if tree.kind id == .comment then none else some found
  | .variadic, id, found => if tree.kind id == .comment then none else some found
  | .capture name kinds, id, found => tree.capture? name kinds id found
  | .either first second, id, found =>
    match fit tree first id found with
    | some found => some found
    | none => fit tree second id found
  | .focus inner, id, found =>
    (fit tree inner id found).map fun found => { found with focus := some id }
  | .node kind text anchored children, id, found =>
    if tree.kind id != kind || (text.isSome && tree.text id != text) then none
    else if anchored then fitSequence tree children (tree.codeChildren id) found
    else fitSubset tree children (tree.codeChildren id) found

/-- Fits the slots to the whole list in its order. A variadic slot passes over as few nodes as it
can. -/
def fitSequence (tree : Tree) : Slots → List NodeId → Partial → Option Partial
  | .none, targets, found => if targets.isEmpty then some found else none
  | .some role template rest, targets, found =>
    if template.isVariadic then firstSuffix (fun targets => fitSequence tree rest targets found) targets
    else match targets with
      | [] => none
      | id :: targets =>
        if tree.rolesAgree role id then
          match fit tree template id found with
          | some found => fitSequence tree rest targets found
          | none => none
        else none

/-- Fits every slot that is not variadic to a node of its own, the first that is left. -/
def fitSubset (tree : Tree) : Slots → List NodeId → Partial → Option Partial
  | .none, _, found => some found
  | .some role template rest, targets, found =>
    if template.isVariadic then fitSubset tree rest targets found
    else
      let attempt (id : NodeId) : Option Partial :=
        if tree.rolesAgree role id then fit tree template id found else none
      match pick attempt targets with
      | some (found, targets) => fitSubset tree rest targets found
      | none => none

end

end Tree

namespace Pattern

variable (pattern : Pattern)

def matchAt? (tree : Tree) (id : NodeId) : Option Match :=
  if tree.kind id == .comment then none
  else (tree.fit pattern.template id {}).map fun found =>
    { node := found.focus.getD id, root := id, captures := found.captures }

def matchesWithin (tree : Tree) (id : NodeId) : List Match :=
  (tree.subtree id).filterMap (pattern.matchAt? tree)

def matchesIn (tree : Tree) : List Match :=
  pattern.matchesWithin tree tree.root

end Pattern

end LeakTrace
