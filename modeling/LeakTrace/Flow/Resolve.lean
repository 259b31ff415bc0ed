import LeakTrace.Flow.Scope

namespace LeakTrace

namespace Tree

def indexKey? (tree : Tree) (index : NodeId) : Option Key :=
  match tree.kind index with
  | .string => (tree.text index).map .name
  | .number => ((tree.text index).bind Text.word?).map .element
  | _ => none

def entryKey? (tree : Tree) (key : NodeId) : Option Key :=
  (tree.text key).bind fun text =>
    match tree.kind key with
    | .identifier | .string => some (.name text)
    | .number => match Text.word? text with
      | some position => some (.element position)
      | none => some (.name text)
    | _ => none

end Tree

namespace Chain

/-- The walk from an access towards the root of its path. The segments are those met since the last
index without a static value, outermost first. -/
def collect? (tree : Tree) (scopes : Scopes) (segments : Array Key) (unknownTail : Bool)
    (node : NodeId) : Option Chain :=
  match tree.kind node with
  | .member =>
    match (tree.child? node .property).bind tree.text, _object : tree.child? node .object with
    | some name, some object => collect? tree scopes (segments.push (.name name)) unknownTail object
    | _, _ => none
  | .index =>
    match tree.child? node .index, _object : tree.child? node .object with
    | some index, some object =>
      match tree.indexKey? index with
      | some key => collect? tree scopes (segments.push key) unknownTail object
      -- The keys outside this index are keys of a value that nothing is known of.
      | none => collect? tree scopes #[] true object
    | _, _ => none
  | .identifier => (tree.text node).map fun name =>
    match scopes.resolution? node with
    | some (.bound id) => ⟨.binding id name, segments.toList.reverse, unknownTail⟩
    | _ => ⟨.undeclared name, segments.toList.reverse, unknownTail⟩
  | .call => some ⟨.callResult node, segments.toList.reverse, unknownTail⟩
  | _ => some ⟨.expression node, segments.toList.reverse, unknownTail⟩
termination_by node
decreasing_by all_goals exact Tree.lt_of_child? _object

def resolve? (tree : Tree) (scopes : Scopes) (node : NodeId) : Option Chain :=
  if (tree.kind node).isAccess then (collect? tree scopes #[] false node).map scopes.expandAlias else none

end Chain

namespace Tree

/-- The identifier that an access path hangs off. -/
def rootIdentifier? (tree : Tree) (node : NodeId) : Option NodeId :=
  match tree.kind node with
  | .identifier => some node
  | .member | .index =>
    match _object : tree.child? node .object with
    | some object => rootIdentifier? tree object
    | none => none
  | _ => none
termination_by node
decreasing_by all_goals exact lt_of_child? _object

def unknownPart : String := "*"

/-- The text of a literal, a template or a sum, given the texts of its parts; none when no part of a
sum is known to be text. -/
def concatenation (tree : Tree) (node : NodeId) (part : NodeId → Option String) : Option String :=
  match tree.kind node with
  | .string => tree.text node
  | .template => some <| String.join <| (tree.codeChildren node).map fun child =>
    if tree.kind child = .string then (tree.text child).getD ""
    else (part child).getD unknownPart
  | .binary =>
    if tree.text node = some "+" then
      match (tree.child? node .left).bind part, (tree.child? node .right).bind part with
      | none, none => none
      | left, right => some (left.getD unknownPart ++ right.getD unknownPart)
    else none
  | _ => none

end Tree

end LeakTrace
