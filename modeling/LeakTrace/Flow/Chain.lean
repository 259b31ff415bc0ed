import LeakTrace.Flow.Shape

namespace LeakTrace

abbrev ScopeId := Nat

abbrev BindingId := Nat

inductive ChainRoot where
  | binding (id : BindingId) (name : String)
  | undeclared (name : String)
  | callResult (node : NodeId)
  | expression (node : NodeId)
  deriving DecidableEq, Inhabited

/-- An access path such as `user.address[0]`. -/
structure Chain where
  root : ChainRoot
  segments : List Key := []
  /-- An index without a static value ended the path. -/
  unknownTail : Bool := false
  deriving DecidableEq, Inhabited

namespace Chain

variable (chain : Chain)

def rootName? : Option String :=
  match chain.root with
  | .binding _ name => some name
  | .undeclared name => some name
  | _ => none

def fieldName? : Option String :=
  chain.segments.getLast?.bind Key.name?

/-- The name of what holds the last segment: the segment before it, or the root. -/
def objectName? : Option String :=
  match chain.segments.reverse with
  | [] => none
  | [_] => chain.rootName?
  | _ :: holder :: _ => holder.name?

def isUnnamed : Bool :=
  match chain.root with
  | .callResult _ | .expression _ => true
  | _ => false

def extend (key : Key) : Chain :=
  { chain with segments := chain.segments ++ [key] }

def segmentText : Key → String
  | .name name => "." ++ name
  | .element position => "[" ++ toString position ++ "]"

def rootText : ChainRoot → String
  | .binding _ name => name
  | .undeclared name => name
  | .callResult _ => "<call>"
  | .expression _ => "<expr>"

def text : String :=
  rootText chain.root ++ String.join (chain.segments.map segmentText) ++
    if chain.unknownTail then "[?]" else ""

end Chain

end LeakTrace
