import Std.Data.TreeMap
import LeakTrace.Flow.Chain

namespace LeakTrace

inductive ScopeKind where
  | program | function | block
  deriving DecidableEq, Inhabited

inductive BindingKind where
  | declaration | assignment | parameter | function | classDecl
  | destructured
  /-- Made by writing a property of a name that nothing declares. -/
  | implicit
  deriving DecidableEq, Inhabited

structure Scope where
  kind : ScopeKind
  parent : Option ScopeId := none
  node : Option NodeId := none
  current : Std.TreeMap String BindingId := {}
  deriving Inhabited

structure Binding where
  name : String
  kind : BindingKind
  scope : ScopeId
  node : NodeId
  shape : Option ShapeId := none
  path : Option Chain := none
  deriving Inhabited

inductive Resolution where
  | bound (binding : BindingId)
  | undeclared
  deriving DecidableEq, Inhabited

/-- The scopes of a file with all versions of its bindings. A scope stands after the scope around it. -/
structure Scopes where
  scopes : Array Scope
  bindings : Array Binding := #[]
  references : Std.TreeMap NodeId Resolution := {}
  outward : ∀ (id : Nat) (scope : Scope), scopes[id]? = some scope →
    ∀ parent ∈ scope.parent, parent < id

namespace Scopes

def ofProgram : Scopes where
  scopes := #[{ kind := .program }]
  outward := by
    intro id scope found parent member
    rw [Array.getElem?_singleton] at found
    split at found
    · cases found
      cases member
    · cases found

def root : ScopeId := 0

variable (scopes : Scopes)

def binding? (id : BindingId) : Option Binding := scopes.bindings[id]?

def parent? (id : ScopeId) : Option ScopeId :=
  scopes.scopes[id]?.bind Scope.parent

theorem lt_of_parent? {scopes : Scopes} {id parent : Nat} (link : scopes.parent? id = some parent) :
    parent < id := by
  obtain ⟨scope, found, outer⟩ := Option.bind_eq_some_iff.1 link
  exact scopes.outward id scope found parent outer

def children (id : ScopeId) : List ScopeId :=
  (List.range scopes.scopes.size).filter fun inner => scopes.parent? inner == some id

/-- Opens a scope inside `parent`; its handle is the number of scopes before it. -/
def openScope (parent : ScopeId) (kind : ScopeKind) (node : NodeId) : Scopes :=
  { scopes with
    scopes := scopes.scopes.push
      { kind, node := some node, parent := if parent < scopes.scopes.size then some parent else none }
    outward := by
      intro id scope found outer member
      rw [Array.getElem?_push] at found
      split at found
      · rename_i last
        cases found
        simp only [Option.mem_def, Option.ite_none_right_eq_some, Option.some.injEq] at member
        exact last ▸ member.2 ▸ member.1
      · exact scopes.outward id scope found outer member }

/-- Binds the name in the binding's scope, in place of any earlier version there. The handle is the
number of bindings before it. -/
def declare (binding : Binding) : Scopes :=
  let id := scopes.bindings.size
  { scopes with
    bindings := scopes.bindings.push binding
    scopes := scopes.scopes.modify binding.scope fun s =>
      { s with current := s.current.insert binding.name id }
    outward := by
      intro id scope found outer member
      rw [Array.getElem?_modify] at found
      split at found
      · obtain ⟨old, atId, rfl⟩ := Option.map_eq_some_iff.1 found
        exact scopes.outward id old atId outer member
      · exact scopes.outward id scope found outer member }

/-- The binding that `name` has in the nearest scope around that has one. -/
def lookup (scope : ScopeId) (name : String) : Option BindingId :=
  match scopes.scopes[scope]?.bind fun s => s.current[name]? with
  | some binding => some binding
  | none =>
    match _link : scopes.parent? scope with
    | some outer => lookup outer name
    | none => none
termination_by scope
decreasing_by exact lt_of_parent? _link

/-- Whether `inner` is `outer` or lies somewhere inside it. -/
def isWithin (inner outer : ScopeId) : Bool :=
  if inner = outer then true else
    match _link : scopes.parent? inner with
    | some next => isWithin next outer
    | none => false
termination_by inner
decreasing_by exact lt_of_parent? _link

def record (node : NodeId) (resolution : Resolution) : Scopes :=
  { scopes with references := scopes.references.insert node resolution }

def resolution? (node : NodeId) : Option Resolution := scopes.references[node]?

def modifyBinding (id : BindingId) (f : Binding → Binding) : Scopes :=
  { scopes with bindings := scopes.bindings.modify id f }

/-- Replaces a root that is an alias by the path that it stands for. -/
def expandAlias (chain : Chain) : Chain :=
  match chain.root with
  | .binding id _ =>
    match (scopes.binding? id).bind Binding.path with
    | some path =>
      { root := path.root, segments := path.segments ++ chain.segments,
        unknownTail := path.unknownTail || chain.unknownTail }
    | none => chain
  | _ => chain

/-- The shape at the end of a path as it is at `epoch`; none when the root has no shape, a segment
was never written, or the path ends in an unknown index. -/
def terminus (shapes : ShapeStore) (chain : Chain) (epoch : Nat) : Option ShapeId :=
  if chain.unknownTail then none else
    match chain.root with
    | .binding id _ =>
      ((scopes.binding? id).bind Binding.shape).bind fun start =>
        chain.segments.foldlM (fun shape key => shapes.fieldAt shape key epoch) start
    | _ => none

end Scopes

end LeakTrace
