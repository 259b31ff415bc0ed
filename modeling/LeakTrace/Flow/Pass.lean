import LeakTrace.Error
import LeakTrace.Flow.Resolve

namespace LeakTrace

/-- Bounds that turn a hostile file into an error. -/
structure Limits where
  maxDepth : Nat := 512
  maxNodes : Nat := 250000
  deriving DecidableEq, Inhabited

/-- When the pass came to a node, and in which scope. Epochs count from one. -/
structure Mark where
  epoch : Nat
  scope : ScopeId
  deriving DecidableEq, Inhabited

/-- The state of the single pass over a tree in source order. -/
structure Pass where
  scopes : Scopes
  shapes : ShapeStore := {}
  marks : Std.TreeMap NodeId Mark := {}
  fixed : Std.TreeMap NodeId ShapeId := {}
  current : ScopeId := Scopes.root
  epoch : Nat := 0

namespace Pass

def start : Pass := { scopes := Scopes.ofProgram }

section

variable (pass : Pass)

def mark (node : NodeId) : Pass :=
  { pass with
    epoch := pass.epoch + 1
    marks := pass.marks.insert node ⟨pass.epoch + 1, pass.current⟩ }

def newShape (shape : Shape) : ShapeId × Pass :=
  (pass.shapes.size, { pass with shapes := pass.shapes.add shape })

def newUnknown (origin : Origin) : ShapeId × Pass := pass.newShape (.unknown origin)

def setField (object : ShapeId) (key : Key) (value : ShapeId) (node : NodeId) : Pass :=
  { pass with shapes := pass.shapes.setField object key value pass.epoch node }

def declare (binding : Binding) : BindingId × Pass :=
  (pass.scopes.bindings.size, { pass with scopes := pass.scopes.declare binding })

def record (node : NodeId) (resolution : Resolution) : Pass :=
  { pass with scopes := pass.scopes.record node resolution }

def chain? (tree : Tree) (node : NodeId) : Option Chain :=
  Chain.resolve? tree pass.scopes node

/-- The path that a pattern taking `value` apart extends. -/
def patternChain? (tree : Tree) (value : NodeId) : Option Chain :=
  (pass.chain? tree value).filter fun chain => !chain.unknownTail

/-- Resolves a reference to the binding that its name has at present. -/
def reference (tree : Tree) (node : NodeId) : Pass :=
  match tree.text node with
  | none => pass
  | some name => pass.record node <| match pass.scopes.lookup pass.current name with
    | some binding => .bound binding
    | none => .undeclared

end

section

variable (tree : Tree)

def shapeOf (node : NodeId) (pass : Pass) : ShapeId × Pass :=
  match pass.fixed[node]? with
  | some shape => (shape, pass)
  | none =>
    match tree.kind node with
    | .identifier | .member | .index =>
      let chain := pass.chain? tree node
      match chain.bind fun chain => pass.scopes.terminus pass.shapes chain pass.epoch with
      | some shape => (shape, pass)
      | none => pass.newUnknown <| match chain.map Chain.root with
        | some (.undeclared _) => .undeclared
        | some (.callResult _) => .callResult
        | _ => .expression
    | .assignment =>
      match _right : tree.child? node .right with
      | some right => shapeOf right pass
      | none => pass.newUnknown .expression
    | _ => pass.newUnknown .expression
termination_by node
decreasing_by exact Tree.lt_of_child? _right

/-- What a plain `name = value` makes of the name: a holder of the value's shape, or, for a
path, another name of it. -/
def valueBinding (pass : Pass) (tree : Tree) (value : NodeId) :
    (Option ShapeId × Option Chain) × Pass :=
  let held (pass : Pass) : (Option ShapeId × Option Chain) × Pass :=
    let (shape, pass) := shapeOf tree value pass
    ((some shape, none), pass)
  match pass.chain? tree value with
  | none => held pass
  | some chain =>
    if chain.unknownTail then held pass
    else if chain.segments.isEmpty then
      match chain.root with
      | .binding id _ =>
        match (pass.scopes.binding? id).bind Binding.shape with
        | some shape => ((some shape, none), pass)
        | none => held pass
      | _ => held pass
    else if chain.isUnnamed then held pass
    else ((none, some chain), pass)

def valueShape (pass : Pass) (tree : Tree) (origin : Origin) : Option NodeId → ShapeId × Pass
  | some value => shapeOf tree value pass
  | none => pass.newUnknown origin

/-- What a name is bound to; an unknown value without a value. -/
def boundValue (pass : Pass) (tree : Tree) :
    Option NodeId → (Option ShapeId × Option Chain) × Pass
  | some value => pass.valueBinding tree value
  | none => let (shape, pass) := pass.newUnknown .expression; ((some shape, none), pass)

/-- Binds the name written at `pattern`; a name that stands for no path and has no shape
holds an unknown value. -/
def bindIdentifier (pass : Pass) (tree : Tree) (pattern : NodeId) (shape : Option ShapeId)
    (path : Option Chain) (kind : BindingKind) (site : NodeId) : Pass :=
  match tree.text pattern with
  | none => pass
  | some name =>
    let (shape, pass) := if path.isNone && shape.isNone then
        let (unknown, pass) := pass.newUnknown .expression
        (some unknown, pass)
      else (shape, pass)
    let (binding, pass) :=
      pass.declare { name, kind, scope := pass.current, node := site, shape, path }
    pass.record pattern (.bound binding)

/-- Follows the segments from `shape` on, making an object wherever nothing was written yet. -/
def descend (site : NodeId) : List Key → ShapeId → Pass → ShapeId × Pass
  | [], shape, pass => (shape, pass)
  | key :: rest, shape, pass =>
    match pass.shapes.fieldAt shape key pass.epoch with
    | some inner => descend site rest inner { pass with shapes := pass.shapes.ensureObject inner }
    | none =>
      let (inner, pass) := pass.newShape (.object none [])
      descend site rest inner (pass.setField shape key inner site)

/-- The binding at the root of a path that is written to. A name that nothing declares gets a binding
in the program scope. -/
def writeRoot (pass : Pass) (tree : Tree) (target site : NodeId) : ChainRoot → Option BindingId × Pass
  | .binding id _ => (some id, pass)
  | .undeclared name =>
    let (shape, pass) := pass.newShape (.object none [])
    let (binding, pass) := pass.declare
      { name, kind := .implicit, scope := Scopes.root, node := site, shape := some shape }
    let pass := match tree.rootIdentifier? target with
      | some identifier => pass.record identifier (.bound binding)
      | none => pass
    (some binding, pass)
  | _ => (none, pass)

/-- The object that a binding holds, made if it holds none. -/
def heldObject (pass : Pass) (binding : BindingId) : ShapeId × Pass :=
  let (shape, pass) := match (pass.scopes.binding? binding).bind Binding.shape with
    | some shape => (shape, pass)
    | none =>
      let (shape, pass) := pass.newShape (.object none [])
      (shape, { pass with
        scopes := pass.scopes.modifyBinding binding fun b => { b with shape := some shape } })
  (shape, { pass with shapes := pass.shapes.ensureObject shape })

/-- Records that `value` is written through the access path `target`. -/
def writeThrough (pass : Pass) (tree : Tree) (target : NodeId) (value : ShapeId) (site : NodeId) :
    Pass :=
  match pass.chain? tree target with
  | none => pass
  | some chain =>
    match chain.unknownTail, chain.segments.getLast? with
    | false, some last =>
      match pass.writeRoot tree target site chain.root with
      | (some binding, pass) =>
        let (shape, pass) := pass.heldObject binding
        let (holder, pass) := descend site chain.segments.dropLast shape pass
        pass.setField holder last value site
      | (none, pass) => pass
    | _, _ => pass

def addEntry (object : ShapeId) (pass : Pass) (entry : NodeId) : Pass :=
  let put (key : Option Key) (value : Option NodeId) : Pass :=
    match key, value with
    | some key, some value =>
      let (shape, pass) := shapeOf tree value pass
      pass.setField object key shape entry
    | _, _ => pass
  match tree.kind entry with
  | .pair => put ((tree.child? entry .key).bind tree.entryKey?) (tree.child? entry .value)
  | .function => put ((tree.child? entry .name).bind tree.entryKey?) (some entry)
  | .spread =>
    match (tree.codeChildren entry).head? with
    | some inner =>
      let (shape, pass) := shapeOf tree inner pass
      if pass.shapes.isObject shape then
        { pass with shapes := pass.shapes.spreadInto shape object pass.epoch pass.epoch }
      else pass
    | none => pass
  | _ => pass

def buildObject (pass : Pass) (tree : Tree) (node : NodeId) : ShapeId × Pass :=
  let (object, pass) := pass.newShape (.object (tree.text node) [])
  (object, (tree.codeChildren node).foldl (addEntry tree object) pass)

def addElements (object : ShapeId) : Nat → List NodeId → Pass → Pass
  | _, [], pass => pass
  | position, element :: rest, pass =>
    let (shape, pass) := shapeOf tree element pass
    addElements object (position + 1) rest
      (pass.setField object (.element position) shape element)

section

variable (pass : Pass)

def buildArray (tree : Tree) (node : NodeId) : ShapeId × Pass :=
  let (object, pass) := pass.newShape (.object none [])
  (object, addElements tree object 0 (tree.codeChildren node) pass)

def fixedText? (node : NodeId) : Option String :=
  match pass.fixed[node]?.bind pass.shapes.get? with
  | some (.leaf (.string text)) => some text
  | _ => none

def fixedShape (tree : Tree) (node : NodeId) : Option ShapeId × Pass :=
  let found (shape : Shape) : Option ShapeId × Pass :=
    let (id, pass) := pass.newShape shape
    (some id, pass)
  match tree.kind node with
  | .object => let (id, pass) := pass.buildObject tree node; (some id, pass)
  | .array => let (id, pass) := pass.buildArray tree node; (some id, pass)
  | .string => found (.leaf (.string ((tree.text node).getD "")))
  | .number => found (.leaf (.number ((tree.text node).getD "")))
  | .boolean => found (.leaf (.boolean (tree.text node == some "true")))
  | .null => found (.leaf .null)
  | .template | .binary =>
    match tree.concatenation node pass.fixedText? with
    | some text => found (.leaf (.string text))
    | none => (none, pass)
  | .call => found (.unknown .callResult)
  | .function => found (.unknown .function)
  | .error => found (.unknown .malformed)
  | _ => (none, pass)

def memoize (tree : Tree) (node : NodeId) : Pass :=
  match pass.fixedShape tree node with
  | (some shape, pass) => { pass with fixed := pass.fixed.insert node shape }
  | (none, pass) => pass

/-- Methods of object literals and classes do not bind their names. -/
def isMethod (node : NodeId) : Bool :=
  match tree.parent node with
  | none => false
  | some parent =>
    match tree.kind parent with
    | .object => true
    | .block => (tree.parent parent).any fun outer => tree.kind outer == .classDecl
    | _ => false

def declareName (tree : Tree) (node name : NodeId) (kind : BindingKind) (shape : String → Shape) : Pass :=
  match tree.text name with
  | none => pass
  | some text =>
    let pass := pass.mark name
    let (held, pass) := pass.newShape (shape text)
    let (binding, pass) := pass.declare
      { name := text, kind, scope := pass.current, node, shape := some held }
    pass.record name (.bound binding)

/-- Runs `body` in a new scope and returns to the present one. -/
def inScope (kind : ScopeKind) (node : NodeId) (body : Pass → Except FileFault Pass) :
    Except FileFault Pass := do
  let outer := pass.current
  let inner := pass.scopes.scopes.size
  let result ← body { pass with scopes := pass.scopes.openScope outer kind node, current := inner }
  return { result with current := outer }

end

abbrev Visit := NodeId → Pass → Except FileFault Pass

/-- What a pattern takes apart: the shape and the path of the value, and the declaring site. -/
structure Subject where
  shape : Option ShapeId := none
  chain : Option Chain := none
  kind : BindingKind
  site : NodeId

abbrev Bind := NodeId → Subject → Pass → Except FileFault Pass

section

variable (visit : Visit)

def visitAll (nodes : List NodeId) (pass : Pass) : Except FileFault Pass :=
  nodes.foldlM (fun pass node => visit node pass) pass

/-- The part of the subject under `key`; nothing is known of it without a static key. -/
def Subject.part (subject : Subject) (pass : Pass) : Option Key → Subject
  | some key =>
    { subject with
      shape := subject.shape.bind fun shape => pass.shapes.fieldAt shape key pass.epoch
      chain := subject.chain.map (·.extend key) }
  | none => { subject with shape := none, chain := none }

variable (bind : Bind)

def bindAll (patterns : List NodeId) (subject : Subject) (pass : Pass) : Except FileFault Pass :=
  patterns.foldlM (fun pass pattern => bind pattern subject pass) pass

def bindEntry (subject : Subject) (pass : Pass) (entry : NodeId) : Except FileFault Pass :=
  match tree.kind entry with
  | .pair =>
    let pass := pass.mark entry
    let key := (tree.child? entry .key).bind tree.entryKey?
    match tree.child? entry .value with
    | some value => bind value (subject.part pass key) pass
    | none => return pass
  | .identifier => bind entry (subject.part pass ((tree.text entry).map .name)) pass
  | _ => bindAll bind (tree.codeChildren entry) { subject with shape := none, chain := none } pass

/-- Binds the elements of an array pattern, the first at `position`. -/
def bindElements (subject : Subject) :
    Nat → List NodeId → Pass → Except FileFault Pass
  | _, [], pass => return pass
  | position, element :: rest, pass => do
    let part := { subject.part pass (some (.element position)) with chain := none }
    let pass ← bind element part pass
    bindElements subject (position + 1) rest pass

/-- Binds the names of a pattern, given how the parts below it are visited and bound. -/
def bindBody : Bind := fun pattern subject pass =>
  let pass := pass.mark pattern
  match tree.kind pattern with
  | .identifier =>
    let path := subject.chain.filter fun chain => !chain.segments.isEmpty && !chain.isUnnamed
    return pass.bindIdentifier tree pattern subject.shape path subject.kind subject.site
  | .objectPattern => (tree.codeChildren pattern).foldlM (bindEntry tree bind subject) pass
  | .array => bindElements bind subject 0 (tree.codeChildren pattern) pass
  | .assignment => do
    let pass ← visitAll visit (tree.child? pattern .right).toList pass
    match tree.child? pattern .left with
    | some left => bind left subject pass
    | none => return pass
  | .spread | .parameter =>
    bindAll bind (tree.codeChildren pattern) { subject with shape := none, chain := none } pass
  | _ => return pass

def visitFunction : Visit := fun node pass =>
  let pass := match (tree.child? node .name).filter fun _ => !isMethod tree node with
    | some name => pass.declareName tree node name .function fun _ => .unknown .function
    | none => pass
  pass.inScope .function node <|
    visitAll visit ((tree.children node).filter fun child => tree.role child != some .name)

def visitClass : Visit := fun node pass =>
  let pass := match tree.child? node .name with
    | some name => pass.declareName tree node name .classDecl fun text => .object (some text) []
    | none => pass
  visitAll visit ((tree.children node).filter fun child => tree.role child != some .name) pass

def visitBlock (blocks : Bool) (visit : Visit) : Visit := fun node pass =>
  let functionBody := (tree.parent node).any fun parent => tree.kind parent == .function
  if blocks && !functionBody then
    pass.inScope .block node (visitAll visit (tree.children node))
  else visitAll visit (tree.children node) pass

def visitParameter : Visit := fun node pass => do
  let value := tree.child? node .value
  let pass ← visitAll visit value.toList pass
  let (shape, pass) := pass.valueShape tree .parameter value
  let chain := value.bind (pass.patternChain? tree)
  match tree.child? node .name with
  | some pattern => bind pattern { shape := some shape, chain, kind := .parameter, site := node } pass
  | none => return pass

def subjectShape (pass : Pass) (tree : Tree) : Option NodeId → Option ShapeId × Pass
  | some value => let (shape, pass) := shapeOf tree value pass; (some shape, pass)
  | none => (none, pass)

def visitDeclaration : Visit := fun node pass => do
  let value := tree.child? node .value
  let pass ← visitAll visit value.toList pass
  match tree.child? node .name with
  | none => return pass
  | some pattern =>
    if tree.kind pattern = .identifier then
      let ((shape, path), pass) := pass.boundValue tree value
      return pass.bindIdentifier tree pattern shape path .declaration node
    else
      let (shape, pass) := pass.subjectShape tree value
      let chain := value.bind (pass.patternChain? tree)
      bind pattern { shape, chain, kind := .destructured, site := node } pass

def visitAssignment : Visit := fun node pass => do
  let right := tree.child? node .right
  let pass ← visitAll visit right.toList pass
  match tree.child? node .left with
  | none => return pass
  | some left =>
    -- Any other operator makes a value of which nothing is known.
    let value := right.filter fun _ => (tree.text node).all (· == "=")
    match tree.kind left with
    | .identifier =>
      let pass := pass.mark left
      let ((shape, path), pass) := pass.boundValue tree value
      return pass.bindIdentifier tree left shape path .assignment node
    | .member | .index =>
      let pass ← visit left pass
      let (shape, pass) := pass.valueShape tree .expression value
      return pass.writeThrough tree left shape node
    | .objectPattern | .array =>
      let (shape, pass) := pass.subjectShape tree right
      let chain := right.bind (pass.patternChain? tree)
      bind left { shape, chain, kind := .assignment, site := node } pass
    | _ => visit left pass

end

/-- A key that is written out is no reference. -/
def isStaticKey (child : NodeId) : Bool :=
  tree.role child == some .key && match tree.kind child with
    | .identifier | .string | .number => true
    | _ => false

/-- Visits the parts of a node, given how each of them is visited and bound. -/
def visitParts (blocks : Bool) (visit : Visit) (bind : Bind) : Visit :=
  fun node pass =>
    match tree.kind node with
    | .function => visitFunction tree visit node pass
    | .classDecl => visitClass tree visit node pass
    | .block => visitBlock tree blocks visit node pass
    | .declaration => visitDeclaration tree visit bind node pass
    | .assignment => visitAssignment tree visit bind node pass
    | .parameter => visitParameter tree visit bind node pass
    | .identifier => .ok (pass.reference tree node)
    | .member => visitAll visit (tree.child? node .object).toList pass
    | .pair => visitAll visit ((tree.children node).filter fun child => !isStaticKey tree child) pass
    | .error | .comment => .ok pass
    | _ => visitAll visit (tree.children node) pass

def visitBody (blocks : Bool) (visit : Visit) (bind : Bind) : Visit :=
  fun node pass => do
    let pass ← visitParts tree blocks visit bind node (pass.mark node)
    return pass.memoize tree node

end

mutual

/-- Visits a node with `room` levels left below the depth limit. -/
def visit (tree : Tree) (blocks : Bool) (limit : Nat) : (room : Nat) → Visit
  | 0 => fun _ _ => .error (.depthExceeded limit)
  | room + 1 =>
    visitBody tree blocks (visit tree blocks limit room)
      (bindBody tree (visit tree blocks limit room) (bind tree blocks limit room))

def bind (tree : Tree) (blocks : Bool) (limit : Nat) : (room : Nat) → Bind
  | 0 => fun _ _ _ => .error (.depthExceeded limit)
  | room + 1 =>
    bindBody tree (visit tree blocks limit room) (bind tree blocks limit room)

end

def run (tree : Tree) (blocks : Bool) (limits : Limits) : Except FileFault Pass :=
  if tree.size > limits.maxNodes then .error (.nodeBudgetExceeded limits.maxNodes)
  else visit tree blocks limits.maxDepth (limits.maxDepth + 1) tree.root start

end Pass

end LeakTrace
