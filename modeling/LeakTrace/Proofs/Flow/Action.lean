import LeakTrace.Proofs.Flow.Steps
import Mathlib.Data.List.Flatten
import Mathlib.Data.List.Nodup

namespace LeakTrace

open List Pass Option

namespace Pass

/-- Gives the name written at a node the value. -/
def named (pass : Pass) (tree : Tree) (name : NodeId) (value : Option NodeId) (kind : BindingKind)
    (site : NodeId) : Pass :=
  (pass.boundValue tree value).2.bindIdentifier tree name (pass.boundValue tree value).1.1
    (pass.boundValue tree value).1.2 kind site

/-- The shape of a value that is taken apart. Only a parameter has one without a value. -/
def takenShape (pass : Pass) (tree : Tree) (kind : BindingKind) (value : Option NodeId) :
    Option ShapeId × Pass :=
  match kind with
  | .parameter => (some (pass.valueShape tree .parameter value).1, (pass.valueShape tree .parameter value).2)
  | _ => pass.subjectShape tree value

theorem Invariant.gains_takenShape {tree : Tree} (inv : Invariant tree) {before : Pass}
    (fine : inv.Fine before) {value : Option NodeId} (free : ∀ node ∈ value, inv.Free node)
    (kind : BindingKind) :
    inv.Gains before (before.takenShape tree kind value).1 (before.takenShape tree kind value).2 := by
  unfold takenShape
  split
  · exact inv.gains_valueShape fine free .parameter
  · exact inv.gains_subjectShape fine free

/-- What is written through a target once the target has been visited. -/
def stored (pass : Pass) (tree : Tree) (target : NodeId) (value : Option NodeId) (site : NodeId) : Pass :=
  (pass.valueShape tree .expression value).2.writeThrough tree target
    (pass.valueShape tree .expression value).1 site

/-- One of the things that a visit does below the node that it has come to. -/
inductive Action where
  | visit (child : NodeId)
  /-- The parts are visited in a scope that the node opens. -/
  | scope (kind : ScopeKind) (parts : List NodeId)
  /-- The node is a name that refers to a binding. -/
  | refer
  /-- The name of a function or a class is declared. -/
  | label (name : NodeId) (kind : BindingKind) (shape : String → Shape)
  | declare (name : NodeId) (value : Option NodeId)
  | assign (name : NodeId) (value : Option NodeId)
  /-- A target is visited and written through. -/
  | store (target : NodeId) (value : Option NodeId)
  /-- A pattern takes the value apart. -/
  | take (pattern : NodeId) (value : Option NodeId) (kind : BindingKind)
  /-- A parameter without a name has a value all the same. -/
  | hold (value : Option NodeId)

namespace Action

/-- The subject of a pattern, where the shape of the value is known. -/
def subject (tree : Tree) (value : Option NodeId) (kind : BindingKind) (site : NodeId)
    (taken : Option ShapeId × Pass) : Subject :=
  { shape := taken.1, chain := value.bind (taken.2.patternChain? tree), kind, site }

def run (tree : Tree) (visit : Visit) (bind : Bind) (node : NodeId) (pass : Pass) :
    Action → Except FileFault Pass
  | .visit child => visit child pass
  | .scope kind parts => pass.inScope kind node (visitAll visit parts)
  | .refer => .ok (pass.reference tree node)
  | .label name kind shape => .ok (pass.declareName tree node name kind shape)
  | .declare name value => .ok (pass.named tree name value .declaration node)
  | .assign name value => .ok ((pass.mark name).named tree name value .assignment node)
  | .store target value => do return (← visit target pass).stored tree target value node
  | .take pattern value kind => bind pattern (subject tree value kind node (pass.takenShape tree kind value))
    (pass.takenShape tree kind value).2
  | .hold value => .ok (pass.valueShape tree .parameter value).2

/-- The children of the node that the action comes to. -/
def parts : Action → List NodeId
  | .visit child => [child]
  | .scope _ parts => parts
  | .label name _ _ | .declare name _ | .assign name _ => [name]
  | .store target _ => [target]
  | .take pattern _ _ => [pattern]
  | .refer | .hold _ => []

/-- The children that it visits. -/
def operands : Action → List NodeId
  | .visit child => [child]
  | .scope _ parts => parts
  | .store target _ => [target]
  | _ => []

theorem operands_subset (action : Action) : action.operands ⊆ action.parts := by
  cases action <;> simp [operands, parts]

end Action

/-- What a part of a pattern gets of the subject. -/
inductive Share where
  | key (key : Option Key)
  | element (position : Nat)
  | whole

def Share.of (subject : Subject) (pass : Pass) : Share → Subject
  | .key place => subject.part pass place
  | .element position => { subject.part pass (some (.element position)) with chain := none }
  | .whole => subject

/-- One of the things that are done to bind a pattern. -/
inductive BindAction where
  /-- A default is visited. -/
  | visit (value : NodeId)
  /-- The pattern is a name. -/
  | name
  /-- An entry of an object pattern is come to. -/
  | mark (entry : NodeId)
  | bind (part : NodeId) (share : Share)

namespace BindAction

def run (tree : Tree) (visit : Visit) (bind : Bind) (pattern : NodeId) (subject : Subject) (pass : Pass) :
    BindAction → Except FileFault Pass
  | .visit value => visit value pass
  | .name => .ok (pass.bindIdentifier tree pattern subject.shape
    (subject.chain.filter fun chain => !chain.segments.isEmpty && !chain.isUnnamed) subject.kind subject.site)
  | .mark entry => .ok (pass.mark entry)
  | .bind part share => bind part (share.of subject pass) pass

end BindAction

end Pass

namespace Tree

variable {tree : Tree} {node child : NodeId} {role other : Role}

theorem mem_children_of_child? (found : tree.child? node role = some child) :
    child ∈ tree.children node :=
  mem_of_find?_eq_some found

theorem role_of_child? (found : tree.child? node role = some child) : tree.role child = some role := by
  simpa using find?_some found

theorem mem_children_of_codeChildren (mem : child ∈ tree.codeChildren node) :
    child ∈ tree.children node :=
  (mem_filter.1 mem).1

theorem child?_ne_some (found : tree.child? node role = some child) (different : role ≠ other) :
    tree.child? node other ≠ some child := by
  intro also
  have same := (role_of_child? found).symm.trans (role_of_child? also)
  exact different (some.inj same)

variable (tree) (node)

/-- The pattern that a declaration, an assignment or a parameter takes a value apart by. -/
def pattern? : Option NodeId :=
  match tree.kind node with
  | .declaration => (tree.child? node .name).filter fun name => tree.kind name != .identifier
  | .assignment => (tree.child? node .left).filter fun left =>
    tree.kind left == .objectPattern || tree.kind left == .array
  | .parameter => tree.child? node .name
  | _ => none

/-- The value that is taken apart. -/
def source? : Option NodeId :=
  match tree.kind node with
  | .declaration | .parameter => tree.child? node .value
  | .assignment => tree.child? node .right
  | _ => none

/-- What an assignment writes to, unless it binds it. -/
def target? : Option NodeId :=
  match tree.kind node with
  | .assignment => (tree.child? node .left).filter fun left =>
    tree.kind left != .identifier && tree.kind left != .objectPattern && tree.kind left != .array
  | _ => none

/-- The parts of a node that are evaluated as its operands. -/
def operands : List NodeId :=
  match tree.kind node with
  | .function | .classDecl => (tree.children node).filter fun child => tree.role child != some .name
  | .declaration | .parameter => (tree.source? node).toList
  | .assignment => (tree.source? node).toList ++ (tree.target? node).toList
  | .member => (tree.child? node .object).toList
  | .pair => (tree.children node).filter fun child => !isStaticKey tree child
  | .identifier | .error | .comment => []
  | _ => tree.children node

/-- The value that an assignment gives a name or a target. Nothing is known of that of other operators. -/
def assignedValue? : Option NodeId :=
  (tree.child? node .right).filter fun _ => (tree.text node).all (· == "=")

variable {node}

/-- What an assignment does with its left side. -/
def leftAction (node left : NodeId) : Action :=
  match tree.kind left with
  | .identifier => .assign left (tree.assignedValue? node)
  | .member | .index => .store left (tree.assignedValue? node)
  | .objectPattern | .array => .take left (tree.child? node .right) .assignment
  | _ => .visit left

/-- What a visit does below a node once the node has its mark. -/
def actions (blocks : Bool) (node : NodeId) : List Action :=
  match tree.kind node with
  | .function =>
    ((tree.child? node .name).filter fun _ => !isMethod tree node).toList.map
      (.label · .function fun _ => .unknown .function) ++ [.scope .function (tree.operands node)]
  | .classDecl =>
    (tree.child? node .name).toList.map (.label · .classDecl fun text => .object (some text) []) ++
      (tree.operands node).map .visit
  | .block =>
    if blocks && !(tree.parent node).any fun parent => tree.kind parent == .function then
      [.scope .block (tree.operands node)]
    else (tree.operands node).map .visit
  | .declaration =>
    (tree.child? node .value).toList.map .visit ++ (tree.child? node .name).toList.map fun name =>
      if tree.kind name = .identifier then .declare name (tree.child? node .value)
      else .take name (tree.child? node .value) .destructured
  | .assignment =>
    (tree.child? node .right).toList.map .visit ++ (tree.child? node .left).toList.map (tree.leftAction node)
  | .parameter =>
    (tree.child? node .value).toList.map .visit ++ [match tree.child? node .name with
      | some pattern => .take pattern (tree.child? node .value) .parameter
      | none => .hold (tree.child? node .value)]
  | .identifier => [.refer]
  | _ => (tree.operands node).map .visit

def entryActions (entry : NodeId) : List BindAction :=
  match tree.kind entry with
  | .pair => .mark entry :: (tree.child? entry .value).toList.map
    (.bind · (.key ((tree.child? entry .key).bind tree.entryKey?)))
  | .identifier => [.bind entry (.key ((tree.text entry).map .name))]
  | _ => (tree.codeChildren entry).map (.bind · (.key none))

/-- What is done to bind a pattern once it has its mark. -/
def bindActions (pattern : NodeId) : List BindAction :=
  match tree.kind pattern with
  | .identifier => [.name]
  | .objectPattern => (tree.codeChildren pattern).flatMap tree.entryActions
  | .array => (tree.codeChildren pattern).zipIdx.map fun place => .bind place.1 (.element place.2)
  | .assignment => (tree.child? pattern .right).toList.map .visit ++
    (tree.child? pattern .left).toList.map (.bind · .whole)
  | .spread | .parameter => (tree.codeChildren pattern).map (.bind · (.key none))
  | _ => []

variable {tree} {blocks : Bool} {action : Action}

theorem operands_actions (tree : Tree) (blocks : Bool) (node : NodeId) :
    (tree.actions blocks node).flatMap Action.operands = tree.operands node := by
  have visits (nodes : List NodeId) : (nodes.map Action.visit).flatMap Action.operands = nodes := by
    simp [flatMap_map, Action.operands]
  unfold actions
  cases kind : tree.kind node
  case function =>
    cases (tree.child? node .name).filter fun _ => !isMethod tree node <;> simp [Action.operands]
  case classDecl => cases tree.child? node .name <;> simp [Action.operands, flatMap_map]
  case block => dsimp only; split <;> simp [Action.operands, flatMap_map]
  case declaration =>
    cases tree.child? node .name with
    | none => simp [operands, source?, kind, visits]
    | some name =>
      by_cases identifier : tree.kind name = .identifier <;>
        simp [operands, source?, kind, identifier, visits, Action.operands]
  case assignment =>
    cases found : tree.child? node .left with
    | none => simp [operands, source?, target?, kind, found, visits]
    | some left =>
      cases same : tree.kind left <;>
        simp [operands, source?, target?, leftAction, kind, found, same, visits, Action.operands,
          filter_some]
  case parameter =>
    cases tree.child? node .name <;> simp [operands, source?, kind, visits, Action.operands]
  all_goals simp [operands, kind, visits, Action.operands]

theorem sublist_optional (tree : Tree) (node : NodeId) (role : Role) :
    (tree.child? node role).toList.Sublist (tree.children node) := by
  cases found : tree.child? node role with
  | none => exact nil_sublist _
  | some child => exact singleton_sublist.2 (mem_children_of_child? found)

theorem sublist_operands (other : tree.kind node ≠ .assignment) :
    (tree.operands node).Sublist (tree.children node) := by
  unfold operands source?
  cases kind : tree.kind node
  case function | classDecl | pair => exact filter_sublist
  case declaration | parameter | member => exact tree.sublist_optional node _
  case assignment => contradiction
  case identifier | error | comment => exact nil_sublist _
  all_goals exact .refl _

/-- No child has two roles. -/
theorem subperm_roles (tree : Tree) (node : NodeId) {role other : Role} (different : role ≠ other) :
    ((tree.child? node role).toList ++ (tree.child? node other).toList).Subperm (tree.children node) := by
  refine subperm_of_subset (nodup_append.2 ⟨toList_nodup _, toList_nodup _, ?_⟩)
    (append_subset.2 ⟨(tree.sublist_optional node _).subset, (tree.sublist_optional node _).subset⟩)
  intro first found second also same
  exact child?_ne_some (mem_toList.1 found) different (same ▸ mem_toList.1 also)

theorem subperm_others (tree : Tree) (node : NodeId) (role : Role) :
    ((tree.child? node role).toList ++ (tree.children node).filter fun child =>
      tree.role child != some role).Subperm (tree.children node) := by
  refine (Subperm.append ?_ (.refl _)).trans
    (filter_append_perm (fun child => tree.role child == some role) _).subperm
  cases found : tree.child? node role with
  | none => exact nil_subperm
  | some child =>
    refine singleton_subperm_iff.2 (mem_filter.2 ⟨mem_children_of_child? found, ?_⟩)
    rw [role_of_child? found, beq_self_eq_true]

theorem subperm_actions (tree : Tree) (blocks : Bool) (node : NodeId) :
    ((tree.actions blocks node).flatMap Action.parts).Subperm (tree.children node) := by
  have visits (nodes : List NodeId) : (nodes.map Action.visit).flatMap Action.parts = nodes := by
    simp [flatMap_map, Action.parts]
  have single {make : NodeId → Action} (child : Option NodeId) (parts : ∀ child, (make child).parts = [child]) :
      (child.toList.map make).flatMap Action.parts = child.toList := by
    cases child <;> simp [parts]
  have sub (other : tree.kind node ≠ .assignment) := (sublist_operands other).subperm
  unfold actions
  cases kind : tree.kind node
  all_goals rw [kind] at sub
  case function =>
    have others := tree.subperm_others node .name
    rw [flatMap_append, single _ fun _ => rfl, flatMap_singleton]
    refine Subperm.trans (Subperm.append ?_ ?_) others
    · cases tree.child? node .name with
      | none => exact .refl _
      | some name => cases isMethod tree node <;> simp [filter_some]
    · simp [operands, kind, Action.parts, Subperm.refl]
  case classDecl =>
    rw [flatMap_append, single _ fun _ => rfl, visits]
    simpa only [operands, kind] using tree.subperm_others node .name
  case block =>
    dsimp only
    split
    · simpa [Action.parts] using sub (by decide)
    · rw [visits]
      exact sub (by decide)
  case declaration =>
    rw [flatMap_append, visits, single _ fun name => by split <;> rfl]
    exact tree.subperm_roles node (by decide)
  case assignment =>
    rw [flatMap_append, visits, single _ fun left => by unfold leftAction; split <;> rfl]
    exact tree.subperm_roles node (by decide)
  case parameter =>
    have both := tree.subperm_roles node (by decide : Role.value ≠ .name)
    rw [flatMap_append, visits]
    cases found : tree.child? node .name <;> simpa [found, Action.parts] using both
  case identifier => exact nil_subperm
  all_goals
    rw [visits]
    exact sub (by decide)

theorem mem_children_of_operands (mem : child ∈ tree.operands node) : child ∈ tree.children node := by
  rw [← tree.operands_actions false node] at mem
  obtain ⟨action, among, inside⟩ := mem_flatMap.1 mem
  exact (tree.subperm_actions false node).subset (mem_flatMap.2 ⟨action, among, action.operands_subset inside⟩)

theorem pattern?_beside {pattern : NodeId} (found : tree.pattern? node = some pattern) :
    pattern ∈ tree.children node ∧ tree.source? node ≠ some pattern := by
  unfold pattern? at found
  split at found
  · rename_i kind
    obtain ⟨named, _⟩ := filter_eq_some_iff.1 found
    simp only [source?, kind]
    exact ⟨mem_children_of_child? named, child?_ne_some named (by decide)⟩
  · rename_i kind
    obtain ⟨left, _⟩ := filter_eq_some_iff.1 found
    simp only [source?, kind]
    exact ⟨mem_children_of_child? left, child?_ne_some left (by decide)⟩
  · rename_i kind
    simp only [source?, kind]
    exact ⟨mem_children_of_child? found, child?_ne_some found (by decide)⟩
  · cases found

theorem mem_children_of_source? {value : NodeId} (found : tree.source? node = some value) :
    value ∈ tree.children node := by
  unfold source? at found
  split at found
  · exact mem_children_of_child? found
  · exact mem_children_of_child? found
  · exact mem_children_of_child? found
  · cases found

/-- What is known of the things that a visit of the node does. -/
inductive Does (tree : Tree) (node : NodeId) : Action → Prop
  | visit {child : NodeId} : child ∈ tree.operands node → Does tree node (.visit child)
  | scope {kind : ScopeKind} : (tree.kind node = .function ∨ tree.kind node = .block) →
      Does tree node (.scope kind (tree.operands node))
  | refer : tree.kind node = .identifier → Does tree node .refer
  | label {name : NodeId} {kind : BindingKind} {shape : String → Shape} : tree.child? node .name = some name →
      (∀ text, (shape text).writes = []) → (tree.kind node = .function ∨ tree.kind node = .classDecl) →
      Does tree node (.label name kind shape)
  | declare {name : NodeId} : tree.kind node = .declaration → tree.child? node .name = some name →
      tree.kind name = .identifier → Does tree node (.declare name (tree.child? node .value))
  | assign {name : NodeId} : tree.kind node = .assignment → tree.child? node .left = some name →
      tree.kind name = .identifier → Does tree node (.assign name (tree.assignedValue? node))
  | store {target : NodeId} : tree.kind node = .assignment → tree.child? node .left = some target →
      target ∈ tree.operands node → Does tree node (.store target (tree.assignedValue? node))
  | take {pattern : NodeId} {kind : BindingKind} : tree.pattern? node = some pattern →
      Does tree node (.take pattern (tree.source? node) kind)
  | hold : tree.kind node = .parameter → Does tree node (.hold (tree.child? node .value))

theorem does_of_mem (mem : action ∈ tree.actions blocks node) : tree.Does node action := by
  have visited (among : action ∈ (tree.operands node).map .visit) : tree.Does node action := by
    obtain ⟨child, inside, rfl⟩ := mem_map.1 among
    exact .visit inside
  unfold actions at mem
  cases kind : tree.kind node
  all_goals simp only [kind] at mem
  case function =>
    rcases mem_append.1 mem with label | scope
    · obtain ⟨name, found, rfl⟩ := mem_map.1 label
      exact .label (filter_eq_some_iff.1 (mem_toList.1 found)).1 (fun _ => rfl) (.inl kind)
    · cases mem_singleton.1 scope
      exact .scope (.inl kind)
  case classDecl =>
    rcases mem_append.1 mem with label | visit
    · obtain ⟨name, found, rfl⟩ := mem_map.1 label
      exact .label (mem_toList.1 found) (fun _ => rfl) (.inr kind)
    · exact visited visit
  case block =>
    split at mem
    · cases mem_singleton.1 mem
      exact .scope (.inr kind)
    · exact visited mem
  case declaration =>
    have source : tree.source? node = tree.child? node .value := by simp only [source?, kind]
    rcases mem_append.1 mem with value | name
    · exact visited (by simpa only [operands, kind, source] using value)
    obtain ⟨name, found, rfl⟩ := mem_map.1 name
    rw [mem_toList] at found
    split
    · exact .declare kind found ‹_›
    · rw [← source]
      exact .take (by simp [pattern?, *])
  case assignment =>
    have source : tree.source? node = tree.child? node .right := by simp only [source?, kind]
    rcases mem_append.1 mem with value | left
    · obtain ⟨right, found, rfl⟩ := mem_map.1 value
      exact .visit (by simp [operands, kind, source, found])
    obtain ⟨left, found, rfl⟩ := mem_map.1 left
    rw [mem_toList] at found
    unfold leftAction
    split
    · exact .assign kind found ‹_›
    · exact .store kind found (by simp [operands, target?, *])
    · exact .store kind found (by simp [operands, target?, *])
    · rw [← source]
      exact .take (by simp [pattern?, *])
    · rw [← source]
      exact .take (by simp [pattern?, *])
    · exact .visit (by simp_all [operands, target?])
  case parameter =>
    have source : tree.source? node = tree.child? node .value := by simp only [source?, kind]
    rcases mem_append.1 mem with value | name
    · exact visited (by simpa only [operands, kind, source] using value)
    rw [mem_singleton] at name
    subst name
    split
    · rw [← source]
      exact .take (by simp [pattern?, *])
    · exact .hold kind
  case identifier =>
    cases mem_singleton.1 mem
    exact .refer kind
  all_goals exact visited mem

end Tree

namespace Pass

variable {tree : Tree} {visit : Visit} {bind : Bind} {node : NodeId} {subject : Subject} {pass : Pass}

theorem foldlM_visit (nodes : List NodeId) :
    (nodes.map Action.visit).foldlM (Action.run tree visit bind node) pass = visitAll visit nodes pass :=
  foldlM_map ..

theorem foldlM_bind (nodes : List NodeId) :
    (nodes.map (BindAction.bind · (.key none))).foldlM (BindAction.run tree visit bind node subject) pass =
      bindAll bind nodes { subject with shape := none, chain := none } pass :=
  foldlM_map ..

theorem visitParts_eq (tree : Tree) (blocks : Bool) (visit : Visit) (bind : Bind) (node : NodeId)
    (pass : Pass) :
    visitParts tree blocks visit bind node pass =
      (tree.actions blocks node).foldlM (Action.run tree visit bind node) pass := by
  unfold visitParts Tree.actions
  cases kind : tree.kind node
  case function =>
    simp only [visitFunction, Tree.operands, kind, foldlM_append]
    cases (tree.child? node .name).filter fun _ => !isMethod tree node with
    | none => simp [Action.run]
    | some name =>
      simp [Action.run]
      rfl
  case classDecl =>
    simp only [visitClass, Tree.operands, kind, foldlM_append]
    cases tree.child? node .name with
    | none => simp [foldlM_visit]
    | some name =>
      simp [Action.run, foldlM_visit]
      rfl
  case block =>
    simp only [visitBlock, Tree.operands, kind]
    split <;> simp [Action.run, foldlM_visit]
  case declaration =>
    simp only [visitDeclaration, foldlM_append, foldlM_visit]
    congr
    cases tree.child? node .name with
    | none => rfl
    | some name => by_cases identifier : tree.kind name = .identifier <;> simp [identifier, Action.run] <;> rfl
  case assignment =>
    simp only [visitAssignment, foldlM_append, foldlM_visit]
    congr
    cases tree.child? node .left with
    | none => rfl
    | some left => cases kind : tree.kind left <;> simp [Tree.leftAction, kind, Action.run] <;> rfl
  case parameter =>
    simp only [visitParameter, foldlM_append, foldlM_visit]
    congr
    cases tree.child? node .name <;> simp [Action.run] <;> rfl
  all_goals simp [Tree.operands, kind, foldlM_visit, visitAll, Action.run] <;> rfl

theorem bindElements_eq (position : Nat) (nodes : List NodeId) :
    bindElements bind subject position nodes pass =
      ((nodes.zipIdx position).map fun place => BindAction.bind place.1 (.element place.2)).foldlM
        (BindAction.run tree visit bind node subject) pass := by
  induction nodes generalizing position pass with
  | nil => rfl
  | cons element rest ih =>
    exact congrArg _ (funext fun _ => ih (position + 1))

theorem bindEntry_eq (entry : NodeId) :
    bindEntry tree bind subject pass entry =
      (tree.entryActions entry).foldlM (BindAction.run tree visit bind node subject) pass := by
  unfold bindEntry Tree.entryActions
  cases tree.kind entry
  case pair => cases tree.child? entry .value <;> simp [BindAction.run] <;> rfl
  case identifier => simp [BindAction.run, Share.of]
  all_goals exact (foldlM_bind _).symm

theorem foldlM_flatMap {m : Type → Type} [Monad m] [LawfulMonad m] {α β σ : Type} {f : α → List β}
    {step : σ → β → m σ} (items : List α) (state : σ) :
    (items.flatMap f).foldlM step state =
      items.foldlM (fun state item => (f item).foldlM step state) state := by
  induction items generalizing state with
  | nil => rfl
  | cons item rest ih =>
    rw [flatMap_cons, foldlM_append, foldlM_cons]
    exact congrArg _ (funext ih)

theorem bindBody_eq (tree : Tree) (visit : Visit) (bind : Bind) (pattern : NodeId) (subject : Subject)
    (pass : Pass) :
    bindBody tree visit bind pattern subject pass =
      (tree.bindActions pattern).foldlM (BindAction.run tree visit bind pattern subject)
        (pass.mark pattern) := by
  unfold bindBody Tree.bindActions
  cases tree.kind pattern
  case identifier => rfl
  case objectPattern =>
    rw [foldlM_flatMap]
    exact congrArg (foldlM · _ _) (funext fun pass => funext fun entry => bindEntry_eq entry)
  case array => exact bindElements_eq 0 _
  case assignment =>
    rw [foldlM_append, foldlM_map]
    refine congrArg _ (funext fun pass => ?_)
    cases tree.child? pattern .left <;> simp [BindAction.run, Share.of]
  case spread | parameter => exact (foldlM_bind _).symm
  all_goals rfl

end Pass

end LeakTrace
