import LeakTrace.Flow.Pass
import Mathlib.Data.List.Basic

namespace LeakTrace

open List ShapeStore Pass Option

variable {epoch early late : Nat} {resolution : Resolution}

/-- The writes of an object, latest first. -/
def Shape.writes : Shape → List Write
  | .object _ writes => writes
  | _ => []

/-- A shape as it may be later on: writes made from the epoch on have been added, and what was no
object may have become one without a name. -/
structure Shape.Grown (epoch : Nat) (old new : Shape) : Prop where
  writes : ∃ added, new.writes = added ++ old.writes ∧ ∀ write ∈ added, epoch ≤ write.epoch
  name : new.objectName? = old.objectName?
  object : old.isObject = true → new.isObject = true
  same : new.isObject = false → new = old

namespace Shape

theorem Grown.refl (epoch : Nat) (shape : Shape) : Grown epoch shape shape :=
  ⟨⟨[], rfl, forall_mem_nil _⟩, rfl, id, fun _ => rfl⟩

variable {old new : Shape}

theorem Grown.trans {first second third : Shape} (one : Grown epoch first second)
    (two : Grown epoch second third) : Grown epoch first third := by
  obtain ⟨added, addedWrites, late⟩ := one.writes
  obtain ⟨more, moreWrites, alsoLate⟩ := two.writes
  refine ⟨⟨more ++ added, ?_, ?_⟩, two.name.trans one.name, fun object =>
    two.object (one.object object), fun plain => ?_⟩
  · rw [moreWrites, addedWrites, append_assoc]
  · exact forall_mem_append.2 ⟨alsoLate, late⟩
  · have atSecond := two.same plain
    subst atSecond
    exact one.same plain

theorem Grown.mono (grown : Grown late old new) (le : early ≤ late) : Grown early old new := by
  obtain ⟨added, writes, bound⟩ := grown.writes
  exact { grown with
    writes := ⟨added, writes, fun write mem => Nat.le_trans le (bound write mem)⟩ }

theorem grown_asObject (epoch : Nat) (shape : Shape) : Grown epoch shape shape.asObject := by
  cases shape with
  | object name writes => exact .refl _ _
  | leaf literal => exact ⟨⟨[], rfl, forall_mem_nil _⟩, rfl, nofun, nofun⟩
  | unknown origin => exact ⟨⟨[], rfl, forall_mem_nil _⟩, rfl, nofun, nofun⟩

theorem grown_put {write : Write} (late : epoch ≤ write.epoch) (shape : Shape) :
    Grown epoch shape (shape.put write) := by
  have added : ∀ other ∈ [write], epoch ≤ other.epoch := forall_mem_singleton.2 late
  cases shape with
  | object name writes => exact ⟨⟨[write], rfl, added⟩, rfl, fun _ => rfl, nofun⟩
  | leaf literal => exact ⟨⟨[write], rfl, added⟩, rfl, nofun, nofun⟩
  | unknown origin => exact ⟨⟨[write], rfl, added⟩, rfl, nofun, nofun⟩

theorem fieldAt_eq (key : Key) (epoch : Nat) (shape : Shape) :
    shape.fieldAt key epoch =
      (shape.writes.find? fun write => write.epoch ≤ epoch && write.key == key).map Write.shape := by
  cases shape <;> rfl

/-- The fields that the writes leave, the latest of which comes first. -/
theorem visibleFields_eq (epoch : Nat) (shape : Shape) :
    shape.visibleFields epoch =
      (shape.writes.filter fun write => decide (write.epoch ≤ epoch)).foldr
        (fun write => replaceField ⟨write.key, write.shape, write.node⟩) [] := by
  have history : shape.history = shape.writes.reverse := by cases shape <;> rfl
  rw [visibleFields, history, foldl_reverse, foldr_filter]
  simp only [decide_eq_true_eq]

/-- Reading at an earlier epoch does not see what was added. -/
theorem Grown.fieldAt (grown : Grown epoch old new) (before : early < epoch) (key : Key) :
    new.fieldAt key early = old.fieldAt key early := by
  obtain ⟨added, writes, late⟩ := grown.writes
  rw [fieldAt_eq, fieldAt_eq, writes, find?_append]
  have unseen : (added.find? fun write => write.epoch ≤ early && write.key == key) = none := by
    rw [find?_eq_none]
    intro write mem
    have := late write mem
    simp only [Bool.and_eq_true, decide_eq_true_eq, not_and]
    omega
  rw [unseen, none_or]

theorem Grown.visibleFields (grown : Grown epoch old new) (before : early < epoch) :
    new.visibleFields early = old.visibleFields early := by
  obtain ⟨added, writes, late⟩ := grown.writes
  have unseen : added.filter (fun write => decide (write.epoch ≤ early)) = [] := by
    rw [filter_eq_nil_iff]
    intro write mem
    have := late write mem
    simp only [decide_eq_true_eq]
    omega
  rw [visibleFields_eq, visibleFields_eq, writes, filter_append, unseen, nil_append]

theorem writes_asObject (shape : Shape) : shape.asObject.writes = shape.writes := by
  cases shape <;> rfl

theorem writes_put (write : Write) (shape : Shape) :
    (shape.put write).writes = write :: shape.writes := by
  cases shape <;> rfl

end Shape

namespace ShapeStore

section

variable (store : ShapeStore)

theorem get?_add (shape : Shape) (id : ShapeId) :
    (store.add shape).get? id = if id = store.size then some shape else store.get? id :=
  Array.getElem?_push

theorem get?_ensureObject (object id : ShapeId) :
    (store.ensureObject object).get? id =
      if object = id then (store.get? id).map Shape.asObject else store.get? id :=
  Array.getElem?_modify

theorem get?_setField (object value id : ShapeId) (key : Key) (epoch : Nat) (node : NodeId) :
    (store.setField object key value epoch node).get? id =
      if object = id then (store.get? id).map (Shape.put ⟨key, value, epoch, node⟩)
      else store.get? id :=
  Array.getElem?_modify

@[simp]
theorem size_add (shape : Shape) : (store.add shape).size = store.size + 1 :=
  Array.size_push _

@[simp]
theorem size_ensureObject (object : ShapeId) : (store.ensureObject object).size = store.size :=
  Array.size_modify

@[simp]
theorem size_setField (object value : ShapeId) (key : Key) (epoch : Nat) (node : NodeId) :
    (store.setField object key value epoch node).size = store.size :=
  Array.size_modify

end

variable {store : ShapeStore} {id : ShapeId}

theorem lt_size_of_get? {shape : Shape} (found : store.get? id = some shape) : id < store.size :=
  (Array.getElem?_eq_some_iff.1 found).1

theorem exists_of_lt_size (inside : id < store.size) : ∃ shape, store.get? id = some shape :=
  ⟨_, Array.getElem?_eq_getElem inside⟩

end ShapeStore

/-- What a path may hang off for good: a name that nothing declares, a value, or a binding that is
there already and is no alias. -/
def ChainRoot.Rooted (bindings : Array Binding) : ChainRoot → Prop
  | .binding id _ => ∃ binding, bindings[id]? = some binding ∧ binding.path = none
  | _ => True

/-- A path that a name may stand for: it has keys, all of them known, and hangs off another name that
is no alias. -/
structure Chain.Expanded (bindings : Array Binding) (path : Chain) : Prop where
  rooted : path.root.Rooted bindings
  named : path.isUnnamed = false
  segments : path.segments ≠ []
  known : path.unknownTail = false

/-- The handles of the binding are there, and it has a shape if it has no path. -/
structure Binding.Fits (bindings : Array Binding) (shapes : ShapeStore) (binding : Binding) :
    Prop where
  shape : ∀ shape ∈ binding.shape, shape < shapes.size
  path : ∀ path ∈ binding.path, path.Expanded bindings
  held : binding.path = none → binding.shape ≠ none

namespace Pass

/-- All handles that the pass holds are there, and nothing was written or marked in the future. -/
structure Sound (pass : Pass) : Prop where
  writes : ∀ id shape, pass.shapes.get? id = some shape → ∀ write ∈ shape.writes,
    write.shape < pass.shapes.size ∧ write.epoch ≤ pass.epoch
  bindings : ∀ id binding, pass.scopes.binding? id = some binding →
    binding.Fits pass.scopes.bindings pass.shapes
  references : ∀ node binding, pass.scopes.resolution? node = some (.bound binding) →
    binding < pass.scopes.bindings.size
  names : ∀ (id : ScopeId) (scope : Scope), pass.scopes.scopes[id]? = some scope →
    ∀ (name : String) (binding : BindingId), scope.current[name]? = some binding →
      binding < pass.scopes.bindings.size
  fixed : ∀ (node : NodeId) (shape : ShapeId), pass.fixed[node]? = some shape →
    shape < pass.shapes.size
  marks : ∀ (node : NodeId) (mark : Mark), pass.marks[node]? = some mark → mark.epoch ≤ pass.epoch

/-- A shape to fix at a node: it was made for the node just now, after the node was marked and, if
the node is an object with parts, at a later epoch. -/
structure Fixable (tree : Tree) (node : NodeId) (shape : ShapeId) (pass : Pass) : Prop where
  held : shape < pass.shapes.size
  made : ∃ (before : Pass) (mark : Mark), before.Sound ∧
    before.fixedShape tree node = (some shape, pass) ∧ before.marks[node]? = some mark ∧
    (tree.kind node = .object → tree.children node ≠ [] → mark.epoch < before.epoch)

/-- Declares a binding and makes the node refer to it. -/
def introduce (pass : Pass) (node : NodeId) (binding : Binding) : Pass :=
  (pass.declare binding).2.record node (.bound (pass.declare binding).1)

/-- Opens a scope inside the current one and goes on there. -/
def enter (pass : Pass) (kind : ScopeKind) (node : NodeId) : Pass :=
  { pass with
    scopes := pass.scopes.openScope pass.current kind node
    current := pass.scopes.scopes.size }

/-- The pass came to the node in the scope where it is at present. -/
def Here (pass : Pass) (node : NodeId) : Prop :=
  ∃ mark, pass.marks[node]? = some mark ∧ mark.scope = pass.current

/-- The node is the name of a binding of the current scope. -/
structure Named (tree : Tree) (pass : Pass) (node : NodeId) (binding : Binding) : Prop where
  text : tree.text node = some binding.name
  scope : binding.scope = pass.current
  fits : binding.Fits pass.scopes.bindings pass.shapes

/-- The node is the identifier at the root of a path that is written to, and nothing declares the name
that the path hangs off once aliases are expanded. The binding is one of the program for that name. -/
structure Implied (tree : Tree) (pass : Pass) (node : NodeId) (binding : Binding) : Prop where
  kind : binding.kind = .implicit
  scope : binding.scope = Scopes.root
  pathless : binding.path = none
  written : ∃ target chain, tree.child? binding.node .left = some target ∧
    tree.rootIdentifier? target = some node ∧ pass.chain? tree target = some chain ∧
    chain.root = .undeclared binding.name
  fits : binding.Fits pass.scopes.bindings pass.shapes

/-- One change of the pass that comes to no node. Nodes that get a resolution or a fixed shape lie in
the region. -/
inductive Move (tree : Tree) (Region : NodeId → Prop) (pass : Pass) : Pass → Prop
  | add {shape : Shape} : shape.writes = [] → Move tree Region pass (pass.newShape shape).2
  | write {object value : ShapeId} {key : Key} {node : NodeId} : value < pass.shapes.size →
      Move tree Region pass (pass.setField object key value node)
  | promote (object : ShapeId) :
      Move tree Region pass { pass with shapes := pass.shapes.ensureObject object }
  | refer {node : NodeId} : Region node → Here pass node →
      Move tree Region pass (pass.reference tree node)
  | bind {node : NodeId} {binding : Binding} : Region node → Here pass node →
      Named tree pass node binding → Move tree Region pass (pass.introduce node binding)
  | imply {node : NodeId} {binding : Binding} : Region node → Implied tree pass node binding →
      Move tree Region pass (pass.introduce node binding)
  | fix {node : NodeId} {shape : ShapeId} : Region node → Fixable tree node shape pass →
      Move tree Region pass { pass with fixed := pass.fixed.insert node shape }

/-- A part of the pass, with the nodes that it comes to in their order. It comes to a node when it
marks it, or when it binds the name of a declaration, which is not marked. -/
inductive Course (tree : Tree) (Region : NodeId → Prop) : Pass → List NodeId → Pass → Prop
  | start {before : Pass} : Course tree Region before [] before
  | mark {before pass : Pass} {trace : List NodeId} {node : NodeId} :
      Course tree Region before trace pass → Region node →
      Course tree Region before (trace ++ [node]) (pass.mark node)
  | name {before pass : Pass} {trace : List NodeId} {node owner : NodeId} {binding : Binding} :
      Course tree Region before trace pass → Region node → node ∈ tree.children owner →
      Here pass owner → Named tree pass node binding →
      Course tree Region before (trace ++ [node]) (pass.introduce node binding)
  | move {before pass after : Pass} {trace : List NodeId} : Course tree Region before trace pass →
      Move tree Region pass after → Course tree Region before trace after
  | scope {before pass last : Pass} {trace inner : List NodeId} (kind : ScopeKind) (node : NodeId) :
      Course tree Region before trace pass → Course tree Region (pass.enter kind node) inner last →
      Course tree Region before (trace ++ inner) { last with current := pass.current }

variable {tree : Tree} {Region : NodeId → Prop} {before middle after : Pass} {trace later : List NodeId}
  {Larger : NodeId → Prop} {α : Type} {node other : NodeId} {binding : Binding}

theorem Course.trans (first : Course tree Region before trace middle)
    (second : Course tree Region middle later after) :
    Course tree Region before (trace ++ later) after := by
  induction second with
  | start => rw [append_nil]; exact first
  | mark _ region ih => rw [← append_assoc]; exact (ih first).mark region
  | name _ region child here named ih =>
    rw [← append_assoc]
    exact (ih first).name region child here named
  | move _ step ih => exact (ih first).move step
  | scope kind node _ inner ih _ => rw [← append_assoc]; exact (ih first).scope kind node inner

theorem Move.mono (step : Move tree Region before after) (inside : ∀ node, Region node → Larger node) :
    Move tree Larger before after := by
  cases step with
  | add bare => exact .add bare
  | write held => exact .write held
  | promote object => exact .promote object
  | refer region here => exact .refer (inside _ region) here
  | bind region here named => exact .bind (inside _ region) here named
  | imply region implied => exact .imply (inside _ region) implied
  | fix region made => exact .fix (inside _ region) made

theorem Course.mono (course : Course tree Region before trace after)
    (inside : ∀ node, Region node → Larger node) : Course tree Larger before trace after := by
  induction course with
  | start => exact .start
  | mark _ region ih => exact ih.mark (inside _ region)
  | name _ region child here named ih => exact ih.name (inside _ region) child here named
  | move _ step ih => exact ih.move (step.mono inside)
  | scope kind node _ _ ih ihInner => exact ih.scope kind node ihInner

theorem Move.course (step : Move tree Region before after) : Course tree Region before [] after :=
  .move .start step

theorem reference_eq (tree : Tree) (pass : Pass) (node : NodeId) :
    pass.reference tree node = { pass with scopes := (pass.reference tree node).scopes } := by
  unfold reference
  split <;> rfl

theorem Move.epoch_eq (step : Move tree Region before after) : after.epoch = before.epoch := by
  cases step with
  | refer => rw [reference_eq]
  | _ => rfl

theorem Move.marks_eq (step : Move tree Region before after) : after.marks = before.marks := by
  cases step with
  | refer => rw [reference_eq]
  | _ => rfl

theorem Move.current_eq (step : Move tree Region before after) : after.current = before.current := by
  cases step with
  | refer => rw [reference_eq]
  | _ => rfl

theorem Course.epoch_le (course : Course tree Region before trace after) :
    before.epoch ≤ after.epoch := by
  induction course with
  | start => exact Nat.le_refl _
  | mark _ _ ih => exact Nat.le_succ_of_le ih
  | name _ _ _ _ _ ih => exact ih
  | move _ step ih => exact step.epoch_eq ▸ ih
  | scope _ _ _ _ ih ihInner => exact Nat.le_trans ih ihInner

theorem Course.epoch_le_add (course : Course tree Region before trace after) :
    after.epoch ≤ before.epoch + trace.length := by
  induction course with
  | start => exact Nat.le_refl _
  | @mark _ pass trace node _ _ ih =>
    rw [length_append, length_singleton, ← Nat.add_assoc]
    exact Nat.succ_le_succ ih
  | name _ _ _ _ _ ih =>
    rw [length_append]
    exact Nat.le_trans ih (by omega)
  | move _ step ih => exact step.epoch_eq ▸ ih
  | @scope _ pass last _ _ kind node _ _ ih ihInner =>
    have entered : (pass.enter kind node).epoch = pass.epoch := rfl
    have left : epoch { last with current := pass.current } = last.epoch := rfl
    rw [length_append]
    omega

theorem Course.epoch_eq (course : Course tree Region before [] after) : after.epoch = before.epoch :=
  Nat.le_antisymm course.epoch_le_add course.epoch_le

/-- The epoch is that of the node that was marked last. -/
theorem Course.last_mark (course : Course tree Region before trace after) :
    after.epoch = before.epoch ∧ after.marks = before.marks ∨
      ∃ node ∈ trace, ∃ mark, after.marks[node]? = some mark ∧ mark.epoch = after.epoch := by
  induction course with
  | start => exact .inl ⟨rfl, rfl⟩
  | mark =>
    exact .inr ⟨_, mem_append_right _ mem_cons_self, _, Std.TreeMap.getElem?_insert_self, rfl⟩
  | name _ _ _ _ _ ih =>
    refine ih.imp id ?_
    rintro ⟨node, among, marked⟩
    exact ⟨node, mem_append_left _ among, marked⟩
  | move _ step ih => rwa [step.epoch_eq, step.marks_eq]
  | scope _ _ _ _ ih ihInner =>
    rcases ihInner with ⟨epoch, marks⟩ | ⟨node, among, marked⟩
    · refine ih.imp (fun same => ⟨epoch.trans same.1, marks.trans same.2⟩) ?_
      rintro ⟨node, among, mark, marked, latest⟩
      exact ⟨node, mem_append_left _ among, mark, marks ▸ marked, latest.trans epoch.symm⟩
    · exact .inr ⟨node, mem_append_right _ among, marked⟩

theorem Course.current_eq (course : Course tree Region before trace after) :
    after.current = before.current := by
  induction course with
  | start => rfl
  | mark _ _ ih => exact ih
  | name _ _ _ _ _ ih => exact ih
  | move _ step ih => exact step.current_eq.trans ih
  | scope _ _ _ _ ih _ => exact ih

theorem getElem?_insert_of_ne {map : Std.TreeMap NodeId α} {value : α} (different : node ≠ other) :
    (map.insert node value)[other]? = map[other]? := by
  rw [Std.TreeMap.getElem?_insert, if_neg]
  rwa [Std.compare_eq_iff_eq]

theorem eq_or_of_getElem?_insert {map : Std.TreeMap NodeId α} {value found : α}
    (held : (map.insert node value)[other]? = some found) :
    node = other ∧ value = found ∨ map[other]? = some found := by
  rw [Std.TreeMap.getElem?_insert] at held
  split at held
  · rename_i same
    exact .inl ⟨Std.compare_eq_iff_eq.1 same, some.inj held⟩
  · exact .inr held

theorem Course.marks_eq (course : Course tree Region before trace after) (absent : node ∉ trace) :
    after.marks[node]? = before.marks[node]? := by
  induction course with
  | start => rfl
  | mark _ _ ih =>
    rw [mem_append, not_or, mem_singleton] at absent
    exact (getElem?_insert_of_ne fun same => absent.2 same.symm).trans (ih absent.1)
  | name _ _ _ _ _ ih => exact ih fun mem => absent (mem_append_left _ mem)
  | move _ step ih => rw [step.marks_eq, ih absent]
  | scope _ _ _ _ ih ihInner =>
    rw [mem_append, not_or] at absent
    exact (ihInner absent.2).trans (ih absent.1)

theorem here_mark (pass : Pass) (node : NodeId) : Here (pass.mark node) node :=
  ⟨_, Std.TreeMap.getElem?_insert_self, rfl⟩

theorem Course.here (course : Course tree Region before trace after) (absent : node ∉ trace)
    (here : Here before node) : Here after node := by
  obtain ⟨mark, marked, scope⟩ := here
  exact ⟨mark, (course.marks_eq absent).trans marked, scope.trans course.current_eq.symm⟩

/-- What a part of the pass leaves as it was: the bindings, and all that is known of nodes outside the
region. Shapes only grow, by writes made from the epoch on. -/
structure Extends (Region : NodeId → Prop) (epoch : Nat) (before after : Pass) : Prop where
  shapes : ∀ id old, before.shapes.get? id = some old →
    ∃ new, after.shapes.get? id = some new ∧ old.Grown epoch new
  bindings : ∀ id binding, before.scopes.binding? id = some binding →
    after.scopes.binding? id = some binding
  references : ∀ node, ¬Region node →
    after.scopes.resolution? node = before.scopes.resolution? node
  marks : ∀ node, ¬Region node → after.marks[node]? = before.marks[node]?
  fixed : ∀ node, ¬Region node → after.fixed[node]? = before.fixed[node]?

theorem Extends.refl (Region : NodeId → Prop) (epoch : Nat) (pass : Pass) :
    Extends Region epoch pass pass :=
  ⟨fun _ old found => ⟨old, found, .refl _ _⟩, fun _ _ found => found, fun _ _ => rfl,
    fun _ _ => rfl, fun _ _ => rfl⟩

theorem Extends.trans (first : Extends Region epoch before middle)
    (second : Extends Region epoch middle after) : Extends Region epoch before after := by
  refine ⟨fun id old found => ?_, fun id binding found => second.bindings _ _ (first.bindings _ _ found),
    fun node outside => (second.references node outside).trans (first.references node outside),
    fun node outside => (second.marks node outside).trans (first.marks node outside),
    fun node outside => (second.fixed node outside).trans (first.fixed node outside)⟩
  obtain ⟨between, atMiddle, grown⟩ := first.shapes id old found
  obtain ⟨new, atAfter, grownMore⟩ := second.shapes id between atMiddle
  exact ⟨new, atAfter, grown.trans grownMore⟩

theorem Extends.mono (extend : Extends Region late before after)
    (larger : ∀ node, Region node → Larger node) (le : early ≤ late) :
    Extends Larger early before after := by
  refine ⟨fun id old found => ?_, extend.bindings,
    fun node outside => extend.references node fun inside => outside (larger node inside),
    fun node outside => extend.marks node fun inside => outside (larger node inside),
    fun node outside => extend.fixed node fun inside => outside (larger node inside)⟩
  obtain ⟨new, atAfter, grown⟩ := extend.shapes id old found
  exact ⟨new, atAfter, grown.mono le⟩

theorem Extends.size_le (extend : Extends Region epoch before after) :
    before.shapes.size ≤ after.shapes.size := by
  by_contra shorter
  obtain ⟨old, found⟩ := exists_of_lt_size (Nat.lt_of_not_le shorter)
  obtain ⟨new, atAfter, _⟩ := extend.shapes _ old found
  exact Nat.lt_irrefl _ (lt_size_of_get? atAfter)

theorem Extends.bindings_le (extend : Extends Region epoch before after) :
    before.scopes.bindings.size ≤ after.scopes.bindings.size := by
  by_contra shorter
  have inside := Nat.lt_of_not_le shorter
  obtain ⟨short, _⟩ :=
    Array.getElem?_eq_some_iff.1 (extend.bindings _ _ (Array.getElem?_eq_getElem inside))
  exact Nat.lt_irrefl _ short

theorem extends_mark (region : Region node) : Extends Region epoch before (before.mark node) := by
  refine { Extends.refl Region epoch before with marks := fun other outside => ?_ }
  exact getElem?_insert_of_ne fun same => outside (same ▸ region)

theorem extends_record (region : Region node) :
    Extends Region epoch before (before.record node resolution) := by
  refine { Extends.refl Region epoch before with references := fun other outside => ?_ }
  exact getElem?_insert_of_ne fun same => outside (same ▸ region)

theorem extends_introduce (region : Region node) :
    Extends Region epoch before (before.introduce node binding) := by
  refine Extends.trans ?_ (extends_record region)
  refine { Extends.refl Region epoch before with bindings := fun id other found => ?_ }
  obtain ⟨inside, _⟩ := Array.getElem?_eq_some_iff.1 found
  exact Array.getElem?_push.trans ((if_neg (Nat.ne_of_lt inside)).trans found)

theorem extends_enter (before : Pass) (kind : ScopeKind) (node : NodeId) :
    Extends Region epoch before (before.enter kind node) :=
  { Extends.refl Region epoch before with }

theorem extends_leave (before : Pass) (outer : ScopeId) :
    Extends Region epoch before { before with current := outer } :=
  { Extends.refl Region epoch before with }

theorem Move.extends (step : Move tree Region before after) (late : epoch ≤ before.epoch) :
    Extends Region epoch before after := by
  have same := Extends.refl Region epoch before
  cases step with
  | add _ =>
    refine { same with shapes := fun id old found => ⟨old, ?_, .refl _ _⟩ }
    have inside := lt_size_of_get? found
    exact (get?_add _ _ _).trans ((if_neg (Nat.ne_of_lt inside)).trans found)
  | write _ =>
    refine { same with shapes := fun id old found => ?_ }
    rw [setField, get?_setField]
    split
    · exact ⟨_, congrArg _ found, Shape.grown_put late old⟩
    · exact ⟨old, found, .refl _ _⟩
  | promote object =>
    refine { same with shapes := fun id old found => ?_ }
    rw [get?_ensureObject]
    split
    · exact ⟨_, congrArg _ found, Shape.grown_asObject _ old⟩
    · exact ⟨old, found, .refl _ _⟩
  | refer region _ =>
    unfold reference
    split
    · exact same
    · exact extends_record region
  | bind region _ _ => exact extends_introduce region
  | imply region _ => exact extends_introduce region
  | fix region _ =>
    refine { same with fixed := fun other outside => ?_ }
    exact getElem?_insert_of_ne fun equal => outside (equal ▸ region)

theorem Course.extends (course : Course tree Region before trace after)
    (late : epoch ≤ before.epoch) : Extends Region epoch before after := by
  induction course with
  | start => exact .refl _ _ _
  | mark _ region ih => exact (ih late).trans (extends_mark region)
  | name _ region _ _ _ ih => exact (ih late).trans (extends_introduce region)
  | move course step ih => exact (ih late).trans (step.extends (Nat.le_trans late course.epoch_le))
  | @scope _ pass last _ _ kind node course _ ih ihInner =>
    have inner := ihInner (Nat.le_trans late course.epoch_le)
    exact (((ih late).trans (extends_enter pass kind node)).trans inner).trans (extends_leave last _)

theorem Extends.rooted {root : ChainRoot} (extend : Extends Region epoch before after)
    (rooted : root.Rooted before.scopes.bindings) : root.Rooted after.scopes.bindings := by
  cases root with
  | binding id name =>
    obtain ⟨binding, found, plain⟩ := rooted
    exact ⟨binding, extend.bindings id binding found, plain⟩
  | _ => trivial

theorem Extends.fits (extend : Extends Region epoch before after)
    (fits : binding.Fits before.scopes.bindings before.shapes) :
    binding.Fits after.scopes.bindings after.shapes :=
  ⟨fun shape mem => Nat.lt_of_lt_of_le (fits.shape shape mem) extend.size_le,
    fun path mem =>
      { fits.path path mem with rooted := extend.rooted (fits.path path mem).rooted },
    fits.held⟩

theorem sound_start : start.Sound where
  writes := fun _ _ found => nomatch found
  bindings := fun _ _ found => nomatch found
  references := fun _ _ found => nomatch Std.TreeMap.getElem?_emptyc.symm.trans found
  names := by
    intro id scope found name binding named
    rw [start, Scopes.ofProgram, Array.getElem?_singleton] at found
    split at found
    · cases found
      cases Std.TreeMap.getElem?_emptyc.symm.trans named
    · cases found
  fixed := fun _ _ found => nomatch Std.TreeMap.getElem?_emptyc.symm.trans found
  marks := fun _ _ found => nomatch Std.TreeMap.getElem?_emptyc.symm.trans found

namespace Sound

variable (sound : before.Sound)
include sound

theorem mark (node : NodeId) : (before.mark node).Sound := by
  refine { sound with
    writes := fun id shape found write mem => ?_
    marks := fun other mark found => ?_ }
  · have old := sound.writes id shape found write mem
    exact ⟨old.1, Nat.le_succ_of_le old.2⟩
  · rcases eq_or_of_getElem?_insert found with ⟨_, rfl⟩ | found
    · exact Nat.le_refl _
    · exact Nat.le_succ_of_le (sound.marks other mark found)

/-- Other shapes that are as many or more, and whose writes have handles that are there. -/
theorem withShapes {shapes : ShapeStore} (size : before.shapes.size ≤ shapes.size)
    (writes : ∀ id shape, shapes.get? id = some shape → ∀ write ∈ shape.writes, write.shape < shapes.size ∧
      write.epoch ≤ before.epoch) : Sound { before with shapes } := by
  refine { sound with
    writes := writes
    bindings := fun id binding found => ?_
    fixed := fun node shape found => Nat.lt_of_lt_of_le (sound.fixed node shape found) size }
  have fits := sound.bindings id binding found
  exact ⟨fun shape mem => Nat.lt_of_lt_of_le (fits.shape shape mem) size, fits.path, fits.held⟩

theorem record (known : ∀ binding, resolution = .bound binding → binding < before.scopes.bindings.size)
    (node : NodeId) : (before.record node resolution).Sound := by
  refine { sound with references := fun other binding found => ?_ }
  rcases eq_or_of_getElem?_insert found with ⟨_, same⟩ | found
  · exact known binding same
  · exact sound.references other binding found

theorem introduce (fits : binding.Fits before.scopes.bindings before.shapes) (node : NodeId) :
    (before.introduce node binding).Sound := by
  have extend : Extends (fun _ => True) before.epoch before (before.introduce node binding) :=
    extends_introduce trivial
  have declared : (before.declare binding).2.Sound := by
    refine { sound with bindings := ?_, references := ?_, names := ?_ }
    · intro id other found
      rw [declare, Scopes.binding?, Scopes.declare, Array.getElem?_push] at found
      split at found
      · cases found
        exact extend.fits fits
      · exact extend.fits (sound.bindings id other found)
    · exact fun node other found =>
        Nat.lt_of_lt_of_le (sound.references node other found) extend.bindings_le
    · intro id scope found name other named
      rw [declare, Scopes.declare, Array.getElem?_modify] at found
      split at found
      · obtain ⟨old, atId, rfl⟩ := map_eq_some_iff.1 found
        rw [Std.TreeMap.getElem?_insert] at named
        split at named
        · cases named
          simp [declare, Scopes.declare]
        · exact Nat.lt_of_lt_of_le (sound.names id old atId name other named) extend.bindings_le
      · exact Nat.lt_of_lt_of_le (sound.names id scope found name other named) extend.bindings_le
  refine declared.record (fun id same => ?_) node
  cases same
  simp [declare, Scopes.declare]

theorem lookup {scope : ScopeId} {name : String} {binding : BindingId}
    (found : before.scopes.lookup scope name = some binding) : binding < before.scopes.bindings.size := by
  fun_induction Scopes.lookup before.scopes scope name with
  | case1 scope inner named =>
    cases found
    obtain ⟨record, atScope, atName⟩ := bind_eq_some_iff.1 named
    exact sound.names scope record atScope name binding atName
  | case2 scope _ outer _ ih => exact ih found
  | case3 => cases found

theorem reference (tree : Tree) (node : NodeId) : (before.reference tree node).Sound := by
  unfold Pass.reference
  split
  · exact sound
  refine sound.record (fun binding same => ?_) node
  split at same
  · rename_i found
    cases same
    exact sound.lookup found
  · cases same

theorem enter (kind : ScopeKind) (node : NodeId) : (before.enter kind node).Sound := by
  refine { sound with names := fun id scope found name binding named => ?_ }
  rw [Pass.enter, Scopes.openScope, Array.getElem?_push] at found
  split at found
  · cases found
    cases Std.TreeMap.getElem?_emptyc.symm.trans named
  · exact sound.names id scope found name binding named

end Sound

theorem Move.sound (step : Move tree Region before after) (sound : before.Sound) : after.Sound := by
  cases step with
  | add bare =>
    refine sound.withShapes (by simp) fun id shape found write mem => ?_
    rw [get?_add] at found
    rw [size_add]
    split at found
    · cases found
      rw [bare] at mem
      cases mem
    · have old := sound.writes id shape found write mem
      exact ⟨Nat.lt_succ_of_lt old.1, old.2⟩
  | write held =>
    refine sound.withShapes (by simp) fun id shape found write mem => ?_
    rw [get?_setField] at found
    rw [size_setField]
    split at found
    · obtain ⟨old, atId, rfl⟩ := map_eq_some_iff.1 found
      rw [Shape.writes_put] at mem
      rcases mem_cons.1 mem with rfl | earlier
      · exact ⟨held, Nat.le_refl _⟩
      · exact sound.writes id old atId write earlier
    · exact sound.writes id shape found write mem
  | promote object =>
    refine sound.withShapes (by simp) fun id shape found write mem => ?_
    rw [get?_ensureObject] at found
    rw [size_ensureObject]
    split at found
    · obtain ⟨old, atId, rfl⟩ := map_eq_some_iff.1 found
      rw [Shape.writes_asObject] at mem
      exact sound.writes id old atId write mem
    · exact sound.writes id shape found write mem
  | refer _ _ => exact sound.reference tree _
  | bind _ _ named => exact sound.introduce named.fits _
  | imply _ implied => exact sound.introduce implied.fits _
  | fix _ made =>
    refine { sound with fixed := fun other shape found => ?_ }
    rcases eq_or_of_getElem?_insert found with ⟨_, rfl⟩ | found
    · exact made.held
    · exact sound.fixed other shape found

theorem Course.sound (course : Course tree Region before trace after) (sound : before.Sound) :
    after.Sound := by
  induction course with
  | start => exact sound
  | mark _ _ ih => exact (ih sound).mark _
  | name _ _ _ _ named ih => exact (ih sound).introduce named.fits _
  | move _ step ih => exact step.sound (ih sound)
  | scope kind node _ _ ih ihInner => exact { ihInner ((ih sound).enter kind node) with }

end Pass

end LeakTrace
