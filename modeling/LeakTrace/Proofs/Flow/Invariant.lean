import LeakTrace.Proofs.Flow.Course

namespace LeakTrace

open List Pass Option

variable {object : ShapeId} {epoch : Nat} {field : VisibleField}

/-- Nodes of these kinds may have a text that is put together where they stand. -/
def Kind.isText : Kind → Bool
  | .string | .template | .binary => true
  | _ => false

namespace Pass

theorem mem_replaceField {other : VisibleField} {fields : List VisibleField}
    (mem : other ∈ Shape.replaceField field fields) : other = field ∨ other ∈ fields := by
  induction fields with
  | nil => exact .inl (mem_singleton.1 mem)
  | cons head rest ih =>
    unfold Shape.replaceField at mem
    split at mem
    · exact (mem_cons.1 mem).imp_right (mem_cons_of_mem _)
    · rcases mem_cons.1 mem with rfl | later
      · exact .inr (.head _)
      · exact (ih later).imp_right (mem_cons_of_mem _)

theorem exists_write {shape : Shape} (mem : field ∈ shape.visibleFields epoch) :
    ∃ write ∈ shape.writes, write.epoch ≤ epoch ∧ field = ⟨write.key, write.shape, write.node⟩ := by
  rw [Shape.visibleFields_eq] at mem
  generalize seen : shape.writes.filter (fun write => decide (write.epoch ≤ epoch)) = writes at mem
  have visible : ∀ write ∈ writes, write ∈ shape.writes ∧ write.epoch ≤ epoch := by
    intro write among
    rw [← seen, mem_filter, decide_eq_true_eq] at among
    exact among
  clear seen
  induction writes with
  | nil => cases mem
  | cons write rest ih =>
    rcases mem_replaceField mem with rfl | earlier
    · have first := visible write (.head _)
      exact ⟨write, first.1, first.2, rfl⟩
    · exact ih earlier fun other among => visible other (.tail _ among)

section Reading

variable {pass : Pass} {P : ShapeId → Prop} {shape : ShapeId}
  (written : ∀ id object, pass.shapes.get? id = some object → ∀ write ∈ object.writes, P write.shape)

include written

theorem of_fieldAt {key : Key} (found : pass.shapes.fieldAt object key epoch = some shape) : P shape := by
  obtain ⟨held, atObject, field⟩ := bind_eq_some_iff.1 found
  rw [Shape.fieldAt_eq] at field
  obtain ⟨write, latest, rfl⟩ := map_eq_some_iff.1 field
  exact written object held atObject write (mem_of_find?_eq_some latest)

theorem of_visibleFields (mem : field ∈ pass.shapes.visibleFields object epoch) :
    P field.shape := by
  unfold ShapeStore.visibleFields at mem
  split at mem
  · rename_i held found
    obtain ⟨write, among, _, rfl⟩ := exists_write mem
    exact written object held found write among
  · cases mem

theorem of_terminus
    (bound : ∀ id binding, pass.scopes.binding? id = some binding → ∀ shape ∈ binding.shape, P shape)
    {chain : Chain} (found : pass.scopes.terminus pass.shapes chain epoch = some shape) : P shape := by
  unfold Scopes.terminus at found
  split at found
  · cases found
  split at found
  · obtain ⟨start, held, found⟩ := bind_eq_some_iff.1 found
    obtain ⟨binding, atId, holds⟩ := bind_eq_some_iff.1 held
    have inside := bound _ binding atId start holds
    clear held atId holds
    generalize chain.segments = segments at found
    induction segments generalizing start with
    | nil =>
      cases found
      exact inside
    | cons key rest ih =>
      obtain ⟨inner, field, found⟩ := bind_eq_some_iff.1 found
      exact ih inner (of_fieldAt written field) found
  · cases found

end Reading

/-- A view of the pass that every step on values respects, as long as the steps hand on no other shapes
than those that may be held: new ones, those of names and fields, and those that are fixed at free nodes. -/
structure Invariant (tree : Tree) where
  Fine : Pass → Prop
  Keeps : Pass → Pass → Prop
  Held : Pass → ShapeId → Prop
  Free : NodeId → Prop
  refl {pass : Pass} : Fine pass → Keeps pass pass
  trans {before middle after : Pass} : Keeps before middle → Keeps middle after → Keeps before after
  fine {before after : Pass} : Keeps before after → Fine before → Fine after
  held {before after : Pass} {shape : ShapeId} : Keeps before after → Held before shape → Held after shape
  add {pass : Pass} {shape : Shape} : Fine pass → shape.writes = [] →
    Keeps pass (pass.newShape shape).2 ∧ Held (pass.newShape shape).2 (pass.newShape shape).1
  write {pass : Pass} {object value : ShapeId} {key : Key} {node : NodeId} : Fine pass → Held pass object →
    Held pass value → Keeps pass (pass.setField object key value node)
  promote {pass : Pass} {object : ShapeId} : Fine pass → Held pass object →
    Keeps pass { pass with shapes := pass.shapes.ensureObject object }
  bound {pass : Pass} : Fine pass → ∀ id binding, pass.scopes.binding? id = some binding →
    ∀ shape ∈ binding.shape, Held pass shape
  written {pass : Pass} : Fine pass → ∀ id object, pass.shapes.get? id = some object →
    ∀ write ∈ object.writes, Held pass write.shape
  fixed {pass : Pass} {node : NodeId} {shape : ShapeId} : Fine pass → Free node →
    pass.fixed[node]? = some shape → Held pass shape
  own {node : NodeId} : (tree.kind node).isText = false → Free node
  part {node child : NodeId} : child ∈ tree.children node → (tree.kind node).isText = false → Free child

namespace Invariant

variable {tree : Tree} (inv : Invariant tree) {before middle after : Pass} {shape value : ShapeId}
  {node : NodeId}

/-- A step after which the shape that it gives, if it gives one, may be held. -/
structure Gains (before : Pass) (shape : Option ShapeId) (after : Pass) : Prop where
  keeps : inv.Keeps before after
  held : ∀ id ∈ shape, inv.Held after id

variable {inv}

theorem Gains.one (gains : inv.Gains before (some shape) after) : inv.Held after shape :=
  gains.held shape rfl

theorem Gains.since {other : Option ShapeId} (gains : inv.Gains middle other after)
    (keeps : inv.Keeps before middle) : inv.Gains before other after :=
  ⟨inv.trans keeps gains.keeps, gains.held⟩

theorem gains_some (keeps : inv.Keeps before after) (held : inv.Held after shape) :
    inv.Gains before (some shape) after :=
  ⟨keeps, fun _ mem => some.inj mem ▸ held⟩

variable (inv) (fine : inv.Fine before)

include fine

theorem gains_none : inv.Gains before none before :=
  ⟨inv.refl fine, fun id mem => absurd mem (not_mem_none id)⟩

theorem gains_self (held : inv.Held before shape) : inv.Gains before (some shape) before :=
  gains_some (inv.refl fine) held

theorem gains_new {shape : Shape} (bare : shape.writes = []) :
    inv.Gains before (some (before.newShape shape).1) (before.newShape shape).2 :=
  gains_some (inv.add fine bare).1 (inv.add fine bare).2

theorem gains_shapeOf (free : inv.Free node) :
    inv.Gains before (some (shapeOf tree node before).1) (shapeOf tree node before).2 := by
  fun_induction shapeOf tree node before with
  | case1 node shape fixed => exact inv.gains_self fine (inv.fixed fine free fixed)
  | case2 _ _ _ _ _ found | case4 _ _ _ _ _ found | case6 _ _ _ _ _ found =>
    obtain ⟨path, _, ends⟩ := bind_eq_some_iff.1 found
    exact inv.gains_self fine (of_terminus (inv.written fine) (inv.bound fine) ends)
  | case8 node _ kind right found ih =>
    exact ih (inv.part (mem_of_find?_eq_some found) (by rw [kind]; rfl))
  | case3 | case5 | case7 | case9 | case10 => exact inv.gains_new fine rfl

theorem gains_valueBinding (free : inv.Free node) :
    inv.Gains before (before.valueBinding tree node).1.1 (before.valueBinding tree node).2 := by
  have held := inv.gains_shapeOf fine free
  unfold valueBinding
  split
  · exact held
  split
  · exact held
  split
  · split
    · split
      · rename_i shape holds
        obtain ⟨binding, atId, holds⟩ := bind_eq_some_iff.1 holds
        exact inv.gains_self fine (inv.bound fine _ binding atId shape holds)
      · exact held
    · exact held
  · split
    · exact held
    · exact inv.gains_none fine

section

variable {value : Option NodeId} (free : ∀ node ∈ value, inv.Free node)
include free

theorem gains_valueShape (origin : Origin) :
    inv.Gains before (some (before.valueShape tree origin value).1)
      (before.valueShape tree origin value).2 := by
  cases value with
  | none => exact inv.gains_new fine rfl
  | some value => exact inv.gains_shapeOf fine (free value rfl)

theorem gains_boundValue :
    inv.Gains before (before.boundValue tree value).1.1 (before.boundValue tree value).2 := by
  cases value with
  | none => exact inv.gains_new fine rfl
  | some value => exact inv.gains_valueBinding fine (free value rfl)

theorem gains_subjectShape :
    inv.Gains before (before.subjectShape tree value).1 (before.subjectShape tree value).2 := by
  cases value with
  | none => exact inv.gains_none fine
  | some value => exact inv.gains_shapeOf fine (free value rfl)

end

theorem gains_descend (site : NodeId) (keys : List Key) (held : inv.Held before shape) :
    inv.Gains before (some (descend site keys shape before).1) (descend site keys shape before).2 := by
  induction keys generalizing before shape with
  | nil => exact inv.gains_self fine held
  | cons key rest ih =>
    unfold descend
    split
    · rename_i inner field
      have inside := of_fieldAt (inv.written fine) field
      have promoted := inv.promote fine inside
      exact (ih (inv.fine promoted fine) (inv.held promoted inside)).since promoted
    have fresh := inv.gains_new fine (rfl : (Shape.object none []).writes = [])
    have made := inv.fine fresh.keeps fine
    have written : inv.Keeps _ (setField _ shape key _ site) :=
      inv.write made (inv.held fresh.keeps held) fresh.one
    have more := ih (inv.fine written made) (inv.held written fresh.one)
    exact more.since (inv.trans fresh.keeps written)

theorem gains_put (held : inv.Held before object) {part : NodeId} (free : inv.Free part) (key : Key)
    (node : NodeId) : inv.Gains before (some object) ((shapeOf tree part before).2.setField object key
      (shapeOf tree part before).1 node) := by
  have value := inv.gains_shapeOf fine free
  have kept := inv.held value.keeps held
  have written : inv.Keeps _ (setField _ object key _ node) :=
    inv.write (inv.fine value.keeps fine) kept value.one
  exact gains_some (inv.trans value.keeps written) (inv.held written kept)

theorem gains_spreadInto (held : inv.Held before object) (source : ShapeId) (readEpoch : Nat) :
    inv.Gains before (some object) { before with
      shapes := before.shapes.spreadInto source object readEpoch before.epoch } := by
  unfold ShapeStore.spreadInto
  have fields : ∀ field ∈ before.shapes.visibleFields source readEpoch, inv.Held before field.shape :=
    fun field mem => of_visibleFields (inv.written fine) mem
  generalize before.shapes.visibleFields source readEpoch = shown at fields
  induction shown generalizing before with
  | nil => exact inv.gains_self fine held
  | cons field rest ih =>
    have written : inv.Keeps before (before.setField object field.key field.shape field.node) :=
      inv.write fine held (fields field (.head _))
    exact (ih (inv.fine written fine) (inv.held written held) fun other mem =>
      inv.held written (fields other (.tail _ mem))).since written

theorem gains_addEntry (held : inv.Held before object) (entry : NodeId) :
    inv.Gains before (some object) (addEntry tree object before entry) := by
  have same := inv.gains_self fine held
  simp only [addEntry]
  split
  · rename_i pair
    split
    · rename_i value _ found
      exact inv.gains_put fine held
        (inv.part (mem_of_find?_eq_some found) (by rw [pair]; rfl)) _ _
    · exact same
  · rename_i method
    split
    · rename_i found
      cases found
      exact inv.gains_put fine held (inv.own (by rw [method]; rfl)) _ _
    · exact same
  · rename_i spread
    split
    · rename_i inner first
      have mem := (mem_filter.1 (mem_of_head? first)).1
      have value := inv.gains_shapeOf fine (inv.part mem (by rw [spread]; rfl))
      have kept := inv.held value.keeps held
      split
      · exact (inv.gains_spreadInto (inv.fine value.keeps fine) kept _ _).since value.keeps
      · exact gains_some value.keeps kept
    · exact same
  · exact same

theorem gains_addEntries (held : inv.Held before object) (entries : List NodeId) :
    inv.Gains before (some object) (entries.foldl (addEntry tree object) before) := by
  induction entries generalizing before with
  | nil => exact inv.gains_self fine held
  | cons entry rest ih =>
    have first := inv.gains_addEntry fine held entry
    exact (ih (inv.fine first.keeps fine) first.one).since first.keeps

theorem gains_buildObject (node : NodeId) :
    inv.Gains before (some (before.buildObject tree node).1) (before.buildObject tree node).2 := by
  have fresh := inv.gains_new fine (rfl : (Shape.object (tree.text node) []).writes = [])
  exact (inv.gains_addEntries (inv.fine fresh.keeps fine) fresh.one _).since fresh.keeps

theorem gains_addElements (held : inv.Held before object) {elements : List NodeId}
    (free : ∀ element ∈ elements, inv.Free element) (position : Nat) :
    inv.Gains before (some object) (addElements tree object position elements before) := by
  induction elements generalizing before position with
  | nil => exact inv.gains_self fine held
  | cons element rest ih =>
    obtain ⟨first, others⟩ := forall_mem_cons.1 free
    have added := inv.gains_put fine held first (.element position) element
    exact (ih (inv.fine added.keeps fine) added.one others (position + 1)).since added.keeps

theorem gains_buildArray (array : tree.kind node = .array) :
    inv.Gains before (some (before.buildArray tree node).1) (before.buildArray tree node).2 := by
  have fresh := inv.gains_new fine (rfl : (Shape.object none []).writes = [])
  have free : ∀ element ∈ tree.codeChildren node, inv.Free element := fun element mem =>
    inv.part (mem_filter.1 mem).1 (by rw [array]; rfl)
  exact (inv.gains_addElements (inv.fine fresh.keeps fine) fresh.one free 0).since fresh.keeps

theorem gains_fixedShape (node : NodeId) :
    inv.Gains before (before.fixedShape tree node).1 (before.fixedShape tree node).2 := by
  unfold fixedShape
  cases kind : tree.kind node with
  | object => exact inv.gains_buildObject fine node
  | array => exact inv.gains_buildArray fine kind
  | string | number | boolean | null | call | function | error => exact inv.gains_new fine rfl
  | template | binary =>
    dsimp only
    split
    · exact inv.gains_new fine rfl
    · exact inv.gains_none fine
  | _ => exact inv.gains_none fine

end Invariant

end Pass

end LeakTrace
