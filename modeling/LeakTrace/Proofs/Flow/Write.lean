import LeakTrace.Proofs.Flow.Alias
import LeakTrace.Proofs.Flow.Inspection

namespace LeakTrace

open List ShapeStore

variable {epoch : Nat} {start object : ShapeId} {Touched : ShapeId → Prop} {shapes : ShapeStore}

/-- A field of an object and the shape that it leads to. -/
structure Edge where
  object : ShapeId
  key : Key
  value : ShapeId

variable {edges : List Edge}

namespace Edge

/-- The edges that lead on from an object by the keys, over new objects that are numbered from `fresh`. -/
def laid (fresh : ShapeId) : ShapeId → List Key → List Edge
  | _, [] => []
  | object, key :: rest => ⟨object, key, fresh⟩ :: laid (fresh + 1) fresh rest

/-- The object to which these edges lead. -/
def tip (fresh : ShapeId) : ShapeId → List Key → ShapeId
  | object, [] => object
  | _, _ :: rest => tip (fresh + 1) fresh rest

variable {fresh object : Nat} {edge : Edge} {keys : List Key}

theorem le_object_of_laid (inside : object < fresh) (mem : edge ∈ laid fresh object keys) :
    object ≤ edge.object := by
  induction keys generalizing fresh object with
  | nil => cases mem
  | cons key rest ih =>
    rcases mem_cons.1 mem with rfl | later
    · exact Nat.le_refl _
    · exact Nat.le_trans (Nat.le_of_lt inside) (ih (Nat.lt_succ_self fresh) later)

theorem le_tip (inside : object < fresh) : object ≤ tip fresh object keys := by
  induction keys generalizing fresh object with
  | nil => exact Nat.le_refl _
  | cons key rest ih => exact Nat.le_trans (Nat.le_of_lt inside) (ih (Nat.lt_succ_self fresh))

theorem object_ne_tip (inside : object < fresh) (mem : edge ∈ laid fresh object keys) :
    edge.object ≠ tip fresh object keys := by
  induction keys generalizing fresh object with
  | nil => cases mem
  | cons key rest ih =>
    rcases mem_cons.1 mem with rfl | later
    · exact Nat.ne_of_lt (Nat.lt_of_lt_of_le inside (le_tip (Nat.lt_succ_self fresh)))
    · exact ih (Nat.lt_succ_self fresh) later

theorem le_tip_of_ne_nil (keyed : keys ≠ []) : fresh ≤ tip fresh object keys := by
  cases keys with
  | nil => exact absurd rfl keyed
  | cons key rest => exact le_tip (Nat.lt_succ_self fresh)

theorem tip_lt (inside : object < fresh) : tip fresh object keys < fresh + keys.length := by
  induction keys generalizing fresh object with
  | nil => exact inside
  | cons key rest ih =>
    rw [tip, length_cons, Nat.add_comm rest.length, ← Nat.add_assoc]
    exact ih (Nat.lt_succ_self fresh)

end Edge

namespace ShapeStore

variable {store before middle after : ShapeStore} {stop : ShapeId}

variable (store)

/-- The shape to which the keys lead at an epoch. -/
def follow (epoch : Nat) (start : ShapeId) (keys : List Key) : Option ShapeId :=
  keys.foldlM (fun shape key => store.fieldAt shape key epoch) start

theorem follow_congr (same : ∀ object key, after.fieldAt object key epoch = before.fieldAt object key epoch)
    (start : ShapeId) (keys : List Key) : after.follow epoch start keys = before.follow epoch start keys := by
  simp only [follow, same]

/-- The object lies on the way by the keys. -/
def Passed (epoch : Nat) (start : ShapeId) (keys : List Key) (object : ShapeId) : Prop :=
  ∃ front, front <+: keys ∧ store.follow epoch start front = some object

variable {store} {shape : Shape}

theorem fieldAt_of_size_le (outside : store.size ≤ object) (key : Key) (epoch : Nat) :
    store.fieldAt object key epoch = none := by
  have absent : store.get? object = none := Array.getElem?_eq_none outside
  rw [fieldAt, absent, Option.bind_none]

theorem fieldAt_add (store : ShapeStore) (bare : shape.writes = []) (object : ShapeId) (key : Key)
    (epoch : Nat) : (store.add shape).fieldAt object key epoch = store.fieldAt object key epoch := by
  by_cases last : object = store.size
  · rw [fieldAt_of_size_le (Nat.le_of_eq last.symm), fieldAt, get?_add, if_pos last, Option.bind_some,
      Shape.fieldAt_eq, bare]
    rfl
  · rw [fieldAt, fieldAt, get?_add, if_neg last]

theorem fieldAt_ensureObject (store : ShapeStore) (promoted object : ShapeId) (key : Key) (epoch : Nat) :
    (store.ensureObject promoted).fieldAt object key epoch = store.fieldAt object key epoch := by
  rw [fieldAt, fieldAt, get?_ensureObject]
  split
  · cases store.get? object with
    | none => rfl
    | some shape =>
      rw [Option.map_some, Option.bind_some, Option.bind_some, Shape.fieldAt_eq, Shape.fieldAt_eq,
        Shape.writes_asObject]
  · rfl

/-- What writes at one epoch make of a store. The edges are read from the epoch on, and every other field
reads as before. The shapes that were touched have grown, and the others are as they were. -/
structure Wrote (epoch : Nat) (edges : List Edge) (Touched : ShapeId → Prop)
    (before after : ShapeStore) : Prop where
  written : ∀ edge ∈ edges, ∀ later, epoch ≤ later →
    after.fieldAt edge.object edge.key later = some edge.value
  others : ∀ object key later,
    (epoch ≤ later → ∀ edge ∈ edges, ¬(edge.object = object ∧ edge.key = key)) →
    after.fieldAt object key later = before.fieldAt object key later
  untouched : ∀ object < before.size, ¬Touched object → after.get? object = before.get? object
  grown : ∀ object old, before.get? object = some old →
    ∃ new, after.get? object = some new ∧ old.Grown epoch new

namespace Wrote

variable {more : List Edge} {Larger : ShapeId → Prop}

theorem size_le (wrote : Wrote epoch edges Touched before after) : before.size ≤ after.size := by
  by_contra shorter
  obtain ⟨old, found⟩ := exists_of_lt_size (Nat.lt_of_not_le shorter)
  obtain ⟨new, atAfter, _⟩ := wrote.grown _ old found
  exact Nat.lt_irrefl _ (lt_size_of_get? atAfter)

theorem mono (wrote : Wrote epoch edges Touched before after)
    (larger : ∀ object < before.size, Touched object → Larger object) :
    Wrote epoch edges Larger before after :=
  { wrote with
    untouched := fun object inside outside =>
      wrote.untouched object inside fun touched => outside (larger object inside touched) }

theorem trans (first : Wrote epoch edges Touched before middle)
    (second : Wrote epoch more Touched middle after)
    (apart : ∀ one ∈ edges, ∀ two ∈ more, ¬(two.object = one.object ∧ two.key = one.key)) :
    Wrote epoch (edges ++ more) Touched before after := by
  refine ⟨fun edge mem later le => ?_, fun object key later unlinked => ?_,
    fun object inside outside => ?_, fun object old found => ?_⟩
  · rcases mem_append.1 mem with old | new
    · rw [second.others edge.object edge.key later fun _ => apart edge old]
      exact first.written edge old later le
    · exact second.written edge new later le
  · rw [second.others object key later fun le edge mem =>
        unlinked le edge (mem_append_right _ mem)]
    exact first.others object key later fun le edge mem =>
      unlinked le edge (mem_append_left _ mem)
  · rw [second.untouched object (Nat.lt_of_lt_of_le inside first.size_le) outside]
    exact first.untouched object inside outside
  · obtain ⟨between, atMiddle, one⟩ := first.grown object old found
    obtain ⟨new, atAfter, two⟩ := second.grown object between atMiddle
    exact ⟨new, atAfter, one.trans two⟩

end Wrote

theorem wrote_refl (epoch : Nat) (Touched : ShapeId → Prop) (store : ShapeStore) :
    Wrote epoch [] Touched store store :=
  ⟨forall_mem_nil _, fun _ _ _ _ => rfl, fun _ _ _ => rfl,
    fun _ old found => ⟨old, found, .refl _ _⟩⟩

theorem wrote_add (epoch : Nat) (Touched : ShapeId → Prop) (store : ShapeStore)
    (bare : shape.writes = []) : Wrote epoch [] Touched store (store.add shape) := by
  have kept (object : ShapeId) (inside : object < store.size) :
      (store.add shape).get? object = store.get? object := by
    rw [get?_add, if_neg (Nat.ne_of_lt inside)]
  refine ⟨forall_mem_nil _, fun object key later _ => ?_,
    fun object inside _ => kept object inside, fun object old found => ⟨old, ?_, .refl _ _⟩⟩
  · exact fieldAt_add store bare object key later
  · rw [kept object (lt_size_of_get? found), found]

theorem wrote_ensureObject (epoch : Nat) (store : ShapeStore) (object : ShapeId) :
    Wrote epoch [] (· = object) store (store.ensureObject object) := by
  refine ⟨forall_mem_nil _, fun other key later _ => ?_,
    fun other _ outside => ?_, fun other old found => ?_⟩
  · exact fieldAt_ensureObject store object other key later
  · rw [get?_ensureObject, if_neg fun same => outside same.symm]
  · rw [get?_ensureObject]
    split
    · exact ⟨_, congrArg _ found, Shape.grown_asObject _ old⟩
    · exact ⟨old, found, .refl _ _⟩

theorem wrote_setField (store : ShapeStore) (inside : object < store.size) (key : Key) (value : ShapeId)
    (epoch : Nat) (node : NodeId) :
    Wrote epoch [⟨object, key, value⟩] (· = object) store
      (store.setField object key value epoch node) := by
  refine ⟨fun edge mem later le => ?_, fun other otherKey later unlinked => ?_,
    fun other _ outside => ?_, fun other old found => ?_⟩
  · rw [mem_singleton.1 mem, fieldAt_setField, if_pos ⟨rfl, rfl, le, inside⟩]
  · rw [fieldAt_setField, if_neg]
    rintro ⟨sameObject, sameKey, le, _⟩
    exact unlinked le _ (.head _) ⟨sameObject, sameKey⟩
  · rw [get?_setField, if_neg fun same => outside same.symm]
  · rw [get?_setField]
    split
    · exact ⟨_, congrArg _ found, Shape.grown_put (Nat.le_refl epoch) old⟩
    · exact ⟨old, found, .refl _ _⟩

/-- How far a path leads in a store: by its first part to a shape, in which the first key of the other
part was never written. -/
structure Route (store : ShapeStore) (epoch : Nat) (start : ShapeId) (read made : List Key)
    (stop : ShapeId) : Prop where
  leads : store.follow epoch start read = some stop
  unwritten : ∀ key ∈ made.head?, ∀ later, store.fieldAt stop key later = none

/-- Objects that were made at the ends of edges. -/
def Made (store : ShapeStore) (fresh : ShapeId) (edges : List Edge) : Prop :=
  ∀ edge ∈ edges, fresh ≤ edge.value ∧ store.isObject edge.value = true

theorem Wrote.isObject (wrote : Wrote epoch edges Touched before after)
    (object : before.isObject start = true) : after.isObject start = true := by
  obtain ⟨old, found, isObject⟩ := (Option.any_eq_true _ _).1 object
  obtain ⟨new, atAfter, grown⟩ := wrote.grown start old found
  rw [ShapeStore.isObject, atAfter]
  exact grown.object isObject

/-- The start of a path becomes an object, the path is followed and made, and the value is written into the
object at its end. -/
theorem Wrote.land {held : ShapeStore} {read made : List Key}
    (opened : Wrote epoch [] (· = start) before held) (leads : before.follow epoch start read = some stop)
    (inside : stop < held.size)
    (wrote : Wrote epoch (Edge.laid held.size stop made) (Passed held epoch start read) held shapes)
    (size : shapes.size = held.size + made.length) (last : Key) (value : ShapeId) (node : NodeId) :
    Wrote epoch (Edge.laid held.size stop made ++ [⟨Edge.tip held.size stop made, last, value⟩])
      (Passed before epoch start read) before
      (shapes.setField (Edge.tip held.size stop made) last value epoch node) := by
  let holder := Edge.tip held.size stop made
  have holderInside : holder < shapes.size := size ▸ Edge.tip_lt inside
  -- What was touched and is not on the way was made on it.
  let Touched (object : ShapeId) : Prop := Passed before epoch start read object ∨ before.size ≤ object
  have first : Wrote epoch [] Touched before held :=
    opened.mono fun object _ same => .inl ⟨[], nil_prefix, congrArg some same.symm⟩
  have second : Wrote epoch (Edge.laid held.size stop made) Touched held shapes := by
    refine wrote.mono fun object _ passed => .inl ?_
    obtain ⟨front, isPrefix, leads⟩ := passed
    rw [follow_congr fun object key => opened.others object key epoch (by simp)] at leads
    exact ⟨front, isPrefix, leads⟩
  have third : Wrote epoch [⟨holder, last, value⟩] Touched shapes
      (shapes.setField holder last value epoch node) := by
    refine (wrote_setField shapes holderInside last value epoch node).mono ?_
    rintro _ _ rfl
    by_cases reads : made = []
    · refine .inl ⟨read, prefix_refl _, ?_⟩
      rw [leads]
      simp only [holder, reads, Edge.tip]
    · exact .inr (Nat.le_trans opened.size_le (Edge.le_tip_of_ne_nil reads))
  have apart : ∀ one ∈ Edge.laid held.size stop made, ∀ two ∈ [Edge.mk holder last value],
      ¬(two.object = one.object ∧ two.key = one.key) := by
    intro one among two only same
    rw [mem_singleton.1 only] at same
    exact Edge.object_ne_tip inside among same.1.symm
  exact ((first.trans second (by simp)).trans third apart).mono fun object inside touched =>
    touched.resolve_right (Nat.not_le.2 inside)

end ShapeStore

namespace Pass

variable {tree : Tree} {pass : Pass} {site : NodeId}

/-- Where nothing was written, following keys makes an object for each of them. -/
theorem descend_unwritten (site : NodeId) (keys : List Key) (inside : object < pass.shapes.size)
    (unwritten : ∀ key ∈ keys.head?, pass.shapes.fieldAt object key pass.epoch = none) :
    ∃ shapes, descend site keys object pass =
        (Edge.tip pass.shapes.size object keys, { pass with shapes }) ∧
      shapes.size = pass.shapes.size + keys.length ∧
      Wrote pass.epoch (Edge.laid pass.shapes.size object keys) (· = object) pass.shapes shapes ∧
      Made shapes pass.shapes.size (Edge.laid pass.shapes.size object keys) := by
  induction keys generalizing object pass with
  | nil =>
    exact ⟨pass.shapes, rfl, rfl, wrote_refl _ _ _,
      forall_mem_nil _⟩
  | cons key rest ih =>
    let fresh := pass.shapes.size
    let next : Pass :=
      { pass with
        shapes := (pass.shapes.add (.object none [])).setField object key fresh pass.epoch site }
    have size : next.shapes.size = fresh + 1 := by simp [next, fresh]
    have empty : ∀ other ∈ rest.head?, next.shapes.fieldAt fresh other next.epoch = none := by
      intro other _
      rw [fieldAt_setField, if_neg fun all => Nat.ne_of_lt inside all.1,
        fieldAt_add _ rfl, fieldAt_of_size_le (Nat.le_refl _)]
    have bare : next.shapes.get? fresh = some (.object none []) := by
      rw [get?_setField, if_neg (Nat.ne_of_lt inside), get?_add, if_pos rfl]
    obtain ⟨shapes, run, total, wrote, made⟩ := ih (size ▸ Nat.lt_succ_self fresh) empty
    rw [size] at run total wrote made
    refine ⟨shapes, ?_, ?_, ?_, ?_⟩
    · rw [descend, unwritten key rfl]
      exact run
    · rw [total, length_cons, Nat.add_assoc, Nat.add_comm 1]
    · have edge : Wrote pass.epoch [⟨object, key, fresh⟩] (fun other => other = object ∨ fresh ≤ other)
          pass.shapes next.shapes := by
        have added : Wrote pass.epoch [] (fun other => other = object ∨ fresh ≤ other) pass.shapes
          (pass.shapes.add (.object none [])) := wrote_add _ _ _ rfl
        refine added.trans ?_ (by simp)
        refine (wrote_setField _ ?_ key fresh pass.epoch site).mono fun _ _ same => .inl same
        rw [size_add]
        exact Nat.lt_succ_of_lt inside
      have others : Wrote pass.epoch _ (fun other => other = object ∨ fresh ≤ other) _ _ :=
        wrote.mono fun _ _ same => .inr (Nat.le_of_eq same.symm)
      refine (edge.trans others fun one first two later same => ?_).mono fun other inside touched =>
        touched.resolve_right (Nat.not_le.2 inside)
      have above := Edge.le_object_of_laid (Nat.lt_succ_self fresh) later
      rw [same.1, mem_singleton.1 first] at above
      exact Nat.not_le.2 inside above
    · intro edge mem
      rcases mem_cons.1 mem with rfl | later
      · refine ⟨Nat.le_refl _, wrote.isObject ?_⟩
        rw [isObject, bare]
        rfl
      · exact ⟨Nat.le_of_succ_le (made edge later).1, (made edge later).2⟩

/-- Following keys reads them as far as they were written, and makes an object for each of the others. -/
theorem descend_route (site : NodeId) (keys : List Key)
    (inside : start < pass.shapes.size)
    (inward : ∀ object key value, pass.shapes.fieldAt object key pass.epoch = some value →
      value < pass.shapes.size) :
    ∃ read made stop shapes, keys = read ++ made ∧
      pass.shapes.follow pass.epoch start read = some stop ∧ stop < pass.shapes.size ∧
      (∀ key ∈ made.head?, pass.shapes.fieldAt stop key pass.epoch = none) ∧
      descend site keys start pass = (Edge.tip pass.shapes.size stop made, { pass with shapes }) ∧
      shapes.size = pass.shapes.size + made.length ∧
      Wrote pass.epoch (Edge.laid pass.shapes.size stop made) (Passed pass.shapes pass.epoch start read)
        pass.shapes shapes ∧
      Made shapes pass.shapes.size (Edge.laid pass.shapes.size stop made) := by
  induction keys generalizing start pass with
  | nil =>
    exact ⟨[], [], start, pass.shapes, rfl, rfl, inside, by simp, rfl, rfl,
      wrote_refl _ _ _, forall_mem_nil _⟩
  | cons key rest ih =>
    cases field : pass.shapes.fieldAt start key pass.epoch with
    | none =>
      have unwritten : ∀ other ∈ (key :: rest).head?, pass.shapes.fieldAt start other pass.epoch = none := by
        intro other first
        cases first
        exact field
      obtain ⟨shapes, run, size, wrote, made⟩ := descend_unwritten site (key :: rest) inside unwritten
      refine ⟨[], key :: rest, start, shapes, rfl, rfl, inside, unwritten, run, size,
        wrote.mono fun object _ same => ?_, made⟩
      exact ⟨[], nil_prefix, congrArg some same.symm⟩
    | some inner =>
      let next : Pass := { pass with shapes := pass.shapes.ensureObject inner }
      have size : next.shapes.size = pass.shapes.size := size_ensureObject _ _
      have same : ∀ object key later,
          next.shapes.fieldAt object key later = pass.shapes.fieldAt object key later :=
        fieldAt_ensureObject _ _
      have promotedInside : inner < next.shapes.size := size ▸ inward start key inner field
      have promotedInward : ∀ object key value,
          next.shapes.fieldAt object key next.epoch = some value → value < next.shapes.size := by
        intro object key value found
        rw [same] at found
        exact size ▸ inward object key value found
      obtain ⟨read, made, stop, shapes, split, leads, stopInside, unwritten, run, total, wrote, objects⟩ :=
        ih promotedInside promotedInward
      have along (front : List Key) :
          pass.shapes.follow pass.epoch start (key :: front) = next.shapes.follow pass.epoch inner front := by
        rw [follow_congr fun object key => same object key _, follow,
          foldlM_cons, field]
        rfl
      rw [size] at stopInside run total wrote objects
      refine ⟨key :: read, made, stop, shapes, congrArg (key :: ·) split, (along read).trans leads,
        stopInside, fun other first => (same _ _ _).symm.trans (unwritten other first), ?_, total, ?_,
        objects⟩
      · rw [descend, field]
        exact run
      have promoted := wrote_ensureObject pass.epoch pass.shapes inner
      refine (promoted.mono fun object _ equal => ?_).trans (wrote.mono ?_) (by simp)
      · exact ⟨[key], by simp, by rw [along, equal]; rfl⟩
      · rintro object _ ⟨front, isPrefix, found⟩
        exact ⟨key :: front, cons_prefix_cons.2 ⟨rfl, isPrefix⟩, (along front).trans found⟩

/-- The binding that a written path hangs off, with the shape that it holds and the number of the first
shape to be made on the way. A name that nothing declares gets a binding of the program, and an object. -/
inductive Anchor (pass : Pass) (site : NodeId) :
    ChainRoot → BindingId → Binding → (start fresh : ShapeId) → Prop
  | bound {id : BindingId} {name : String} {binding : Binding} {start : ShapeId} :
      pass.scopes.binding? id = some binding → binding.shape = some start →
      Anchor pass site (.binding id name) id binding start pass.shapes.size
  | implied (name : String) :
      Anchor pass site (.undeclared name) pass.scopes.bindings.size
        { name, kind := .implicit, scope := Scopes.root, node := site, shape := some pass.shapes.size }
        pass.shapes.size (pass.shapes.size + 1)

theorem Sound.anchor (sound : pass.Sound) {root : ChainRoot} (rooted : root.Rooted pass.scopes.bindings)
    (named : (Chain.mk root [] false).isUnnamed = false) (tree : Tree) (target site : NodeId) :
    ∃ id binding start fresh middle held, pass.writeRoot tree target site root = (some id, middle) ∧
      middle.heldObject id = (start, held) ∧ Anchor pass site root id binding start fresh ∧
      start < fresh ∧ held.epoch = pass.epoch ∧ held.shapes.size = fresh ∧
      held.scopes.binding? id = some binding ∧
      Wrote pass.epoch [] (· = start) pass.shapes held.shapes := by
  cases root with
  | callResult | expression => cases named
  | binding id name =>
    obtain ⟨binding, shape, atId, _, holds⟩ := sound.holder rooted
    have held : pass.heldObject id =
        (shape, { pass with shapes := pass.shapes.ensureObject shape }) := by
      simp only [Pass.heldObject, atId, Option.bind_some, holds]
    exact ⟨id, binding, shape, _, pass, _, rfl, held, .bound atId holds,
      (sound.bindings id binding atId).shape shape holds, rfl, size_ensureObject _ _, atId,
      wrote_ensureObject _ _ _⟩
  | undeclared name =>
    let binding : Binding :=
      { name, kind := .implicit, scope := Scopes.root, node := site, shape := some pass.shapes.size }
    let added := pass.shapes.add (.object none [])
    have root : ∃ middle, pass.writeRoot tree target site (.undeclared name) =
        (some pass.scopes.bindings.size, middle) ∧ middle.epoch = pass.epoch ∧ middle.shapes = added ∧
        middle.scopes.binding? pass.scopes.bindings.size = some binding := by
      refine ⟨_, rfl, ?_⟩
      split <;> exact ⟨rfl, rfl, Array.getElem?_push_size⟩
    obtain ⟨middle, run, epoch, shapes, last⟩ := root
    have held : middle.heldObject pass.scopes.bindings.size =
        (pass.shapes.size, { middle with shapes := added.ensureObject pass.shapes.size }) := by
      simp only [Pass.heldObject, last, Option.bind_some, binding, shapes]
    refine ⟨_, binding, _, _, middle, _, run, held, .implied name, Nat.lt_succ_self _, epoch, ?_, last, ?_⟩
    · rw [size_ensureObject, size_add]
    · have new : Wrote pass.epoch [] (· = pass.shapes.size) pass.shapes added :=
        wrote_add _ _ _ rfl
      exact new.trans (wrote_ensureObject _ _ _) (by simp)

theorem Sound.never_written (sound : pass.Sound) {key : Key}
    (unseen : pass.shapes.fieldAt object key pass.epoch = none) (later : Nat) :
    pass.shapes.fieldAt object key later = none := by
  cases found : pass.shapes.get? object with
  | none => rw [ShapeStore.fieldAt, found, Option.bind_none]
  | some shape =>
    rw [ShapeStore.fieldAt, found, Option.bind_some, Shape.fieldAt_eq, Option.map_eq_none_iff,
      find?_eq_none] at unseen ⊢
    intro write mem seen
    refine unseen write mem ?_
    have past := (sound.writes object shape found write mem).2
    simp only [Bool.and_eq_true, decide_eq_true_eq] at seen ⊢
    exact ⟨past, seen.2⟩

/-- A path whose last key is written in an object reads what was written there, if its other keys lead to
the object. -/
theorem terminus_of_holder {holder value : ShapeId} {last : Key}
    (written : shapes.fieldAt holder last epoch = some value) (scopes : Scopes) {chain : Chain}
    {front : List Key} (keys : chain.segments = front ++ [last])
    (leads : scopes.terminus shapes { chain with segments := front } epoch = some holder) :
    scopes.terminus shapes chain epoch = some value := by
  obtain ⟨root, segments, unknownTail⟩ := chain
  cases keys
  unfold Scopes.terminus at leads ⊢
  split at leads
  · cases leads
  rename_i certain
  rw [if_neg certain]
  cases root with
  | binding id name =>
    obtain ⟨start, held, found⟩ := Option.bind_eq_some_iff.1 leads
    have read : shapes.follow epoch holder [last] = some value := by
      rw [follow, foldlM_cons, written]
      rfl
    refine Option.bind_eq_some_iff.2 ⟨start, held, foldlM_append.trans ?_⟩
    exact (congrArg (Option.bind · _) found).trans read
  | _ => cases leads

/-- A write through a path lands in one field. The path hangs off a binding; its keys but the last lead
from the shape of the binding, as far as they were written, and over new objects from there on. In the
object at the end the last key reads the value from now on. The edges to the new objects are read from
now on too, and every other field reads as before, in every object and at every epoch. Shapes beside the
way are as they were, and those on it have only got new writes. So the value is read by every path that
ends in the last key and whose other keys lead to that object, whatever it hangs off. -/
theorem write_lands {target : NodeId} {chain : Chain} {path : List Key} {last : Key}
    (reachable : Reachable tree pass) (found : pass.chain? tree target = some chain)
    (named : chain.isUnnamed = false) (certain : chain.unknownTail = false)
    (keys : chain.segments = path ++ [last]) (value : ShapeId) (site : NodeId) :
    ∃ id binding start fresh read made stop,
      let after := pass.writeThrough tree target value site
      let holder := Edge.tip fresh stop made
      let edges := Edge.laid fresh stop made
      Anchor pass site chain.root id binding start fresh ∧
      after.scopes.binding? id = some binding ∧ path = read ++ made ∧
      Route pass.shapes pass.epoch start read made stop ∧
      (∀ epoch, pass.epoch ≤ epoch → after.shapes.fieldAt holder last epoch = some value) ∧
      Wrote pass.epoch (edges ++ [⟨holder, last, value⟩]) (Passed pass.shapes pass.epoch start read)
        pass.shapes after.shapes ∧
      Made after.shapes fresh edges ∧
      ∀ (scopes : Scopes) (other : Chain) (front : List Key) (epoch : Nat), pass.epoch ≤ epoch →
        other.segments = front ++ [last] →
        scopes.terminus after.shapes { other with segments := front } epoch = some holder →
        scopes.terminus after.shapes other epoch = some value := by
  have sound := reachable.sound
  obtain ⟨id, binding, start, _, middle, held, rootRun, heldRun, anchor, inside, now, rfl, atId, opened⟩ :=
    sound.anchor (sound.chain? found) named tree target site
  have same (object : ShapeId) (key : Key) (later : Nat) :
      held.shapes.fieldAt object key later = pass.shapes.fieldAt object key later :=
    opened.others object key later (by simp)
  have inward : ∀ object key value, held.shapes.fieldAt object key held.epoch = some value →
      value < held.shapes.size := by
    intro object key value field
    rw [same] at field
    exact Nat.lt_of_lt_of_le (sound.fieldAt field) opened.size_le
  obtain ⟨read, made, stop, shapes, split, leads, stopInside, unwritten, run, total, wrote, objects⟩ :=
    descend_route site path inside inward
  rw [now] at leads unwritten wrote
  rw [follow_congr fun object key => same object key _] at leads
  have landed := opened.land leads stopInside wrote total last value site
  have written := landed.written _ (mem_append_right _ mem_cons_self)
  have inner := wrote_setField shapes (total ▸ Edge.tip_lt stopInside) last value pass.epoch site
  have after : pass.writeThrough tree target value site = { held with
      shapes := shapes.setField (Edge.tip held.shapes.size stop made) last value pass.epoch site } := by
    simp only [writeThrough, found, certain, keys, getLast?_concat, dropLast_concat, rootRun,
      heldRun, run, setField, now]
  refine ⟨id, binding, start, held.shapes.size, read, made, stop, ?_⟩
  rw [after]
  refine ⟨anchor, atId, split, ⟨leads, fun key head => ?_⟩, written, landed, fun edge member => ?_,
    fun scopes other front epoch le ends leads => ?_⟩
  · exact sound.never_written ((same stop key _).symm.trans (unwritten key head))
  · exact ⟨(objects edge member).1, inner.isObject (objects edge member).2⟩
  · exact terminus_of_holder (written epoch le) scopes ends leads

/-- After `a.x = a` the path `a.x.x` leads back to `a` itself, so that a write through it lands in `a.x`. -/
theorem write_lands_cycle :
    let tree := Script.tree "cycle.js" "const a = {};\na.x = a;\nconst v = \"e\";\na.x.x;\n"
    ∃ pass, run tree false {} = .ok pass ∧
      pass.chain? tree 18 = some { root := .binding 0 "a", segments := [.name "x", .name "x"] } ∧
      pass.shapes.fieldAt 0 (.name "x") pass.epoch = some 0 ∧
      ∀ epoch, pass.epoch ≤ epoch →
        (pass.writeThrough tree 18 1 19).shapes.fieldAt 0 (.name "x") epoch = some 1 := by
  intro tree
  obtain ⟨pass, ran, found, held, field⟩ : ∃ pass, run tree false {} = .ok pass ∧
      pass.chain? tree 18 = some { root := .binding 0 "a", segments := [.name "x", .name "x"] } ∧
      (pass.scopes.binding? 0).bind Binding.shape = some 0 ∧
      pass.shapes.fieldAt 0 (.name "x") pass.epoch = some 0 := by
    decide +kernel
  refine ⟨pass, ran, found, field, ?_⟩
  have reachable : Reachable tree pass := (within_run ran).reachable (fun _ inside => inside) .refl
  have keys : [Key.name "x", .name "x"] = [.name "x"] ++ [.name "x"] := rfl
  obtain ⟨id, binding, start, fresh, read, made, stop, anchor, _, split, route, written, _⟩ :=
    write_lands reachable found rfl rfl keys 1 19
  obtain rfl : start = 0 := by
    cases anchor with
    | bound atId holds =>
      rw [atId, Option.bind_some, holds] at held
      exact Option.some.inj held
  cases read with
  | nil =>
    cases route.leads
    cases split
    rw [route.unwritten _ rfl] at field
    cases field
  | cons key rest =>
    obtain ⟨rfl, empty⟩ := cons.inj split
    obtain ⟨rfl, rfl⟩ := append_eq_nil_iff.1 empty.symm
    have back := route.leads
    rw [follow, foldlM_cons, field] at back
    cases back
    exact written

end Pass

end LeakTrace
