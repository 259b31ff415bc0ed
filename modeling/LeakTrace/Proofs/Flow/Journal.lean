import LeakTrace.Proofs.Flow.Course
import Mathlib.Data.List.Nodup
import Mathlib.Data.List.Induction

namespace LeakTrace

open List ShapeStore Write

variable {write : Write} {store : ShapeStore} {fields : List VisibleField}

/-- One operation on a store of shapes. -/
inductive StoreOperation where
  | leaf (literal : Literal)
  | object (name : Option String)
  | unknown (origin : Origin)
  | ensureObject (object : ShapeId)
  | setField (object : ShapeId) (key : Key) (value : ShapeId) (epoch : Nat) (node : NodeId)
  | spreadInto (source target : ShapeId) (readEpoch writeEpoch : Nat)

def StoreOperation.apply (store : ShapeStore) : StoreOperation → ShapeStore
  | .leaf literal => store.add (.leaf literal)
  | .object name => store.add (.object name [])
  | .unknown origin => store.add (.unknown origin)
  | .ensureObject holder => store.ensureObject holder
  | .setField holder key value epoch node => store.setField holder key value epoch node
  | .spreadInto source target readEpoch writeEpoch =>
    store.spreadInto source target readEpoch writeEpoch

/-- The store that the operations leave. -/
def ShapeStore.ofOperations (operations : List StoreOperation) : ShapeStore :=
  operations.foldl StoreOperation.apply {}

namespace Write

section

variable (writes : List Write)

/-- The write is the last one to the key. -/
def Last (key : Key) (write : Write) : Prop :=
  write.key = key ∧ ∃ before after, writes = before ++ write :: after ∧
    ∀ later ∈ after, later.key ≠ key

def last? (key : Key) : Option Write :=
  writes.reverse.find? fun write => write.key == key

/-- The keys of the writes in the order of the first write to each. -/
def keys : List Key := (writes.map Write.key).eraseDups

/-- The last write to each key, in the order of the first writes to the keys. -/
def lasts : List Write :=
  (keys writes).filterMap (last? writes)

end

def field (write : Write) : VisibleField := ⟨write.key, write.shape, write.node⟩

end Write

/-- All writes to a store in the order in which they were made, and the number of its shapes. A write to
a shape that is not there is not made. -/
structure Journal where
  size : Nat := 0
  entries : List (ShapeId × Write) := []

namespace Journal

section

variable (journal : Journal)

def writesTo (object : ShapeId) : List Write :=
  (journal.entries.filter fun entry => entry.1 == object).map Prod.snd

/-- The writes to the object that a reader at the epoch may see. -/
def seen (object : ShapeId) (epoch : Nat) : List Write :=
  (journal.writesTo object).filter fun write => write.epoch ≤ epoch

def record (object : ShapeId) (writes : List Write) : Journal :=
  if object < journal.size then
    { journal with entries := journal.entries ++ writes.map fun write => (object, write) }
  else journal

def next : StoreOperation → Journal
  | .leaf _ | .object _ | .unknown _ => { journal with size := journal.size + 1 }
  | .ensureObject _ => journal
  | .setField object key value epoch node => journal.record object [⟨key, value, epoch, node⟩]
  | .spreadInto source target readEpoch writeEpoch =>
    journal.record target ((lasts (journal.seen source readEpoch)).map fun write =>
      { write with epoch := writeEpoch })

end

def ofOperations (operations : List StoreOperation) : Journal := operations.foldl next {}

end Journal

namespace Write

variable {writes : List Write} {key : Key}

theorem last?_eq_some : last? writes key = some write ↔ Last writes key write := by
  rw [last?, find?_eq_some_iff_append, Last, beq_iff_eq]
  refine and_congr_right fun _ => ⟨?_, ?_⟩
  · rintro ⟨after, before, reversed, other⟩
    refine ⟨before.reverse, after.reverse, ?_, fun later mem => ?_⟩
    · simpa using congrArg reverse reversed
    · simpa using other later (mem_reverse.1 mem)
  · rintro ⟨before, after, rfl, other⟩
    refine ⟨after.reverse, before.reverse, by simp, fun later mem => ?_⟩
    simpa using other later (mem_reverse.1 mem)

theorem last?_eq_none : last? writes key = none ↔ ∀ write ∈ writes, write.key ≠ key := by
  rw [last?, find?_eq_none]
  simp only [mem_reverse, beq_iff_eq, ne_eq]

theorem last?_concat (writes : List Write) (write : Write) (key : Key) :
    last? (writes ++ [write]) key = if write.key = key then some write else last? writes key := by
  rw [last?, reverse_append, reverse_singleton, singleton_append, find?_cons]
  by_cases same : write.key = key
  · rw [if_pos same, beq_iff_eq.2 same]
  · rw [if_neg same, beq_eq_false_iff_ne.2 same]
    rfl

theorem key_of_last? (found : last? writes key = some write) : write.key = key :=
  (last?_eq_some.1 found).1

theorem mem_keys : key ∈ keys writes ↔ ∃ write ∈ writes, write.key = key := by
  rw [keys, mem_eraseDups, mem_map]

theorem keys_concat (writes : List Write) (write : Write) :
    keys (writes ++ [write]) =
      if write.key ∈ keys writes then keys writes else keys writes ++ [write.key] := by
  rw [keys, map_append, eraseDups_append, map_singleton, removeAll]
  by_cases known : write.key ∈ keys writes
  · have among : write.key ∈ writes.map Write.key := mem_eraseDups.1 known
    rw [if_pos known, filter_cons_of_neg (by simpa using among), filter_nil,
      eraseDups_nil, append_nil, keys]
  · have absent : write.key ∉ writes.map Write.key := fun among => known (mem_eraseDups.2 among)
    rw [if_neg known, filter_cons_of_pos (by simpa using absent), filter_nil,
      eraseDups_cons, filter_nil, eraseDups_nil, keys]

theorem nodup_keys (writes : List Write) : (keys writes).Nodup := by
  induction writes using reverseRecOn with
  | nil => exact nodup_nil
  | append_singleton writes write ih =>
    rw [keys_concat]
    split
    · exact ih
    · rename_i fresh
      exact Nodup.append ih (nodup_singleton _) (disjoint_singleton.2 fresh)

/-- The keys stand in the order of the first write to each. -/
theorem keys_ordered (writes : List Write) :
    (keys writes).Pairwise fun first second =>
      (writes.map Write.key).idxOf first < (writes.map Write.key).idxOf second := by
  induction writes using reverseRecOn with
  | nil => exact .nil
  | append_singleton writes write ih =>
    have kept {key : Key} (mem : key ∈ keys writes) :
        ((writes ++ [write]).map Write.key).idxOf key = (writes.map Write.key).idxOf key := by
      rw [map_append, idxOf_append, if_pos]
      exact mem_eraseDups.1 mem
    have old : (keys writes).Pairwise fun first second =>
        ((writes ++ [write]).map Write.key).idxOf first <
          ((writes ++ [write]).map Write.key).idxOf second := by
      refine ih.imp_of_mem fun first second earlier => ?_
      rwa [kept first, kept second]
    rw [keys_concat]
    split
    · exact old
    rename_i fresh
    refine pairwise_append.2 ⟨old, pairwise_singleton _ _, fun key mem other same => ?_⟩
    cases mem_singleton.1 same
    have inside := idxOf_lt_length_of_mem (mem_eraseDups.1 mem)
    rw [kept mem, map_append, idxOf_append, if_neg]
    · exact Nat.lt_add_left _ inside
    · exact fun known => fresh (mem_eraseDups.2 known)

theorem exists_last? (mem : key ∈ keys writes) : ∃ write, last? writes key = some write := by
  obtain ⟨write, among, same⟩ := mem_keys.1 mem
  refine Option.ne_none_iff_exists'.1 fun none => ?_
  exact last?_eq_none.1 none write among same

theorem map_key_lasts (writes : List Write) : (lasts writes).map Write.key = keys writes := by
  have all : ∀ key ∈ keys writes, ∃ write, last? writes key = some write := fun _ => exists_last?
  rw [lasts]
  generalize keys writes = keys at all
  induction keys with
  | nil => rfl
  | cons key rest ih =>
    obtain ⟨write, found⟩ := all key (.head _)
    rw [filterMap_cons_some found, map_cons, key_of_last? found,
      ih fun other mem => all other (.tail _ mem)]

theorem mem_lasts : write ∈ lasts writes ↔ Last writes write.key write := by
  rw [lasts, mem_filterMap]
  constructor
  · rintro ⟨key, _, found⟩
    rwa [key_of_last? found, ← last?_eq_some]
  intro last
  have among : write ∈ writes := by
    obtain ⟨_, before, after, rfl, _⟩ := last
    exact mem_append_right _ (.head _)
  exact ⟨write.key, mem_keys.2 ⟨write, among, rfl⟩, last?_eq_some.2 last⟩

theorem find?_lasts (writes : List Write) (key : Key) :
    ((lasts writes).map field).find? (fun field => field.key == key) = (last? writes key).map field := by
  cases last : last? writes key with
  | none =>
    rw [Option.map_none, find?_eq_none]
    intro other mem same
    obtain ⟨write, among, rfl⟩ := mem_map.1 mem
    obtain ⟨_, before, after, rfl, _⟩ := mem_lasts.1 among
    exact last?_eq_none.1 last write (mem_append_right _ (.head _)) (beq_iff_eq.1 same)
  | some write =>
    rw [Option.map_some]
    have same := key_of_last? last
    have among : write ∈ lasts writes := by
      rw [mem_lasts, same]
      exact last?_eq_some.1 last
    cases found : ((lasts writes).map field).find? fun field => field.key == key with
    | none =>
      have missing := find?_eq_none.1 found write.field (mem_map_of_mem among)
      exact absurd (beq_iff_eq.2 same) missing
    | some other =>
      -- The last write to a key is unique.
      obtain ⟨rival, alsoAmong, rfl⟩ := mem_map.1 (mem_of_find?_eq_some found)
      have rivalKey : rival.key = key := by simpa [field] using find?_some found
      have rivalLast := last?_eq_some.2 (mem_lasts.1 alsoAmong)
      rw [rivalKey, last] at rivalLast
      rw [Option.some.inj rivalLast]

end Write

namespace Shape

theorem replaceField_of_fresh {field : VisibleField} (fresh : ∀ other ∈ fields, other.key ≠ field.key) :
    replaceField field fields = fields ++ [field] := by
  induction fields with
  | nil => rfl
  | cons first rest ih =>
    rw [replaceField, if_neg (fresh first (.head _)),
      ih fun other mem => fresh other (.tail _ mem), cons_append]

theorem replaceField_filterMap {last : Key → Option Write} {keys : List Key} (distinct : keys.Nodup)
    (mem : write.key ∈ keys) (all : ∀ key ∈ keys, ∃ other, last key = some other ∧ other.key = key) :
    replaceField write.field ((keys.filterMap last).map field) =
      (keys.filterMap fun key => if write.key = key then some write else last key).map field := by
  induction keys with
  | nil => cases mem
  | cons key rest ih =>
    obtain ⟨other, found, same⟩ := all key (.head _)
    obtain ⟨absent, distinct⟩ := nodup_cons.1 distinct
    rw [filterMap_cons_some found, filterMap_cons, map_cons, replaceField]
    by_cases here : write.key = key
    · have equal : other.field.key = write.field.key := same.trans here.symm
      rw [if_pos equal, if_pos here, map_cons]
      congr 2
      refine filterMap_congr fun next among => ?_
      rw [if_neg fun equal => absent (here.symm.trans equal ▸ among)]
    · have apart : ¬ other.field.key = write.field.key := fun equal => here (equal.symm.trans same)
      rw [if_neg apart, if_neg here, found, map_cons, ih distinct ((mem_cons.1 mem).resolve_left here)
          fun next among => all next (.tail _ among)]

/-- Replaying writes leaves the last one to each key. -/
theorem foldl_replaceField (writes : List Write) :
    writes.foldl (fun fields write => replaceField write.field fields) [] =
      (lasts writes).map field := by
  induction writes using reverseRecOn with
  | nil => rfl
  | append_singleton writes write ih =>
    have last : last? (writes ++ [write]) = fun key =>
        if write.key = key then some write else last? writes key :=
      funext (last?_concat writes write)
    rw [foldl_append, ih, foldl_cons, foldl_nil, lasts, lasts,
      keys_concat, last]
    by_cases known : write.key ∈ keys writes
    · rw [if_pos known]
      refine replaceField_filterMap (nodup_keys writes) known fun key mem => ?_
      obtain ⟨other, found⟩ := exists_last? mem
      exact ⟨other, found, key_of_last? found⟩
    rw [if_neg known, replaceField_of_fresh, filterMap_append, map_append]
    · congr 1
      · refine congrArg _ (filterMap_congr fun key mem => ?_)
        have apart : write.key ≠ key := by
          rintro rfl
          exact known mem
        rw [if_neg apart]
      · simp
    · intro other mem
      obtain ⟨earlier, among, rfl⟩ := mem_map.1 mem
      obtain ⟨key, inKeys, found⟩ := mem_filterMap.1 among
      rintro (equal : earlier.key = write.key)
      rw [← equal, key_of_last? found] at known
      exact known inKeys

theorem history_eq (shape : Shape) : shape.history = shape.writes.reverse := by
  cases shape <;> rfl

/-- A field is read from the last write to it that is seen at the epoch. -/
theorem fieldAt_eq_last? (key : Key) (epoch : Nat) (shape : Shape) :
    shape.fieldAt key epoch =
      (last? (shape.history.filter fun write => write.epoch ≤ epoch) key).map Write.shape := by
  rw [fieldAt_eq, last?, history_eq, ← filter_reverse, reverse_reverse,
    find?_filter]
  simp only [Bool.decide_and, Bool.decide_eq_true]

theorem visibleFields_eq_foldl (epoch : Nat) (shape : Shape) :
    shape.visibleFields epoch = (shape.history.filter fun write => write.epoch ≤ epoch).foldl
      (fun fields write => replaceField write.field fields) [] := by
  rw [visibleFields, foldl_filter]
  simp only [decide_eq_true_eq, field]

theorem visibleFields_eq_lasts (epoch : Nat) (shape : Shape) :
    shape.visibleFields epoch =
      (lasts (shape.history.filter fun write => write.epoch ≤ epoch)).map field := by
  rw [visibleFields_eq_foldl, foldl_replaceField]

end Shape

/-- The journal is the one of the store: it has the writes of every shape in their order. -/
structure Journal.Keeps (journal : Journal) (store : ShapeStore) : Prop where
  size : journal.size = store.size
  history : ∀ id, journal.writesTo id = ((store.get? id).map Shape.history).getD []

namespace Journal

variable {journal : Journal}

theorem writesTo_record (journal : Journal) (object id : ShapeId) (writes : List Write) :
    (journal.record object writes).writesTo id =
      if object < journal.size ∧ object = id then journal.writesTo id ++ writes
      else journal.writesTo id := by
  unfold record
  by_cases inside : object < journal.size
  · rw [if_pos inside, writesTo, filter_append, map_append]
    by_cases same : object = id
    · rw [if_pos ⟨inside, same⟩]
      simp [same, writesTo, filter_map, Function.comp_def]
    · rw [if_neg fun both => same both.2]
      simp [same, writesTo, filter_map, Function.comp_def]
  · rw [if_neg inside, if_neg fun both => inside both.1]

theorem size_record (journal : Journal) (object : ShapeId) (writes : List Write) :
    (journal.record object writes).size = journal.size := by
  unfold record
  split <;> rfl

theorem record_record (journal : Journal) (object : ShapeId) (first second : List Write) :
    (journal.record object first).record object second = journal.record object (first ++ second) := by
  unfold record
  by_cases inside : object < journal.size
  · simp [inside]
  · simp [inside]

namespace Keeps

variable (keeps : journal.Keeps store)
include keeps

theorem add {shape : Shape} (bare : shape.history = []) :
    Keeps { journal with size := journal.size + 1 } (store.add shape) := by
  refine ⟨by rw [size_add, keeps.size], fun id => ?_⟩
  have before := keeps.history id
  rw [get?_add]
  split
  · rename_i last
    -- Nothing was written to the shape before it was there.
    rw [last, get?, ShapeStore.size, Array.getElem?_size] at before
    rw [Option.map_some, Option.getD_some, bare, last]
    exact before
  · exact before

section

variable (object : ShapeId)

theorem ensureObject : journal.Keeps (store.ensureObject object) := by
  refine ⟨by rw [size_ensureObject, keeps.size], fun id => ?_⟩
  rw [get?_ensureObject, keeps.history id]
  split
  · rw [Option.map_map]
    congr 2
    exact funext fun shape => by cases shape <;> rfl
  · rfl

theorem setField (write : Write) :
    (journal.record object [write]).Keeps
      (store.setField object write.key write.shape write.epoch write.node) := by
  refine ⟨by rw [size_record, size_setField, keeps.size], fun id => ?_⟩
  rw [writesTo_record, get?_setField, keeps.size]
  by_cases same : object = id
  · rw [if_pos same]
    cases found : store.get? id with
    | none =>
      have outside : ¬ object < store.size := by
        rw [same]
        exact Nat.not_lt.2 (Array.getElem?_eq_none_iff.1 found)
      rw [if_neg fun both => outside both.1, keeps.history, found]
      rfl
    | some shape =>
      have inside : object < store.size := same ▸ lt_size_of_get? found
      rw [if_pos ⟨inside, same⟩, keeps.history, found]
      simp only [Option.map_some, Option.getD_some, Shape.history_eq, Shape.writes_put, reverse_cons]
  · rw [if_neg same, if_neg fun both => same both.2, keeps.history]

theorem setFields (writes : List Write) :
    (journal.record object writes).Keeps (writes.foldl (fun store write =>
      store.setField object write.key write.shape write.epoch write.node) store) := by
  induction writes generalizing journal store with
  | nil =>
    have same : journal.record object [] = journal := by simp [record]
    rw [same]
    exact keeps
  | cons write rest ih =>
    have whole := ih (keeps.setField object write)
    rwa [record_record] at whole

theorem seen (epoch : Nat) :
    journal.seen object epoch = (((store.get? object).map Shape.history).getD []).filter
      fun write => write.epoch ≤ epoch := by
  rw [Journal.seen, keeps.history]

theorem fieldAt (key : Key) (epoch : Nat) :
    store.fieldAt object key epoch = (last? (journal.seen object epoch) key).map Write.shape := by
  rw [keeps.seen, ShapeStore.fieldAt]
  cases store.get? object with
  | none => rfl
  | some shape => exact Shape.fieldAt_eq_last? key epoch shape

theorem visibleFields (epoch : Nat) :
    store.visibleFields object epoch = (lasts (journal.seen object epoch)).map field := by
  rw [keeps.seen, ShapeStore.visibleFields]
  cases store.get? object with
  | none => rfl
  | some shape => exact Shape.visibleFields_eq_lasts epoch shape

end

theorem spreadInto (source target : ShapeId) (readEpoch writeEpoch : Nat) :
    (journal.next (.spreadInto source target readEpoch writeEpoch)).Keeps
      (store.spreadInto source target readEpoch writeEpoch) := by
  have copied := keeps.setFields target ((lasts (journal.seen source readEpoch)).map
    fun write => { write with epoch := writeEpoch })
  rw [foldl_map] at copied
  rw [ShapeStore.spreadInto, keeps.visibleFields, foldl_map]
  exact copied

theorem next (operation : StoreOperation) : (journal.next operation).Keeps (operation.apply store) := by
  cases operation with
  | leaf | object | unknown => exact keeps.add rfl
  | ensureObject object => exact keeps.ensureObject object
  | setField object key value epoch node => exact keeps.setField object ⟨key, value, epoch, node⟩
  | spreadInto source target readEpoch writeEpoch =>
    exact keeps.spreadInto source target readEpoch writeEpoch

end Keeps

theorem keeps_ofOperations (operations : List StoreOperation) :
    (ofOperations operations).Keeps (ShapeStore.ofOperations operations) := by
  have begun : Keeps {} {} := ⟨rfl, fun _ => rfl⟩
  unfold ofOperations ShapeStore.ofOperations
  generalize (⟨0, []⟩ : Journal) = journal, (⟨#[]⟩ : ShapeStore) = store at begun
  induction operations generalizing journal store with
  | nil => exact begun
  | cons operation rest ih => exact ih _ _ (begun.next operation)

theorem Keeps.seen_eq_nil (keeps : journal.Keeps store) {object : ShapeId}
    (plain : store.isObject object = false) (epoch : Nat) : journal.seen object epoch = [] := by
  rw [keeps.seen]
  unfold isObject at plain
  cases found : store.get? object with
  | none => rfl
  | some shape =>
    rw [found] at plain
    cases shape with
    | object => cases plain
    | leaf | unknown => rfl

end Journal

namespace ShapeStore

/-- A write changes the reads of its own field from its epoch on, and no others. -/
theorem fieldAt_setField (store : ShapeStore) (holder value object : ShapeId) (key other : Key)
    (written epoch : Nat) (node : NodeId) :
    (store.setField holder key value written node).fieldAt object other epoch =
      if holder = object ∧ key = other ∧ written ≤ epoch ∧ object < store.size then some value
      else store.fieldAt object other epoch := by
  rw [fieldAt, fieldAt, get?_setField]
  by_cases same : holder = object
  · rw [if_pos same]
    cases found : store.get? object with
    | none =>
      have outside : ¬ object < store.size := Nat.not_lt.2 (Array.getElem?_eq_none_iff.1 found)
      rw [if_neg fun all => outside all.2.2.2]
      rfl
    | some shape =>
      have inside := lt_size_of_get? found
      rw [Option.map_some, Option.bind_some, Option.bind_some, Shape.fieldAt_eq, Shape.fieldAt_eq,
        Shape.writes_put, find?_cons]
      by_cases seen : written ≤ epoch ∧ key = other
      · rw [if_pos ⟨same, seen.2, seen.1, inside⟩]
        simp [seen]
      · rw [if_neg fun all => seen ⟨all.2.2.1, all.2.1⟩]
        have unseen : (decide (written ≤ epoch) && key == other) = false := by simpa using seen
        rw [unseen]
  · rw [if_neg same, if_neg fun all => same all.1]

/-- Reads at an epoch are exact, whatever was done to the store and in whatever order the epochs came.
A field reads as the last write to it among the writes that were made up to the epoch. The visible
fields are the fields that have such a write, each once, in the order of their first writes and with
what the last one wrote. A further write is seen in its own field from its epoch on, and nowhere else. -/
theorem reads_exact (operations : List StoreOperation) (object : ShapeId) (epoch : Nat) :
    let store := ofOperations operations
    let writes := (Journal.ofOperations operations).seen object epoch
    let fields := store.visibleFields object epoch
    (∀ key value, store.fieldAt object key epoch = some value ↔
      ∃ write, Last writes key write ∧ write.shape = value) ∧
    (∀ key, store.fieldAt object key epoch = none ↔ ∀ write ∈ writes, write.key ≠ key) ∧
    (∀ key, key ∈ fields.map VisibleField.key ↔ ∃ write ∈ writes, write.key = key) ∧
    (fields.map VisibleField.key).Nodup ∧
    (fields.Pairwise fun first second =>
      (writes.map Write.key).idxOf first.key < (writes.map Write.key).idxOf second.key) ∧
    (∀ field ∈ fields, ∃ write, Last writes field.key write ∧
      field = ⟨write.key, write.shape, write.node⟩) ∧
    (∀ key, store.fieldAt object key epoch =
      (fields.find? fun field => field.key == key).map VisibleField.shape) ∧
    (store.isObject object = false →
      fields = [] ∧ ∀ key, store.fieldAt object key epoch = none) ∧
    ∀ holder key value written node other,
      (store.setField holder key value written node).fieldAt object other epoch =
        if holder = object ∧ key = other ∧ written ≤ epoch ∧ object < store.size then some value
        else store.fieldAt object other epoch := by
  intro store writes fields
  have keeps := Journal.keeps_ofOperations operations
  have shown : fields = (lasts writes).map field := keeps.visibleFields object epoch
  have read (key : Key) : store.fieldAt object key epoch = (last? writes key).map Write.shape :=
    keeps.fieldAt object key epoch
  have keysOf : fields.map VisibleField.key = keys writes := by
    rw [shown, map_map]
    exact map_key_lasts writes
  refine ⟨fun key value => ?_, fun key => ?_, fun key => ?_, ?_, ?_, fun field member => ?_,
    fun key => ?_, fun plain => ?_, fun holder key value written node other => fieldAt_setField ..⟩
  · rw [read, Option.map_eq_some_iff]
    simp only [last?_eq_some]
  · rw [read, Option.map_eq_none_iff, last?_eq_none]
  · rw [keysOf, Write.mem_keys]
  · rw [keysOf]
    exact nodup_keys writes
  · have ordered := keys_ordered writes
    rwa [← keysOf, pairwise_map] at ordered
  · rw [shown] at member
    obtain ⟨write, among, rfl⟩ := mem_map.1 member
    exact ⟨write, mem_lasts.1 among, rfl⟩
  · rw [read, shown, find?_lasts, Option.map_map]
    rfl
  · have unwritten : writes = [] := keeps.seen_eq_nil plain epoch
    refine ⟨by rw [shown, unwritten]; rfl, fun key => ?_⟩
    rw [read, unwritten]
    rfl

/-- A write that is made later counts as the later one, also with an earlier epoch. -/
example :
    let store := ShapeStore.ofOperations [.unknown .parameter, .leaf (.number "1"), .leaf .null,
      .setField 0 (.name "email") 1 9 4, .setField 0 (.name "name") 2 3 5, .setField 0 (.name "email") 2 5 6]
    store.fieldAt 0 (.name "email") 4 = none ∧ store.fieldAt 0 (.name "email") 9 = some 2 ∧
      (store.visibleFields 0 9).map VisibleField.node = [6, 5] ∧
      (store.visibleFields 0 5).map VisibleField.node = [5, 6] := by
  decide

end ShapeStore

namespace Shape

theorem nodup_visibleFields (epoch : Nat) (shape : Shape) :
    ((shape.visibleFields epoch).map VisibleField.key).Nodup := by
  rw [visibleFields_eq_lasts, map_map]
  exact (map_key_lasts _).symm ▸ nodup_keys _

theorem find?_visibleFields (key : Key) (epoch : Nat) (shape : Shape) :
    ((shape.visibleFields epoch).find? fun field => field.key == key).map VisibleField.shape =
      shape.fieldAt key epoch := by
  rw [visibleFields_eq_lasts, find?_lasts, fieldAt_eq_last?, Option.map_map]
  rfl

end Shape

namespace ShapeStore

theorem nodup_visibleFields (store : ShapeStore) (object : ShapeId) (epoch : Nat) :
    ((store.visibleFields object epoch).map VisibleField.key).Nodup := by
  unfold visibleFields
  split
  · exact Shape.nodup_visibleFields _ _
  · exact nodup_nil

theorem find?_visibleFields (store : ShapeStore) (object : ShapeId) (key : Key) (epoch : Nat) :
    ((store.visibleFields object epoch).find? fun field => field.key == key).map VisibleField.shape =
      store.fieldAt object key epoch := by
  unfold visibleFields fieldAt
  split
  · rename_i found
    rw [found, Option.bind_some, Shape.find?_visibleFields]
  · rename_i absent
    rw [absent]
    rfl

/-- Writes the fields into the object, one after the other. -/
def writeFields (store : ShapeStore) (object : ShapeId) (fields : List VisibleField) (epoch : Nat) :
    ShapeStore :=
  fields.foldl (fun store field => store.setField object field.key field.shape epoch field.node) store

variable {object : ShapeId}

theorem get?_writeFields_of_ne {other : ShapeId} (different : other ≠ object) (store : ShapeStore)
    (fields : List VisibleField) (epoch : Nat) :
    (store.writeFields object fields epoch).get? other = store.get? other := by
  induction fields generalizing store with
  | nil => rfl
  | cons field rest ih =>
    rw [writeFields, foldl_cons, ← writeFields, ih, get?_setField, if_neg different.symm]

theorem fieldAt_writeFields (inside : object < store.size) (distinct : (fields.map VisibleField.key).Nodup)
    (key : Key) (written epoch : Nat) : (store.writeFields object fields written).fieldAt object key epoch =
      if written ≤ epoch then
        ((fields.find? fun field => field.key == key).map VisibleField.shape).or
          (store.fieldAt object key epoch)
      else store.fieldAt object key epoch := by
  induction fields generalizing store with
  | nil => simp [writeFields]
  | cons field rest ih =>
    obtain ⟨fresh, distinct⟩ := nodup_cons.1 distinct
    have larger : object < (store.setField object field.key field.shape written field.node).size := by
      rwa [size_setField]
    rw [writeFields, foldl_cons, ← writeFields, ih larger distinct, fieldAt_setField,
      find?_cons]
    by_cases seen : written ≤ epoch
    · rw [if_pos seen, if_pos seen]
      by_cases same : field.key = key
      · -- no later field of the list has the key again
        have absent : (rest.find? fun other => other.key == key) = none := by
          rw [find?_eq_none]
          intro other mem equal
          exact fresh (same ▸ beq_iff_eq.1 equal ▸ mem_map_of_mem mem)
        rw [absent, if_pos ⟨rfl, same, seen, inside⟩, beq_iff_eq.2 same]
        rfl
      · rw [if_neg fun all => same all.2.1, beq_eq_false_iff_ne.2 same]
    · rw [if_neg seen, if_neg seen, if_neg fun all => seen all.2.2.1]

/-- Spreading copies the fields that the source shows at the read epoch, and changes nothing else. A copied
field reads as the source's from the write epoch on. The source may be the target itself, the target need
not be an object yet, and neither epoch need be later than what was written before. -/
theorem spread_exact {store : ShapeStore} {target : ShapeId} (inside : target < store.size)
    (source : ShapeId) (readEpoch writeEpoch : Nat) :
    let spread := store.spreadInto source target readEpoch writeEpoch
    (∀ key epoch, spread.fieldAt target key epoch =
      if writeEpoch ≤ epoch then
        (store.fieldAt source key readEpoch).or (store.fieldAt target key epoch)
      else store.fieldAt target key epoch) ∧
    ∀ other, other ≠ target → spread.get? other = store.get? other := by
  intro spread
  have copied : spread = store.writeFields target (store.visibleFields source readEpoch) writeEpoch := rfl
  rw [copied]
  refine ⟨fun key epoch => ?_, fun other different => get?_writeFields_of_ne different ..⟩
  rw [fieldAt_writeFields inside (nodup_visibleFields store source readEpoch), find?_visibleFields]

/-- An object that is spread into itself gets back what it had at the read epoch. -/
theorem spread_exact_self :
    let store := ofOperations [.unknown .parameter, .leaf (.number "1"), .leaf .null,
      .setField 0 (.name "email") 1 5 4, .setField 0 (.name "email") 2 9 5]
    0 < store.size ∧ store.fieldAt 0 (.name "email") 9 = some 2 ∧
      (store.spreadInto 0 0 6 7).fieldAt 0 (.name "email") 9 = some 1 ∧
      (store.spreadInto 0 0 6 7).get? 2 = store.get? 2 := by
  intro store
  have inside : 0 < store.size := by decide
  obtain ⟨read, others⟩ := spread_exact inside 0 6 7
  decide

end ShapeStore

end LeakTrace
