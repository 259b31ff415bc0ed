import LeakTrace.Proofs.Flow.TextShape
import LeakTrace.Proofs.Flow.Destructuring
import LeakTrace.Proofs.Flow.Journal

namespace LeakTrace

open List LeakTrace.Tree Pass ShapeStore

variable {entry : NodeId} {shape : ShapeId} {key : Key}

namespace Tree

/-- The static key under which an entry of an object literal holds a value of its own: the key of a
pair, or the name of a method. -/
def ownKey? (tree : Tree) (entry : NodeId) : Option Key :=
  match tree.kind entry with
  | .pair => (tree.child? entry .value).bind fun _ => (tree.child? entry .key).bind tree.entryKey?
  | .function => (tree.child? entry .name).bind tree.entryKey?
  | _ => none

/-- The value that an entry of an object literal gives to its own key: that of a pair, or the method. -/
def ownValue? (tree : Tree) (entry : NodeId) : Option NodeId :=
  match tree.kind entry with
  | .pair => tree.child? entry .value
  | .function => some entry
  | _ => none

/-- What a spread takes the fields of. -/
def spreadOperand? (tree : Tree) (entry : NodeId) : Option NodeId :=
  match tree.kind entry with
  | .spread => (tree.codeChildren entry).head?
  | _ => none

theorem exists_ownValue? {tree : Tree} (own : tree.ownKey? entry = some key) :
    ∃ value, tree.ownValue? entry = some value := by
  unfold ownKey? at own
  split at own
  · rename_i kind
    obtain ⟨value, found, _⟩ := Option.bind_eq_some_iff.1 own
    exact ⟨value, by simp only [ownValue?, kind, found]⟩
  · rename_i kind
    exact ⟨entry, by simp only [ownValue?, kind]⟩
  · cases own

end Tree

namespace Shape

/-- The shape after writes in this order. -/
def putAll (writes : List Write) (shape : Shape) : Shape :=
  writes.foldl (fun shape write => shape.put write) shape

theorem putAll_object (writes : List Write) (name : Option String) (old : List Write) :
    putAll writes (.object name old) = .object name (writes.reverse ++ old) := by
  induction writes generalizing old with
  | nil => rfl
  | cons write rest ih =>
    have next := ih (write :: old)
    rw [reverse_cons, append_assoc]
    exact next

end Shape

theorem ShapeStore.get?_setFields (store : ShapeStore) (object id : ShapeId) (writes : List Write) :
    (writes.foldl (fun store write =>
      store.setField object write.key write.shape write.epoch write.node) store).get? id =
        if object = id then (store.get? id).map (Shape.putAll writes) else store.get? id := by
  induction writes generalizing store with
  | nil =>
    split
    · exact (Option.map_id' (x := store.get? id)).symm
    · rfl
  | cons write rest ih =>
    rw [foldl_cons, ih, get?_setField]
    split
    · rw [Option.map_map]
      rfl
    · rfl

namespace Pass

variable {tree : Tree} {before pass middle after : Pass} {node value : NodeId} {writes more : List Write}
  {object : ShapeId} {operand : NodeId} {held : NodeId → ShapeId}

/-- The writes by which an entry sets fields of a literal that is built from `before`. A pair with a static
key, or a method, sets its key, to the shape `held`. A spread sets every field that its operand shows, if
that is an object. Nothing else sets a field. -/
def settings (before : Pass) (tree : Tree) (held : NodeId → ShapeId) (entry : NodeId) : List Write :=
  match tree.ownKey? entry with
  | some key => [⟨key, held entry, before.epoch, entry⟩]
  | none =>
    match tree.spreadOperand? entry with
    | some operand =>
      let source := (shapeOf tree operand before).1
      if before.shapes.isObject source then
        (before.shapes.visibleFields source before.epoch).map fun field =>
          ⟨field.key, field.shape, before.epoch, field.node⟩
      else []
    | none => []

/-- The shape is that of the value as it was before, or a new one where nothing was known of the value. -/
def Holds (tree : Tree) (before after : Pass) (value : NodeId) (shape : ShapeId) : Prop :=
  shapeOf tree value before = (shape, before) ∧ shape < before.shapes.size ∨
    ∃ origin, shapeOf tree value before = before.newUnknown origin ∧ before.shapes.size < shape ∧
      after.shapes.get? shape = some (.unknown origin)

/-- Nothing but new shapes has been added. -/
structure Adds (before after : Pass) : Prop where
  scopes : after.scopes = before.scopes
  fixed : after.fixed = before.fixed
  epoch : after.epoch = before.epoch
  shapes : ∀ id < before.shapes.size, after.shapes.get? id = before.shapes.get? id

theorem Adds.size_le (adds : Adds before after) : before.shapes.size ≤ after.shapes.size := by
  by_contra shorter
  have inside := Nat.lt_of_not_le shorter
  obtain ⟨shape, found⟩ := exists_of_lt_size inside
  exact Nat.lt_irrefl _ (lt_size_of_get? ((adds.shapes _ inside).trans found))

theorem Adds.newShape (adds : Adds before pass) (shape : Shape) :
    Adds before (pass.newShape shape).2 := by
  refine ⟨adds.scopes, adds.fixed, adds.epoch, fun id inside => ?_⟩
  have old := Nat.lt_of_lt_of_le inside adds.size_le
  exact ((get?_add _ _ _).trans (if_neg (Nat.ne_of_lt old))).trans (adds.shapes id inside)

theorem Adds.fieldAt (adds : Adds before after) (held : object < before.shapes.size) (key : Key)
    (epoch : Nat) : after.shapes.fieldAt object key epoch = before.shapes.fieldAt object key epoch := by
  rw [ShapeStore.fieldAt, ShapeStore.fieldAt, adds.shapes object held]

theorem Adds.visibleFields (adds : Adds before after) (held : object < before.shapes.size) (epoch : Nat) :
    after.shapes.visibleFields object epoch = before.shapes.visibleFields object epoch := by
  rw [ShapeStore.visibleFields, ShapeStore.visibleFields, adds.shapes object held]

theorem Adds.shapeOf (adds : Adds before pass) (sound : before.Sound) (tree : Tree) (node : NodeId) :
    (∃ shape < before.shapes.size, shapeOf tree node before = (shape, before) ∧
      shapeOf tree node pass = (shape, pass)) ∨
    ∃ origin, shapeOf tree node before = before.newUnknown origin ∧
      shapeOf tree node pass = pass.newUnknown origin := by
  induction node using Nat.strongRecOn with | ind node ih
  have chain : pass.chain? tree node = before.chain? tree node := by
    rw [chain?, chain?, adds.scopes]
  have path : (fun chain => pass.scopes.terminus pass.shapes chain pass.epoch) =
      fun chain => before.scopes.terminus before.shapes chain before.epoch := by
    rw [adds.epoch]
    exact funext fun chain => sound.terminus_eq (fun _ _ _ => by rw [adds.scopes])
      fun object held key => adds.fieldAt held key _
  rw [shapeOf_eq tree node before, shapeOf_eq tree node pass, adds.fixed, chain, path]
  cases fixed : before.fixed[node]? with
  | some shape => exact .inl ⟨shape, sound.fixed node shape fixed, rfl, rfl⟩
  | none =>
    cases tree.kind node with
    | identifier | member | index =>
      cases found : (before.chain? tree node).bind fun chain =>
          before.scopes.terminus before.shapes chain before.epoch with
      | some shape =>
        obtain ⟨chain, _, ends⟩ := Option.bind_eq_some_iff.1 found
        exact .inl ⟨shape, sound.terminus ends, rfl, rfl⟩
      | none => exact .inr ⟨_, rfl, rfl⟩
    | assignment =>
      cases found : tree.child? node .right with
      | some right => exact ih right (lt_of_child? found)
      | none => exact .inr ⟨_, rfl, rfl⟩
    | _ => exact .inr ⟨_, rfl, rfl⟩

theorem addEntry_own (own : tree.ownKey? entry = some key) (valued : tree.ownValue? entry = some value)
    (object : ShapeId) (pass : Pass) :
    addEntry tree object pass entry = (shapeOf tree value pass).2.setField object key
      (shapeOf tree value pass).1 entry := by
  unfold ownKey? at own
  unfold ownValue? at valued
  simp only [addEntry]
  split at own
  · rename_i kind
    obtain ⟨part, found, keyed⟩ := Option.bind_eq_some_iff.1 own
    simp only [kind] at valued
    simp only [kind, keyed, valued]
  · rename_i kind
    simp only [kind, Option.some.injEq] at valued
    subst valued
    simp only [kind, own]
  · cases own

theorem addEntry_other (own : tree.ownKey? entry = none) (spread : tree.spreadOperand? entry = none)
    (object : ShapeId) (pass : Pass) : addEntry tree object pass entry = pass := by
  unfold ownKey? at own
  unfold spreadOperand? at spread
  simp only [addEntry]
  cases kind : tree.kind entry
  all_goals simp only [kind] at own spread
  case pair =>
    cases valued : tree.child? entry .value with
    | none =>
      dsimp only
      split
      · rename_i found
        cases found
      · rfl
    | some value =>
      rw [valued] at own
      simp only [Option.bind_some] at own
      simp only [own]
  case function => simp only [own]
  case spread => simp only [spread]
  all_goals rfl

/-- The writes went to the literal that is built from `before`. Its shape is the first new one. All other
shapes stayed as they were. -/
structure Merges (before pass after : Pass) (writes : List Write) : Prop where
  adds : Adds before after
  written : after.shapes.get? before.shapes.size =
    (pass.shapes.get? before.shapes.size).map (Shape.putAll writes)
  others : ∀ id, id ≠ before.shapes.size → id < pass.shapes.size →
    after.shapes.get? id = pass.shapes.get? id

theorem Adds.merges (adds : Adds before pass) : Merges before pass pass [] := by
  refine ⟨adds, ?_, fun _ _ _ => rfl⟩
  exact (Option.map_id' (x := pass.shapes.get? before.shapes.size)).symm

theorem Merges.trans (first : Merges before pass middle writes) (second : Merges before middle after more) :
    Merges before pass after (writes ++ more) := by
  refine ⟨second.adds, ?_, fun id other inside => ?_⟩
  · rw [second.written, first.written, Option.map_map]
    exact Option.map_congr fun shape _ => foldl_append.symm
  · obtain ⟨shape, found⟩ := exists_of_lt_size inside
    have kept := lt_size_of_get? ((first.others id other inside).trans found)
    exact (second.others id other kept).trans (first.others id other inside)

theorem Adds.unknown (adds : Adds before pass) (started : before.shapes.size < pass.shapes.size)
    (origin : Origin) : Merges before pass (pass.newUnknown origin).2 [] := by
  have old {id : ShapeId} (inside : id < pass.shapes.size) :
      (pass.newUnknown origin).2.shapes.get? id = pass.shapes.get? id :=
    (get?_add _ _ _).trans (if_neg (Nat.ne_of_lt inside))
  refine ⟨adds.newShape _, ?_, fun id _ inside => old inside⟩
  exact (old started).trans (Option.map_id' (x := pass.shapes.get? before.shapes.size)).symm

theorem Adds.setFields (adds : Adds before pass) (writes : List Write) :
    Merges before pass { pass with shapes := writes.foldl (fun store write =>
      store.setField before.shapes.size write.key write.shape write.epoch write.node) pass.shapes } writes := by
  have others {id : ShapeId} (other : id ≠ before.shapes.size) := (get?_setFields pass.shapes
    before.shapes.size id writes).trans (if_neg other.symm)
  refine ⟨⟨adds.scopes, adds.fixed, adds.epoch, fun id inside => ?_⟩, ?_, fun id other _ => others other⟩
  · exact (others (Nat.ne_of_lt inside)).trans (adds.shapes id inside)
  · exact (get?_setFields _ _ _ _).trans (if_pos rfl)

theorem Holds.later (holds : Holds tree before middle value shape)
    (merges : Merges before middle after writes) : Holds tree before after value shape := by
  rcases holds with known | ⟨origin, unknown, fresh, found⟩
  · exact .inl known
  · have kept := merges.others shape (Nat.ne_of_gt fresh) (lt_size_of_get? found)
    exact .inr ⟨origin, unknown, fresh, kept.trans found⟩

theorem settings_congr {other : NodeId → ShapeId} (same : held entry = other entry) :
    before.settings tree held entry = before.settings tree other entry := by
  rw [settings, settings, same]

theorem epoch_of_settings {write : Write} (mem : write ∈ before.settings tree held entry) :
    write.epoch = before.epoch := by
  unfold settings at mem
  split at mem
  · rw [mem_singleton.1 mem]
  split at mem
  · dsimp only at mem
    split at mem
    · obtain ⟨field, _, rfl⟩ := mem_map.1 mem
      rfl
    · cases mem
  · cases mem

theorem Merges.started (merges : Merges before pass after writes)
    (started : before.shapes.size < pass.shapes.size) : before.shapes.size < after.shapes.size := by
  obtain ⟨old, found⟩ := exists_of_lt_size started
  exact lt_size_of_get? (merges.written.trans (congrArg (Option.map _) found))

section

variable (adds : Adds before pass) (sound : before.Sound) (started : before.shapes.size < pass.shapes.size)
include adds sound started

theorem Adds.merges_own (own : tree.ownKey? entry = some key) (valued : tree.ownValue? entry = some value) :
    ∃ shape, Merges before pass (addEntry tree before.shapes.size pass entry)
        [⟨key, shape, before.epoch, entry⟩] ∧
      Holds tree before (addEntry tree before.shapes.size pass entry) value shape := by
  rw [addEntry_own own valued, ← adds.epoch]
  rcases adds.shapeOf sound tree value with ⟨shape, held, known, same⟩ | ⟨origin, unknown, same⟩
  · rw [same]
    exact ⟨shape, adds.setFields [⟨key, shape, pass.epoch, entry⟩], .inl ⟨known, held⟩⟩
  rw [same]
  have fresh := adds.unknown started origin
  have written := fresh.adds.setFields [⟨key, pass.shapes.size, pass.epoch, entry⟩]
  have held : Holds tree before (pass.newUnknown origin).2 value pass.shapes.size :=
    .inr ⟨origin, unknown, started, get?_newShape pass _⟩
  exact ⟨pass.shapes.size, fresh.trans written, held.later written⟩

theorem Adds.merges_spread (held : NodeId → ShapeId)
    (own : tree.ownKey? entry = none) (spread : tree.spreadOperand? entry = some operand) :
    Merges before pass (addEntry tree before.shapes.size pass entry) (before.settings tree held entry) := by
  rw [settings, own]
  simp only [spread]
  unfold spreadOperand? at spread
  split at spread
  case h_2 => cases spread
  rename_i kind
  simp only [addEntry, kind, spread]
  rcases adds.shapeOf sound tree operand with ⟨shape, held, known, same⟩ | ⟨origin, unknown, same⟩
  · rw [known, same]
    have object : pass.shapes.isObject shape = before.shapes.isObject shape :=
      congrArg (Option.any Shape.isObject) (adds.shapes shape held)
    rw [object]
    split
    · have written := adds.setFields ((before.shapes.visibleFields shape pass.epoch).map fun field =>
        ⟨field.key, field.shape, pass.epoch, field.node⟩)
      rw [foldl_map, ← adds.visibleFields held] at written
      rw [← adds.epoch, ← adds.visibleFields held]
      exact written
    · exact adds.merges
  · rw [unknown, same]
    have missing : before.shapes.isObject (before.newUnknown origin).1 = false := by
      have absent : before.shapes.get? before.shapes.size = none := Array.getElem?_size
      exact congrArg (Option.any Shape.isObject) absent
    have plain : (pass.newUnknown origin).2.shapes.isObject (pass.newUnknown origin).1 = false :=
      congrArg (Option.any Shape.isObject) (get?_newShape pass (.unknown origin))
    rw [missing, plain]
    exact adds.unknown started origin

theorem Adds.merges_entry (tree : Tree) (entry : NodeId) :
    ∃ shape, Merges before pass (addEntry tree before.shapes.size pass entry)
        (before.settings tree (fun _ => shape) entry) ∧
      ∀ key value, tree.ownKey? entry = some key → tree.ownValue? entry = some value →
        Holds tree before (addEntry tree before.shapes.size pass entry) value shape := by
  cases own : tree.ownKey? entry with
  | some key =>
    obtain ⟨value, valued⟩ := exists_ownValue? own
    obtain ⟨shape, merges, holds⟩ := adds.merges_own sound started own valued
    refine ⟨shape, by rw [settings, own]; exact merges, fun _ other _ same => ?_⟩
    cases valued.symm.trans same
    exact holds
  | none =>
    refine ⟨before.shapes.size, ?_, nofun⟩
    cases spread : tree.spreadOperand? entry with
    | some operand => exact adds.merges_spread sound started _ own spread
    | none =>
      rw [addEntry_other own spread, settings, own]
      simp only [spread]
      exact adds.merges

theorem Adds.merges_entries (tree : Tree) {entries : List NodeId} (distinct : entries.Nodup) :
    ∃ held, Merges before pass (entries.foldl (addEntry tree before.shapes.size) pass)
        (entries.flatMap (before.settings tree held)) ∧
      ∀ entry ∈ entries, ∀ key value, tree.ownKey? entry = some key → tree.ownValue? entry = some value →
        Holds tree before (entries.foldl (addEntry tree before.shapes.size) pass) value (held entry) := by
  induction entries generalizing pass with
  | nil => exact ⟨fun _ => 0, adds.merges, nofun⟩
  | cons entry rest ih =>
    obtain ⟨fresh, distinct⟩ := nodup_cons.1 distinct
    obtain ⟨shape, first, holds⟩ := adds.merges_entry sound started tree entry
    obtain ⟨held, others, holdOthers⟩ := ih first.adds (first.started started) distinct
    -- The first entry does not come again, so that its shape can be added to those of the others.
    have later {other : NodeId} (among : other ∈ rest) : Function.update held entry shape other = held other :=
      Function.update_of_ne (fun same : other = entry => fresh (same ▸ among)) _ _
    refine ⟨Function.update held entry shape, ?_, fun other among key value own valued => ?_⟩
    · have start : before.settings tree (Function.update held entry shape) entry =
          before.settings tree (fun _ => shape) entry := settings_congr (Function.update_self _ _ _)
      have same : rest.flatMap (before.settings tree (Function.update held entry shape)) =
          rest.flatMap (before.settings tree held) :=
        flatMap_congr fun other among => settings_congr (later among)
      rw [flatMap_cons, start, same]
      exact first.trans others
    · rcases mem_cons.1 among with rfl | among
      · rw [Function.update_self]
        exact (holds key value own valued).later others
      · rw [later among]
        exact holdOthers other among key value own valued

/-- The keys of pairs and the names of methods are among what is written, all of it at one time. -/
theorem Adds.keys_entries (tree : Tree) (entries : List NodeId) :
    ∃ writes, Merges before pass (entries.foldl (addEntry tree before.shapes.size) pass) writes ∧
      (∀ write ∈ writes, write.epoch = before.epoch) ∧
      ∀ entry ∈ entries, ∀ key ∈ tree.ownKey? entry, ∃ write ∈ writes, write.key = key := by
  induction entries generalizing pass with
  | nil => exact ⟨[], adds.merges, nofun, nofun⟩
  | cons entry rest ih =>
    obtain ⟨shape, first, _⟩ := adds.merges_entry sound started tree entry
    obtain ⟨writes, others, present, keys⟩ := ih first.adds (first.started started)
    refine ⟨_, first.trans others, forall_mem_append.2 ⟨fun _ => epoch_of_settings, present⟩, ?_⟩
    intro other mem key own
    rcases mem_cons.1 mem with rfl | later
    · have here : ⟨key, shape, before.epoch, other⟩ ∈ before.settings tree (fun _ => shape) other := by
        rw [settings, show tree.ownKey? other = some key from own]
        exact mem_singleton_self _
      exact ⟨_, mem_append_left _ here, rfl⟩
    · obtain ⟨write, among, same⟩ := keys other later key own
      exact ⟨write, mem_append_right _ among, same⟩

end

theorem adds_object (before : Pass) (name : Option String) :
    Adds before (before.newShape (.object name [])).2 ∧
      before.shapes.size < (before.newShape (.object name [])).2.shapes.size := by
  have self : Adds before before := ⟨rfl, rfl, rfl, fun _ _ => rfl⟩
  exact ⟨self.newShape _, by simp [newShape]⟩

theorem Merges.get?_object {name : Option String}
    (merges : Merges before (before.newShape (.object name [])).2 after writes) :
    after.shapes.get? before.shapes.size = some (.object name writes.reverse) := by
  have found : (before.newShape (.object name [])).2.shapes.get? before.shapes.size =
      some (.object name []) := get?_newShape before _
  rw [merges.written, found, Option.map_some, Shape.putAll_object, append_nil]

/-- The object that was just built has the writes of its entries, all made at the same time. -/
theorem Sound.writes_buildObject (sound : before.Sound) (tree : Tree) (node : NodeId) :
    ∃ built, (before.buildObject tree node).2.shapes.get? (before.buildObject tree node).1 = some built ∧
      built.isObject = true ∧ (∀ write ∈ built.writes, write.epoch = before.epoch) ∧
      ∀ entry ∈ tree.codeChildren node, ∀ key ∈ tree.ownKey? entry,
        ∃ write ∈ built.writes, write.key = key := by
  obtain ⟨adds, started⟩ := adds_object before (tree.text node)
  obtain ⟨writes, merges, present, keys⟩ := adds.keys_entries sound started tree (tree.codeChildren node)
  refine ⟨_, merges.get?_object, rfl, fun write mem => present write (mem_reverse.1 mem), ?_⟩
  intro entry mem key own
  obtain ⟨write, among, same⟩ := keys entry mem key own
  exact ⟨write, mem_reverse.2 among, same⟩

theorem memoize_object (literal : tree.kind node = .object) (pass : Pass) :
    pass.memoize tree node = { (pass.buildObject tree node).2 with
      fixed := (pass.buildObject tree node).2.fixed.insert node (pass.buildObject tree node).1 } := by
  simp only [memoize, fixedShape, literal]

/-- The epoch in which the parts of a node have been visited is that of the node or of a node below it. -/
theorem Within.exists_mark {start : Pass} {Region : NodeId → Prop}
    (within : Within tree Region (tree.below node) (start.mark node) after) :
    ∃ inner ∈ tree.subtree node, ∃ mark, after.marks[inner]? = some mark ∧ mark.epoch = after.epoch := by
  obtain ⟨trace, course, inside⟩ := within
  rcases course.last_mark with ⟨epoch, marks⟩ | ⟨inner, among, marked⟩
  · refine ⟨node, tree.mem_subtree_self node, ⟨start.epoch + 1, start.current⟩, ?_, epoch.symm⟩
    rw [marks]
    exact Std.TreeMap.getElem?_insert_self
  · refine ⟨inner, ?_, marked⟩
    rw [subtree_eq]
    exact .tail _ (inside.subset among)

end Pass

namespace Model

variable {tree : Tree} {blocks : Bool} {limits : Limits} {model : Model} {node : NodeId}

/-- The literal at the node was built from the state `before` of the pass. What is known of nodes below it
was known by then, bindings and shapes that were there still are, and the epoch was the latest one of all
nodes of the literal. -/
structure BuildsFrom (model : Model) (node : NodeId) (before : Pass) : Prop where
  sound : before.Sound
  fixed : ∀ inner ∈ model.tree.below node, model.fixed[inner]? = before.fixed[inner]?
  chains : ∀ inner ∈ model.tree.below node, model.chain? inner = before.chain? model.tree inner
  bindings : ∀ id binding, before.scopes.binding? id = some binding →
    model.scopes.binding? id = some binding
  shapes : ∀ id old, before.shapes.get? id = some old →
    ∃ new, model.shapes.get? id = some new ∧ old.Grown 0 new
  marks : ∀ inner ∈ model.tree.subtree node, ∀ mark, model.marks[inner]? = some mark →
    mark.epoch ≤ before.epoch
  latest : ∃ inner ∈ model.tree.subtree node, ∃ mark, model.marks[inner]? = some mark ∧
    mark.epoch = before.epoch

theorem epochOf_of_marked {mark : Mark} (marked : model.marks[node]? = some mark) :
    model.epochOf node = mark.epoch := by
  rw [epochOf, markOf?, findSome?_cons, marked]

theorem shapeOf?_object (literal : model.tree.kind node = .object) :
    model.shapeOf? node = model.fixed[node]? := by
  rw [shapeOf?_eq, literal]
  cases model.fixed[node]? <;> rfl

theorem exists_buildsFrom (proper : tree.Proper) (analysed : Model.ofTree tree blocks limits = .ok model)
    (literal : tree.kind node = .object) (found : model.shapeOf? node = some shape) :
    ∃ before, model.BuildsFrom node before ∧ (before.buildObject tree node).1 = shape ∧
      ∀ id old, (before.buildObject tree node).2.shapes.get? id = some old →
        ∃ new, model.shapes.get? id = some new ∧ old.Grown 0 new := by
  obtain ⟨final, run, rfl⟩ := Model.ofTree_eq_ok.1 analysed
  rw [shapeOf?_object literal] at found
  have evaluated := ((guarded_run proper run).fixed node shape found).isFixed.evaluated
  obtain ⟨start, before, sound, within, _, extend⟩ :=
    (visited_of_evaluated proper run evaluated).exists_memoize proper
  have kept := extend.outside (by rw [literal]; rfl)
  have whole := sound.extends_below kept
  rw [memoize_object literal] at kept
  have course := ((courses tree fun _ => False).gains_buildObject sound node).keeps
  have marks (inner : NodeId) (inside : inner ∈ tree.subtree node) :
      final.marks[inner]? = before.marks[inner]? :=
    (kept.marks inner fun outside => outside inside).trans (course.marks_eq not_mem_nil)
  refine ⟨before, ⟨sound, fun inner inside => ?_, fun inner inside => ?_, whole.bindings, whole.shapes,
    fun inner inside mark marked => ?_, ?_⟩, ?_, kept.shapes⟩
  · exact whole.fixed inner fun outside => outside inside
  · refine whole.chain?_eq sound fun identifier root outside => outside ?_
    have below := mem_subtree_rootIdentifier? root
    obtain ⟨child, among, mem⟩ := mem_flatMap.1 inside
    exact mem_flatMap.2 ⟨child, among, mem_subtree_trans below mem⟩
  · exact sound.marks inner mark ((marks inner inside).symm.trans marked)
  · obtain ⟨inner, inside, mark, marked, latest⟩ := within.exists_mark
    exact ⟨inner, inside, mark, (marks inner inside).trans marked, latest⟩
  · have fixed := kept.fixed node fun outside => outside (tree.mem_subtree_self node)
    rw [Std.TreeMap.getElem?_insert_self] at fixed
    exact Option.some.inj (fixed.symm.trans found)

/-- The writes of a literal are the settings of its entries in their order, and later ones. -/
theorem exists_merged (proper : tree.Proper) (analysed : Model.ofTree tree blocks limits = .ok model)
    (literal : tree.kind node = .object) (found : model.shapeOf? node = some shape) :
    ∃ (before : Pass) (held : NodeId → ShapeId) (built last : Shape) (later : List Write),
      model.BuildsFrom node before ∧ (before.buildObject tree node).1 = shape ∧
      (∀ entry ∈ tree.codeChildren node, ∀ key value, tree.ownKey? entry = some key →
        tree.ownValue? entry = some value →
          Holds tree before (before.buildObject tree node).2 value (held entry)) ∧
      (before.buildObject tree node).2.shapes.get? shape = some built ∧
      built.history = (tree.codeChildren node).flatMap (before.settings tree held) ∧
      model.shapes.get? shape = some last ∧ last.history = built.history ++ later := by
  obtain ⟨before, builds, rfl, since⟩ := exists_buildsFrom proper analysed literal found
  obtain ⟨adds, started⟩ := adds_object before (tree.text node)
  obtain ⟨held, merges, holds⟩ := adds.merges_entries builds.sound started tree
    ((proper.distinct node).filter fun child => tree.kind child != .comment)
  have atBuilt := merges.get?_object
  obtain ⟨last, atLast, grown⟩ := since _ _ atBuilt
  obtain ⟨added, writes, _⟩ := grown.writes
  refine ⟨before, held, _, last, added.reverse, builds, rfl, holds, atBuilt, reverse_reverse _, atLast, ?_⟩
  rw [Shape.history_eq, writes, reverse_append]
  rfl

end Model

end LeakTrace
