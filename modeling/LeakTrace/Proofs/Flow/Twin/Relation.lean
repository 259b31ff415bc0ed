import LeakTrace.Proofs.Flow.Twin.Mirror

namespace LeakTrace

/-- How two passes that run side by side correspond: for every shape of the first pass its handle in the
second, and for a literal the epoch there at which it is put together. -/
abbrev Link := List (ShapeId × Nat)

variable {new link : Link} {birth : Nat} {pass : Pass} {write copy : Write}

namespace Link

def Born (link : Link) (id twin : ShapeId) (birth : Nat) : Prop := link[id]? = some (twin, birth)

def Held (link : Link) (id twin : ShapeId) : Prop := ∃ birth, link.Born id twin birth

variable {old : Link} {id twin : ShapeId}

theorem Born.mono (born : old.Born id twin birth) (le : old <+: new) : new.Born id twin birth := by
  obtain ⟨rest, rfl⟩ := le
  obtain ⟨inside, _⟩ := List.getElem?_eq_some_iff.1 born
  rw [Born, List.getElem?_append_left inside, born]

theorem Held.mono (held : old.Held id twin) (le : old <+: new) : new.Held id twin :=
  held.imp fun _ born => born.mono le

theorem Born.lt (born : link.Born id twin birth) : id < link.length :=
  (List.getElem?_eq_some_iff.1 born).1

theorem Born.of_lt (born : new.Born id twin birth) (le : old <+: new) (inside : id < old.length) :
    old.Born id twin birth := by
  obtain ⟨rest, rfl⟩ := le
  rwa [Born, List.getElem?_append_left inside] at born

end Link

/-- The shapes that paths from a name start at: its own, or that of the name that it stands for. -/
inductive Binding.Start (bindings : Array Binding) (binding : Binding) (shape : ShapeId) : Prop
  | holder : binding.path = none → binding.shape = some shape → Start bindings binding shape
  | other {path : Chain} {id : BindingId} {name : String} {holder : Binding} :
      binding.path = some path → path.root = .binding id name → bindings[id]? = some holder →
      holder.shape = some shape → Start bindings binding shape

theorem Pass.Sound.start_lt {binding : Binding} {id : BindingId} {shape : ShapeId}
    (sound : pass.Sound) (found : pass.scopes.binding? id = some binding)
    (start : binding.Start pass.scopes.bindings shape) : shape < pass.shapes.size := by
  cases start with
  | holder _ holds => exact (sound.bindings id binding found).shape shape holds
  | other _ _ atRoot holds => exact (sound.bindings _ _ atRoot).shape shape holds

/-- How far two passes have come: the marks of each, and its epoch. -/
structure Moment where
  marks : Std.TreeMap NodeId Mark
  copies : Std.TreeMap NodeId Mark
  epoch : Nat
  time : Nat

def Pass.moment (pass other : Pass) : Moment := ⟨pass.marks, other.marks, pass.epoch, other.epoch⟩

namespace Pairing

variable (r : Pairing)

/-- Both passes have come to a node that both trees have alike. -/
structure Both (now : Moment) (node : NodeId) (mark copy : Mark) : Prop where
  plain : r.Plain node
  marked : now.marks[node]? = some mark
  copied : now.copies[r.rename node]? = some copy

/-- An epoch of the first pass and a time of the second that lie between the same nodes. Where the second
pass alone goes on, one epoch belongs to several times. -/
def Level (now : Moment) (epoch time : Nat) : Prop :=
  ∀ node mark copy, r.Both now node mark copy →
    (epoch < mark.epoch ↔ time < copy.epoch) ∧ (time ≤ copy.epoch → epoch ≤ mark.epoch)

structure MarkTwin (now : Moment) (mark copy : Mark) : Prop where
  scope : copy.scope = mark.scope
  level : r.Level now mark.epoch copy.epoch
  exact : r.Strict → copy.epoch = mark.epoch

/-- An assignment writes at the time, just after the second pass has been through its target. -/
def Stored (now : Moment) (site : NodeId) (time : Nat) : Prop :=
  ∃ target, r.base.child? site .left = some target ∧ r.Plain target ∧
    ∀ node mark, now.copies[r.rename node]? = some mark → mark.epoch = time → node ∈ r.base.subtree target

/-- Two writes that correspond. They belong to a literal that is put together at `birth`, or to an
assignment. -/
structure WriteTwin (link : Link) (now : Moment) (birth : Nat) (write twin : Write) : Prop where
  key : twin.key = write.key
  node : twin.node = r.rename write.node
  made : write.epoch ≤ now.epoch ∧ twin.epoch ≤ now.time
  level : r.Level now write.epoch twin.epoch
  exact : r.Strict → twin.epoch = write.epoch
  value : ∃ valueBirth ≤ twin.epoch, link.Born write.shape twin.shape valueBirth
  cause : birth = twin.epoch ∨ r.Stored now write.node twin.epoch

structure ShapeTwin (link : Link) (now : Moment) (birth : Nat) (shape twin : Shape) : Prop where
  outline : twin.outline = shape.outline
  writes : List.Forall₂ (r.WriteTwin link now birth) shape.writes twin.writes

/-- The shapes of one store stand among those of the other. If nothing is written anew there are no others. -/
structure StoreTwin (link : Link) (now : Moment) (shapes copies : ShapeStore) : Prop where
  size : link.length = shapes.size
  handles : ∀ id image birth, link.Born id image birth → image < copies.size ∧ birth ≤ now.time
  injective : ∀ id next image birth later, link.Born id image birth → link.Born next image later →
    id = next
  exact : r.Strict → copies.size = shapes.size ∧ ∀ id image birth, link.Born id image birth → image = id
  related : ∀ id image birth shape copy, link.Born id image birth → shapes.get? id = some shape →
    copies.get? image = some copy → r.ShapeTwin link now birth shape copy

/-- A literal that is found at a node is put together before the second pass leaves the node, or the one
that the node is a part of. -/
def Framed (now : Moment) (birth : Nat) (node : NodeId) : Prop :=
  birth = 0 ∨ ∃ owner copy, (owner = node ∨ node ∈ r.base.children owner) ∧ r.Kept owner ∧
    now.copies[r.rename owner]? = some copy ∧
    ∀ inner late, now.copies[r.rename inner]? = some late → copy.epoch < late.epoch →
      late.epoch ≤ birth → inner ∈ r.base.below owner

/-- The second pass has come to the node and has not left it. -/
structure Open (now : Moment) (node : NodeId) : Prop where
  kept : r.Kept node
  inside : ∃ copy, now.copies[r.rename node]? = some copy ∧
    ∀ inner late, now.copies[r.rename inner]? = some late → copy.epoch < late.epoch →
      inner ∈ r.base.below node

/-- The second pass comes to an extra part after it has come to the access, and not at once. -/
def Follows (now : Moment) : Prop :=
  ∀ access part late, r.Chosen access → part ∈ r.base.children access → r.base.role part ≠ some .object →
    now.copies[r.rename part]? = some late →
    ∃ copy, now.copies[r.rename access]? = some copy ∧ copy.epoch + 1 ≠ late.epoch

/-- Two passes over the trees that have come equally far. -/
structure Twin (link : Link) (pass twin : Pass) : Prop where
  sound : pass.Sound
  soundTwin : twin.Sound
  current : twin.current = pass.current
  store : r.StoreTwin link (pass.moment twin) pass.shapes twin.shapes
  scopes : r.ScopesTwin link.Held pass.scopes twin.scopes
  marks : ∀ node, r.Plain node →
    Option.Rel (r.MarkTwin (pass.moment twin)) pass.marks[node]? twin.marks[r.rename node]?
  fixed : ∀ node, r.Plain node →
    Option.Rel link.Held pass.fixed[node]? twin.fixed[r.rename node]?
  level : r.Level (pass.moment twin) pass.epoch twin.epoch
  exact : r.Strict → twin.epoch = pass.epoch
  follows : r.Follows (pass.moment twin)
  fixedAt : ∀ node shape image birth, pass.fixed[node]? = some shape → link.Born shape image birth →
    r.Framed (pass.moment twin) birth node
  boundAt : ∀ node id binding shape image birth, pass.scopes.resolution? node = some (.bound id) →
    pass.scopes.binding? id = some binding → binding.Start pass.scopes.bindings shape →
    link.Born shape image birth → r.Framed (pass.moment twin) birth node

/-- The passes have gone on, and what they have come to since got later marks. -/
structure Later (old new : Moment) : Prop where
  epoch : old.epoch ≤ new.epoch
  time : old.time ≤ new.time
  both : ∀ node mark copy, r.Both new node mark copy →
    r.Both old node mark copy ∨ old.epoch < mark.epoch ∧ old.time < copy.epoch
  late : ∀ (node : NodeId) (copy : Mark), new.copies[node]? = some copy →
    old.copies[node]? = some copy ∨ old.time < copy.epoch
  kept : ∀ (node : NodeId) (copy : Mark), old.copies[node]? = some copy →
    ∃ later, new.copies[node]? = some later

variable {r} {other : Pass} {old now : Moment} {epoch time : Nat} {node : NodeId}

theorem rel_imp {α β : Type} {R S : α → β → Prop} {a : Option α} {b : Option β}
    (related : Option.Rel R a b) (step : ∀ a b, R a b → S a b) : Option.Rel S a b := by
  cases related with
  | none => exact .none
  | some related => exact .some (step _ _ related)

theorem WriteTwin.mono (related : r.WriteTwin link now birth write copy)
    (le : link <+: new) : r.WriteTwin new now birth write copy := by
  obtain ⟨valueBirth, before, born⟩ := related.value
  exact { related with value := ⟨valueBirth, before, born.mono le⟩ }

theorem ShapeTwin.mono {shape copy : Shape} (related : r.ShapeTwin link now birth shape copy)
    (le : link <+: new) : r.ShapeTwin new now birth shape copy :=
  ⟨related.outline, related.writes.imp fun _ _ same => same.mono le⟩

theorem ScopesTwin.mono {scopes copies : Scopes} (related : r.ScopesTwin link.Held scopes copies)
    (le : link <+: new) : r.ScopesTwin new.Held scopes copies :=
  { related with
    bindings := fun id => rel_imp (related.bindings id) fun _ _ same =>
      { same with shape := rel_imp same.shape fun _ _ held => held.mono le } }

theorem Open.framed {owner : NodeId} (opened : r.Open now owner)
    (place : owner = node ∨ node ∈ r.base.children owner) (birth : Nat) : r.Framed now birth node := by
  obtain ⟨copy, marked, below⟩ := opened.inside
  exact .inr ⟨owner, copy, place, opened.kept, marked,
    fun inner late atInner after _ => below inner late atInner after⟩

namespace Later

variable (later : r.Later old now)
include later

theorem level (level : r.Level old epoch time) (past : epoch ≤ old.epoch) (pastTwin : time ≤ old.time) :
    r.Level now epoch time := by
  intro node mark copy both
  rcases later.both node mark copy both with known | ⟨recent, recentTwin⟩
  · exact level node mark copy known
  · exact ⟨⟨fun _ => by omega, fun _ => by omega⟩, fun _ => by omega⟩

theorem stored (stored : r.Stored old node time) (past : time ≤ old.time) : r.Stored now node time := by
  obtain ⟨target, left, plain, last⟩ := stored
  refine ⟨target, left, plain, fun inner mark marked same => ?_⟩
  rcases later.late _ mark marked with known | recent
  · exact last inner mark known same
  · omega

theorem framed (framed : r.Framed old birth node) (past : birth ≤ old.time) :
    r.Framed now birth node := by
  refine framed.imp_right ?_
  rintro ⟨owner, copy, place, kept, marked, below⟩
  obtain ⟨last, atOwner⟩ := later.kept _ copy marked
  refine ⟨owner, last, place, kept, atOwner, fun inner late atInner after before => ?_⟩
  rcases later.late _ last atOwner with same | recent
  · cases marked.symm.trans same
    rcases later.late _ late atInner with known | recent
    · exact below inner late known after before
    · omega
  · omega

theorem writeTwin (related : r.WriteTwin link old birth write copy) :
    r.WriteTwin link now birth write copy :=
  { related with
    made := ⟨Nat.le_trans related.made.1 later.epoch, Nat.le_trans related.made.2 later.time⟩
    level := later.level related.level related.made.1 related.made.2
    cause := related.cause.imp_right fun stored => later.stored stored related.made.2 }

/-- Stores that correspond do so later, also if the second one has got further shapes. -/
theorem storeTwin {shapes copies more : ShapeStore} (stores : r.StoreTwin link old shapes copies)
    (size : copies.size ≤ more.size) (get? : ∀ id < copies.size, more.get? id = copies.get? id)
    (exact : r.Strict → more.size = copies.size) : r.StoreTwin link now shapes more := by
  refine { stores with
    exact := fun strict => ⟨(exact strict).trans (stores.exact strict).1, (stores.exact strict).2⟩
    handles := fun id image birth born => ?_
    related := fun id image birth shape copy born found atImage => ?_ }
  · have inside := stores.handles id image birth born
    exact ⟨Nat.lt_of_lt_of_le inside.1 size, Nat.le_trans inside.2 later.time⟩
  · rw [get? image (stores.handles id image birth born).1] at atImage
    have related := stores.related id image birth shape copy born found atImage
    exact ⟨related.outline, related.writes.imp fun _ _ same => later.writeTwin same⟩

end Later

namespace Twin

variable (twin : r.Twin link pass other) {id image : ShapeId}
include twin

theorem lt_size (born : link.Born id image birth) : id < pass.shapes.size := by
  rw [← twin.store.size]
  exact born.lt

theorem born_of_lt (born : new.Born id image birth) (le : link <+: new) (inside : id < pass.shapes.size) :
    link.Born id image birth :=
  born.of_lt le (by rwa [twin.store.size])

theorem later_marks {marks copies : Std.TreeMap NodeId Mark}
    (later : r.Later (pass.moment other) ⟨marks, copies, epoch, time⟩) (node : NodeId)
    (plain : r.Plain node) :
    Option.Rel (r.MarkTwin ⟨marks, copies, epoch, time⟩) pass.marks[node]? other.marks[r.rename node]? := by
  have related := twin.marks node plain
  cases marked : pass.marks[node]? with
  | none =>
    rw [marked] at related
    rw [eq_none_of_rel related]
    exact .none
  | some mark =>
    rw [marked] at related
    obtain ⟨copy, atCopy, same⟩ := exists_of_rel related
    rw [atCopy]
    exact .some ⟨same.scope, later.level same.level (twin.sound.marks node mark marked)
      (twin.soundTwin.marks _ copy atCopy), same.exact⟩

theorem mirrors : r.Mirrors link.Held pass.shapes other.shapes pass.epoch other.epoch := by
  have present {id image : ShapeId} (held : link.Held id image) :
      ∃ shape copy birth, pass.shapes.get? id = some shape ∧ other.shapes.get? image = some copy ∧
        r.ShapeTwin link (pass.moment other) birth shape copy := by
    obtain ⟨birth, born⟩ := held
    obtain ⟨shape, found⟩ := ShapeStore.exists_of_lt_size (twin.lt_size born)
    obtain ⟨copy, atImage⟩ := ShapeStore.exists_of_lt_size (twin.store.handles id image birth born).1
    exact ⟨shape, copy, birth, found, atImage,
      twin.store.related id image birth shape copy born found atImage⟩
  refine ⟨fun id image held => ?_, fun id image shape copy held found atImage => ?_⟩
  · obtain ⟨shape, copy, _, found, atImage, same⟩ := present held
    exact ⟨shape, copy, found, atImage, same.outline⟩
  obtain ⟨_, _, birth, alsoFound, alsoImage, same⟩ := present held
  cases found.symm.trans alsoFound
  cases atImage.symm.trans alsoImage
  -- All writes of either pass have been made by now.
  have all {state : Pass} {id : ShapeId} {shape : Shape} (sound : state.Sound)
      (found : state.shapes.get? id = some shape) : shape.madeBy state.epoch = shape.writes := by
    rw [Shape.madeBy, List.filter_eq_self]
    exact fun write mem => decide_eq_true (sound.writes id shape found write mem).2
  rw [all twin.sound found, all twin.soundTwin atImage]
  exact same.writes.imp fun write image related =>
    ⟨related.key, related.node, related.value.imp fun _ both => both.2⟩

end Twin

end Pairing

end LeakTrace
