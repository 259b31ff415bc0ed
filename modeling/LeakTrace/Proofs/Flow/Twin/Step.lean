import LeakTrace.Proofs.Flow.Twin.Relation

namespace LeakTrace

open List ShapeStore Pass

variable {after : Pass} {epoch : Nat}

theorem Pass.Extends.start {Region : NodeId → Prop} {before : Pass} {binding : Binding} {shape : ShapeId}
    (extend : Extends Region epoch before after) (fits : binding.Fits before.scopes.bindings before.shapes)
    (start : binding.Start after.scopes.bindings shape) : binding.Start before.scopes.bindings shape := by
  cases start with
  | holder pathless holds => exact .holder pathless holds
  | @other path id name holder isPath root found holds =>
    have rooted := (fits.path path isPath).rooted
    rw [root] at rooted
    obtain ⟨old, atRoot, _⟩ := rooted
    cases (extend.bindings id old atRoot).symm.trans found
    exact .other isPath root atRoot holds

theorem Pass.getElem?_mark (pass : Pass) (node place : NodeId) :
    (pass.mark node).marks[place]? =
      if node = place then some ⟨pass.epoch + 1, pass.current⟩ else pass.marks[place]? := by
  simp only [Pass.mark, Std.TreeMap.getElem?_insert, Std.compare_eq_iff_eq]

namespace Pairing

variable {r : Pairing} {link new : Link} {now : Moment} {pass other : Pass} {birth : Nat} {node : NodeId}
  {shapes copies : ShapeStore} {shape copy : Shape} {part : NodeId}

theorem StoreTwin.add (stores : r.StoreTwin link now shapes copies) (bare : shape.writes = [])
    (past : birth ≤ now.time) :
    r.StoreTwin (link ++ [(copies.size, birth)]) now (shapes.add shape) (copies.add shape) := by
  have cases {id image : ShapeId} {later : Nat}
      (born : Link.Born (link ++ [(copies.size, birth)]) id image later) :
      link.Born id image later ∨ id = shapes.size ∧ image = copies.size ∧ later = birth := by
    rw [Link.Born, List.getElem?_append] at born
    split at born
    · exact .inl born
    rename_i outside
    obtain ⟨inside, same⟩ := List.getElem?_eq_some_iff.1 born
    rw [getElem_singleton] at same
    cases same
    rw [← stores.size]
    exact .inr ⟨Nat.le_antisymm (Nat.sub_eq_zero_iff_le.1 (Nat.lt_one_iff.1 inside))
      (Nat.le_of_not_lt outside), rfl, rfl⟩
  refine ⟨?_, fun id image later born => ?_, fun id next image birth later born alsoBorn => ?_,
    fun strict => ?_, fun id image later old copy born found atImage => ?_⟩
  · rw [length_append, length_singleton, size_add, stores.size]
  · rw [size_add]
    rcases cases born with known | ⟨_, rfl, rfl⟩
    · have inside := stores.handles id image later known
      exact ⟨Nat.lt_succ_of_lt inside.1, inside.2⟩
    · exact ⟨Nat.lt_succ_self _, past⟩
  · rcases cases born with known | ⟨rfl, rfl, rfl⟩
    · rcases cases alsoBorn with alsoKnown | ⟨_, rfl, _⟩
      · exact stores.injective id next image birth later known alsoKnown
      · exact absurd (stores.handles id _ birth known).1 (Nat.lt_irrefl _)
    · rcases cases alsoBorn with alsoKnown | ⟨rfl, _, _⟩
      · exact absurd (stores.handles next _ later alsoKnown).1 (Nat.lt_irrefl _)
      · rfl
  · obtain ⟨size, same⟩ := stores.exact strict
    refine ⟨by rw [size_add, size_add, size], fun id image later born => ?_⟩
    rcases cases born with known | ⟨rfl, rfl, _⟩
    · exact same id image later known
    · exact size
  · rw [get?_add] at found atImage
    rcases cases born with known | ⟨rfl, rfl, rfl⟩
    · have inside := known.lt
      rw [stores.size] at inside
      rw [if_neg (Nat.ne_of_lt inside)] at found
      rw [if_neg (Nat.ne_of_lt (stores.handles id image later known).1)] at atImage
      exact (stores.related id image later old copy known found atImage).mono (prefix_append _ _)
    · rw [if_pos rfl] at found atImage
      cases found
      cases atImage
      exact ⟨rfl, by rw [bare]; exact .nil⟩

theorem StoreTwin.modify {changed changedCopies : ShapeStore} {object image : ShapeId}
    {f g : Shape → Shape} (stores : r.StoreTwin link now shapes copies)
    (born : link.Born object image birth) (size : changed.size = shapes.size)
    (sizeCopies : changedCopies.size = copies.size) (get? : ∀ id, changed.get? id =
      if object = id then (shapes.get? id).map f else shapes.get? id)
    (get?Copies : ∀ id, changedCopies.get? id =
      if image = id then (copies.get? id).map g else copies.get? id)
    (step : ∀ shape copy, r.ShapeTwin link now birth shape copy →
      r.ShapeTwin link now birth (f shape) (g copy)) :
    r.StoreTwin link now changed changedCopies := by
  refine ⟨by rw [size, stores.size], fun id copy birth born => ?_, stores.injective,
    by rw [size, sizeCopies]; exact stores.exact, fun id twin time shape copy alsoBorn found atImage => ?_⟩
  · rw [sizeCopies]
    exact stores.handles id copy birth born
  rw [get?] at found
  rw [get?Copies] at atImage
  by_cases here : object = id
  · subst here
    cases born.symm.trans alsoBorn
    rw [if_pos rfl] at found atImage
    obtain ⟨before, atObject, rfl⟩ := Option.map_eq_some_iff.1 found
    obtain ⟨beforeCopy, atTwin, rfl⟩ := Option.map_eq_some_iff.1 atImage
    exact step before beforeCopy (stores.related object image birth before beforeCopy born atObject atTwin)
  · rw [if_neg here] at found
    have apart : image ≠ twin := by
      rintro rfl
      exact here (stores.injective object id image birth time born alsoBorn)
    rw [if_neg apart] at atImage
    exact stores.related id twin time shape copy alsoBorn found atImage

theorem ShapeTwin.asObject (related : r.ShapeTwin link now birth shape copy) :
    r.ShapeTwin link now birth shape.asObject copy.asObject := by
  refine ⟨Shape.outline_asObject related.outline, ?_⟩
  rw [Shape.writes_asObject, Shape.writes_asObject]
  exact related.writes

theorem ShapeTwin.put {write image : Write} (related : r.ShapeTwin link now birth shape copy)
    (same : r.WriteTwin link now birth write image) :
    r.ShapeTwin link now birth (shape.put write) (copy.put image) := by
  refine ⟨?_, ?_⟩
  · rw [Shape.outline_put, Shape.outline_put]
    exact Shape.outline_asObject related.outline
  · rw [Shape.writes_put, Shape.writes_put]
    exact .cons same related.writes

theorem rel_insert {α β : Type} {R : α → β → Prop} {values : Std.TreeMap NodeId α}
    {copies : Std.TreeMap NodeId β} {value : α} {copy : β}
    (same : ∀ inner, r.Plain inner → Option.Rel R values[inner]? copies[r.rename inner]?)
    (related : R value copy) (node inner : NodeId) (plain : r.Plain inner) :
    Option.Rel R (values.insert node value)[inner]?
      (copies.insert (r.rename node) copy)[r.rename inner]? := by
  by_cases here : node = inner
  · subst here
    rw [Std.TreeMap.getElem?_insert_self, Std.TreeMap.getElem?_insert_self]
    exact .some related
  · rw [getElem?_insert_of_ne here, getElem?_insert_of_ne fun equal => here (r.injective equal)]
    exact same inner plain

theorem resolution?_record {scopes copies : Scopes}
    (same : ∀ inner, r.Plain inner → copies.resolution? (r.rename inner) = scopes.resolution? inner)
    (resolution : Resolution) (node inner : NodeId) (plain : r.Plain inner) :
    (copies.record (r.rename node) resolution).resolution? (r.rename inner) =
      (scopes.record node resolution).resolution? inner := by
  unfold Scopes.record Scopes.resolution?
  by_cases here : node = inner
  · subst here
    rw [Std.TreeMap.getElem?_insert_self, Std.TreeMap.getElem?_insert_self]
  · rw [getElem?_insert_of_ne here, getElem?_insert_of_ne fun equal => here (r.injective equal)]
    exact same inner plain

theorem sound_memoize_extra (extra : r.Extra part) (sound : other.Sound) :
    ((other.mark (r.rename part)).memoize r.other (r.rename part)).Sound := by
  have course : Course r.other (fun _ => True) (other.mark (r.rename part)) []
      ((other.mark (r.rename part)).memoize r.other (r.rename part)) := by
    refine (sound.mark _).memoize trivial Std.TreeMap.getElem?_insert_self fun object => ?_
    rcases extra.alone.2.2 with kind | kind | kind
    all_goals
      rw [kind] at object
      cases object
  exact course.sound (sound.mark _)

/-- What coming to an extra part changes: the part is marked, and if it is a string its value is fixed. -/
theorem memoize_extra (extra : r.Extra part) (pass : Pass) :
    ∃ shapes fixed, pass.memoize r.other (r.rename part) = { pass with shapes, fixed } ∧
      pass.shapes.size ≤ shapes.size ∧ (∀ id < pass.shapes.size, shapes.get? id = pass.shapes.get? id) ∧
      ∀ inner, r.rename part ≠ inner → fixed[inner]? = pass.fixed[inner]? := by
  unfold memoize fixedShape
  rcases extra.alone.2.2 with kind | kind | kind
  · rw [kind]
    refine ⟨_, _, rfl, ?_, fun id inside => ?_, fun inner apart => getElem?_insert_of_ne apart⟩
    · rw [size_add]
      exact Nat.le_succ _
    · exact (get?_add _ _ _).trans (if_neg (Nat.ne_of_lt inside))
  · rw [kind]
    exact ⟨_, _, rfl, Nat.le_refl _, fun _ _ => rfl, fun _ _ => rfl⟩
  · rw [kind]
    exact ⟨_, _, rfl, Nat.le_refl _, fun _ _ => rfl, fun _ _ => rfl⟩

/-- The second pass comes to a node, and the first one to the node in its place or to none. -/
theorem later_of_mark (pass other : Pass) {place : NodeId} {marks : Std.TreeMap NodeId Mark}
    (past : pass.epoch ≤ epoch)
    (same : ∀ node, r.Plain node → r.rename node ≠ place → marks[node]? = pass.marks[node]?)
    (here : ∀ node mark, r.Plain node → r.rename node = place → marks[node]? = some mark →
      pass.epoch < mark.epoch) :
    r.Later (pass.moment other) ⟨marks, (other.mark place).marks, epoch, other.epoch + 1⟩ := by
  refine ⟨past, Nat.le_succ _, ?_, fun node copy found => ?_, fun node copy found => ?_⟩
  · rintro node mark copy ⟨plain, marked, copied⟩
    rw [getElem?_mark] at copied
    split at copied
    · rename_i isPlace
      cases copied
      exact .inr ⟨here node mark plain isPlace.symm marked, Nat.lt_succ_self _⟩
    · rename_i apart
      exact .inl ⟨plain, (same node plain (Ne.symm apart)).symm.trans marked, copied⟩
  · dsimp only at found
    rw [getElem?_mark] at found
    split at found
    · cases found
      exact .inr (Nat.lt_succ_self _)
    · exact .inl found
  · dsimp only
    rw [getElem?_mark]
    split
    · exact ⟨_, rfl⟩
    · exact ⟨copy, found⟩

namespace Twin

variable (twin : r.Twin link pass other) {object image : ShapeId} {binding : Binding}
include twin

/-- What changes shapes alone. The link may learn of shapes. -/
theorem withShapes (le : link <+: new)
    (move : Move r.base (fun _ => False) pass { pass with shapes })
    (moveTwin : Move r.other (fun _ => False) other { other with shapes := copies })
    (store : r.StoreTwin new (pass.moment other) shapes copies) :
    r.Twin new { pass with shapes } { other with shapes := copies } :=
  { twin with
    sound := move.sound twin.sound
    soundTwin := moveTwin.sound twin.soundTwin
    store := store
    scopes := twin.scopes.mono le
    fixed := fun node plain => rel_imp (twin.fixed node plain) fun _ _ held => held.mono le
    fixedAt := fun node shape image birth found born =>
      twin.fixedAt node shape image birth found (twin.born_of_lt born le (twin.sound.fixed node shape found))
    boundAt := fun node id binding shape image birth bound found start born =>
      twin.boundAt node id binding shape image birth bound found start
        (twin.born_of_lt born le (twin.sound.start_lt found start)) }

theorem add (bare : shape.writes = []) (past : birth ≤ other.epoch) :
    ∃ new : Link, link <+: new ∧ r.Twin new (pass.newShape shape).2 (other.newShape shape).2 ∧
      new.Born (pass.newShape shape).1 (other.newShape shape).1 birth := by
  refine ⟨_, prefix_append _ _, twin.withShapes (prefix_append _ _) (.add bare) (.add bare)
    (twin.store.add bare past), ?_⟩
  have last : pass.shapes.size = link.length := twin.store.size.symm
  rw [Link.Born, newShape, newShape, last, getElem?_concat_length]

theorem promote (held : link.Held object image) :
    r.Twin link { pass with shapes := pass.shapes.ensureObject object }
      { other with shapes := other.shapes.ensureObject image } := by
  obtain ⟨birth, born⟩ := held
  exact twin.withShapes (prefix_refl _) (.promote object) (.promote image)
    (twin.store.modify born (by simp) (by simp) (get?_ensureObject pass.shapes object)
      (get?_ensureObject other.shapes image) fun _ _ related => related.asObject)

theorem write {value copy : ShapeId} {key : Key} (born : link.Born object image birth)
    (held : link.Held value copy)
    (cause : birth = other.epoch ∨ r.Stored (pass.moment other) node other.epoch) :
    r.Twin link (pass.setField object key value node) (other.setField image key copy (r.rename node)) := by
  obtain ⟨valueBirth, valueBorn⟩ := held
  have inside := twin.lt_size valueBorn
  have insideTwin := twin.store.handles value copy valueBirth valueBorn
  refine twin.withShapes (prefix_refl _) (.write inside) (.write insideTwin.1) ?_
  refine twin.store.modify born (by simp) (by simp) (get?_setField _ _ _ · _ _ _)
    (get?_setField _ _ _ · _ _ _) fun shape before related => related.put ?_
  exact { key := rfl, node := rfl, made := ⟨Nat.le_refl _, Nat.le_refl _⟩, level := twin.level
          exact := twin.exact, value := ⟨valueBirth, insideTwin.2, valueBorn⟩, cause }

theorem record {resolution : Resolution}
    (known : ∀ id, resolution = .bound id → id < pass.scopes.bindings.size)
    (framed : ∀ birth, r.Framed (pass.moment other) birth node) :
    r.Twin link (pass.record node resolution) (other.record (r.rename node) resolution) := by
  refine { twin with
    sound := twin.sound.record known node
    soundTwin := twin.soundTwin.record (fun id same => ?_) (r.rename node)
    scopes := { twin.scopes with
      references := resolution?_record twin.scopes.references resolution node }
    boundAt := fun inner id binding shape image birth bound found start born => ?_ }
  · rw [twin.scopes.size_bindings]
    exact known id same
  · rcases eq_or_of_getElem?_insert bound with ⟨rfl, _⟩ | bound
    · exact framed birth
    · exact twin.boundAt inner id binding shape image birth bound found start born

theorem refer (opened : r.Open (pass.moment other) node) :
    r.Twin link (pass.reference r.base node) (other.reference r.other (r.rename node)) := by
  rw [reference, reference, r.text node opened.kept.plain, twin.current]
  split
  · exact twin
  rw [twin.scopes.lookup_eq]
  refine twin.record (fun id same => ?_) (opened.framed (.inl rfl))
  split at same
  · rename_i found
    cases same
    exact twin.sound.lookup found
  · cases same

theorem fits {copy : Binding} (related : r.BindingTwin link.Held binding copy)
    (fits : binding.Fits pass.scopes.bindings pass.shapes) :
    copy.Fits other.scopes.bindings other.shapes := by
  refine ⟨fun image mem => ?_, fun path mem => ?_, fun pathless shapeless => ?_⟩
  · have same := related.shape
    rw [show copy.shape = some image from mem] at same
    obtain ⟨shape, _, birth, born⟩ := exists_of_rel_some same
    exact (twin.store.handles shape image birth born).1
  · rw [related.path] at mem
    obtain ⟨old, isPath, rfl⟩ := Option.map_eq_some_iff.1 mem
    have expanded := fits.path old isPath
    refine ⟨?_, (old.isUnnamed_rename r.rename).trans expanded.named, expanded.segments, expanded.known⟩
    have rooted := expanded.rooted
    unfold Chain.rename
    cases root : old.root with
    | binding id name =>
      rw [root] at rooted
      obtain ⟨holder, atRoot, pathless⟩ := rooted
      have same := twin.scopes.bindings id
      rw [show pass.scopes.binding? id = some holder from atRoot] at same
      obtain ⟨image, atImage, same⟩ := exists_of_rel same
      exact ⟨image, atImage, by rw [same.path, pathless]; rfl⟩
    | _ => trivial
  · rw [related.path, Option.map_eq_none_iff] at pathless
    have same := related.shape
    rw [shapeless] at same
    cases holds : binding.shape with
    | none => exact fits.held pathless holds
    | some shape =>
      rw [holds] at same
      cases same

theorem introduce {copy : Binding} (related : r.BindingTwin link.Held binding copy)
    (fits : binding.Fits pass.scopes.bindings pass.shapes)
    (framed : ∀ shape image birth, binding.Start pass.scopes.bindings shape →
      link.Born shape image birth → r.Framed (pass.moment other) birth node) :
    r.Twin link (pass.introduce node binding) (other.introduce (r.rename node) copy) := by
  have extend : Extends (fun _ => True) pass.epoch pass (pass.introduce node binding) :=
    extends_introduce trivial
  have number := twin.scopes.size_bindings
  refine { twin with
    sound := twin.sound.introduce fits node
    soundTwin := twin.soundTwin.introduce (twin.fits related fits) (r.rename node)
    scopes := ⟨fun id => ?_, fun id => ?_, ?_⟩
    boundAt := fun inner id held shape image birth bound found start born => ?_ }
  · have opened := twin.scopes.opened id
    simp only [Pass.introduce, Pass.record, declare, Scopes.record, Scopes.declare,
      Array.getElem?_modify, related.scope, related.name, number, opened]
    split
    · rw [Option.map_map, Option.map_map]
      rfl
    · rfl
  · have known := twin.scopes.bindings id
    simp only [Pass.introduce, Pass.record, declare, Scopes.record, Scopes.declare, Scopes.binding?,
      Array.getElem?_push, number]
    split
    · exact .some related
    · exact known
  · intro inner plain
    have handle : (other.declare copy).1 = (pass.declare binding).1 := number
    have known (inner : NodeId) (plain : r.Plain inner) :
        (other.scopes.declare copy).resolution? (r.rename inner) =
          (pass.scopes.declare binding).resolution? inner := twin.scopes.references inner plain
    rw [Pass.introduce, Pass.introduce, handle]
    exact resolution?_record known _ node inner plain
  · rcases eq_or_of_getElem?_insert bound with ⟨rfl, same⟩ | bound
    · cases same
      have last : (pass.introduce node binding).scopes.binding? (pass.declare binding).1 = some binding :=
        Array.getElem?_push_size
      cases last.symm.trans found
      exact framed shape image birth (extend.start fits start) born
    · have inside := twin.sound.references inner id bound
      have old : pass.scopes.binding? id = some (pass.scopes.bindings[id]) :=
        Array.getElem?_eq_getElem inside
      cases (extend.bindings id _ old).symm.trans found
      exact twin.boundAt inner id _ shape image birth bound old
        (extend.start (twin.sound.bindings id _ old) start) born

theorem fix {shape : ShapeId} (held : link.Held shape image) (opened : r.Open (pass.moment other) node) :
    r.Twin link { pass with fixed := pass.fixed.insert node shape }
      { other with fixed := other.fixed.insert (r.rename node) image } := by
  obtain ⟨birth, born⟩ := held
  have fixed {state : Pass} {id : ShapeId} (sound : state.Sound) (inside : id < state.shapes.size)
      (place : NodeId) : Sound { state with fixed := state.fixed.insert place id } := by
    refine { sound with fixed := fun inner found atInner => ?_ }
    rcases eq_or_of_getElem?_insert atInner with ⟨_, rfl⟩ | atInner
    · exact inside
    · exact sound.fixed inner found atInner
  refine { twin with
    sound := fixed twin.sound (twin.lt_size born) node
    soundTwin := fixed twin.soundTwin (twin.store.handles shape image birth born).1 (r.rename node)
    fixed := rel_insert twin.fixed ⟨birth, born⟩ node
    fixedAt := fun inner found image birth atInner born => ?_ }
  rcases eq_or_of_getElem?_insert atInner with ⟨rfl, _⟩ | atInner
  · exact opened.framed (.inl rfl) birth
  · exact twin.fixedAt inner found image birth atInner born

theorem enter (kind : ScopeKind) (node : NodeId) :
    r.Twin link (pass.enter kind node) (other.enter kind (r.rename node)) := by
  have number := twin.scopes.size_scopes
  refine { twin with
    sound := twin.sound.enter kind node
    soundTwin := twin.soundTwin.enter kind (r.rename node)
    current := number
    scopes := { twin.scopes with opened := fun id => ?_ } }
  have opened := twin.scopes.opened id
  simp only [Pass.enter, Scopes.openScope, Array.getElem?_push, number, opened, twin.current]
  split
  · rfl
  · rfl

theorem leave (outer : ScopeId) :
    r.Twin link { pass with current := outer } { other with current := outer } :=
  { twin with sound := { twin.sound with }, soundTwin := { twin.soundTwin with }, current := rfl }

/-- What is found at a node stays so as the passes go on. -/
theorem framed_later (later : r.Later (pass.moment other) now) {shape : ShapeId}
    (born : link.Born shape image birth) (framed : r.Framed (pass.moment other) birth node) :
    r.Framed now birth node :=
  later.framed framed (twin.store.handles shape image birth born).2

theorem mark (plain : r.Plain node) : r.Twin link (pass.mark node) (other.mark (r.rename node)) := by
  have later : r.Later (pass.moment other) ((pass.mark node).moment (other.mark (r.rename node))) := by
    refine later_of_mark pass other (Nat.le_succ _) (fun inner _ apart => ?_) fun inner mark _ same found => ?_
    · rw [getElem?_mark, if_neg fun equal : node = inner => apart (equal ▸ rfl)]
    · rw [getElem?_mark, if_pos (r.injective same).symm] at found
      cases found
      exact Nat.lt_succ_self _
  have level : r.Level ((pass.mark node).moment (other.mark (r.rename node))) (pass.epoch + 1)
      (other.epoch + 1) := by
    rintro inner mark copy ⟨_, marked, copied⟩
    have past : mark.epoch ≤ pass.epoch + 1 := (twin.sound.mark node).marks inner mark marked
    have pastTwin : copy.epoch ≤ other.epoch + 1 := (twin.soundTwin.mark _).marks _ copy copied
    refine ⟨⟨fun _ => by omega, fun _ => by omega⟩, fun reached => ?_⟩
    dsimp only [moment] at marked copied
    rw [getElem?_mark] at marked copied
    split at marked
    · cases marked
      exact Nat.le_refl _
    · rename_i apart
      rw [if_neg fun equal => apart (r.injective equal)] at copied
      have := twin.soundTwin.marks _ copy copied
      omega
  have exact (strict : r.Strict) : other.epoch + 1 = pass.epoch + 1 := congrArg _ (twin.exact strict)
  have here : r.MarkTwin ((pass.mark node).moment (other.mark (r.rename node)))
      ⟨pass.epoch + 1, pass.current⟩ ⟨other.epoch + 1, other.current⟩ := ⟨twin.current, level, exact⟩
  exact { twin with
    sound := twin.sound.mark node
    soundTwin := twin.soundTwin.mark (r.rename node)
    store := later.storeTwin twin.store (Nat.le_refl _) (fun _ _ => rfl) fun _ => rfl
    marks := rel_insert (twin.later_marks later) here node
    level
    exact
    follows := fun access part late chosen mem beside found => by
      have different : r.rename node ≠ r.rename part := fun equal =>
        (Extra.alone ⟨access, chosen, mem, beside⟩).1 (r.injective equal ▸ plain)
      dsimp only [moment] at found
      rw [getElem?_mark, if_neg different] at found
      obtain ⟨copy, marked, apart⟩ := twin.follows access part late chosen mem beside found
      dsimp only [moment]
      rw [getElem?_mark]
      split
      · have := twin.soundTwin.marks _ late found
        exact ⟨_, rfl, by dsimp only; omega⟩
      · exact ⟨copy, marked, apart⟩
    fixedAt := fun inner shape image birth found born =>
      twin.framed_later later born (twin.fixedAt inner shape image birth found born)
    boundAt := fun inner id binding shape image birth bound found start born =>
      twin.framed_later later born (twin.boundAt inner id binding shape image birth bound found start born) }

/-- The second pass comes to a part that the first one passes by. -/
theorem lag {access : NodeId} {copy : Mark} (chosen : r.Chosen access)
    (mem : part ∈ r.base.children access) (beside : r.base.role part ≠ some .object)
    (marked : other.marks[r.rename access]? = some copy) (left : copy.epoch < other.epoch) :
    r.Twin link pass ((other.mark (r.rename part)).memoize r.other (r.rename part)) := by
  have extra : r.Extra part := ⟨access, chosen, mem, beside⟩
  have sound := sound_memoize_extra extra twin.soundTwin
  obtain ⟨copies, fixed, equal, size, get?, others⟩ := memoize_extra extra (other.mark (r.rename part))
  rw [equal] at sound ⊢
  have apart {inner : NodeId} (plain : r.Plain inner) : r.rename part ≠ r.rename inner :=
    fun same => extra.alone.1 (r.injective same ▸ plain)
  have later : r.Later (pass.moment other) (pass.moment (other.mark (r.rename part))) :=
    later_of_mark pass other (Nat.le_refl _) (fun _ _ _ => rfl)
      fun inner _ plain same _ => absurd same.symm (apart plain)
  exact { twin with
    soundTwin := sound
    store := later.storeTwin twin.store size get? fun strict => absurd chosen (strict access)
    exact := fun strict => absurd chosen (strict access)
    marks := fun inner plain => by
      have same := other.getElem?_mark (r.rename part) (r.rename inner)
      rw [if_neg (apart plain)] at same
      rw [show Pass.marks { other.mark (r.rename part) with shapes := copies, fixed } =
        (other.mark (r.rename part)).marks from rfl, same]
      exact twin.later_marks later inner plain
    fixed := fun inner plain => by
      rw [others _ (apart plain)]
      exact twin.fixed inner plain
    level := by
      rintro inner mark copy ⟨plain, marked, copied⟩
      dsimp only [moment] at marked copied
      rw [getElem?_mark, if_neg (apart plain)] at copied
      have past := twin.sound.marks inner mark marked
      have pastTwin := twin.soundTwin.marks _ copy copied
      dsimp only [Pass.mark]
      exact ⟨⟨fun _ => by omega, fun _ => by omega⟩, fun _ => by omega⟩
    follows := fun outer inner late alsoChosen alsoMember alsoBeside found => by
      have plain := (r.anew outer alsoChosen).plain
      dsimp only [moment] at found ⊢
      rw [getElem?_mark] at found ⊢
      rw [if_neg (apart plain)]
      split at found
      · rename_i here
        cases r.injective here
        cases (r.anew access chosen).alone part mem outer alsoMember
        cases found
        exact ⟨copy, marked, by dsimp only; omega⟩
      · exact twin.follows outer inner late alsoChosen alsoMember alsoBeside found
    fixedAt := fun inner shape image birth found born =>
      twin.framed_later later born (twin.fixedAt inner shape image birth found born)
    boundAt := fun inner id binding shape image birth bound found start born =>
      twin.framed_later later born (twin.boundAt inner id binding shape image birth bound found start born) }

end Twin

end Pairing

end LeakTrace
