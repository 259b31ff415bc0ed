import LeakTrace.Proofs.Flow.Twin.Step

namespace LeakTrace

open List Option Pass

/-- The shape at the end of a path at present, or a new one of which nothing is known. -/
def Pass.pathShape (pass : Pass) (chain : Option Chain) : ShapeId × Pass :=
  match chain.bind fun chain => pass.scopes.terminus pass.shapes chain pass.epoch with
  | some shape => (shape, pass)
  | none => pass.newUnknown <| match chain.map Chain.root with
    | some (.undeclared _) => .undeclared
    | some (.callResult _) => .callResult
    | _ => .expression

theorem Pass.fixedText?_eq (pass : Pass) (node : NodeId) :
    pass.fixedText? node = (pass.fixed[node]?.bind pass.shapes.get?).bind Shape.text? := by
  unfold Pass.fixedText?
  cases pass.fixed[node]?.bind pass.shapes.get? with
  | none => rfl
  | some shape =>
    cases shape with
    | leaf literal => cases literal <;> rfl
    | _ => rfl

theorem Pass.epoch_shapeOf (pass : Pass) (tree : Tree) (node : NodeId) :
    (Pass.shapeOf tree node pass).2.epoch = pass.epoch :=
  congrArg Layout.epoch (pass.layout_valueShape tree .expression (some node))

namespace Pairing

variable {r : Pairing} {link new : Link} {pass other next nextOther : Pass} {node site : NodeId}

/-- Two passes have come to where they correspond again. -/
def Goes (r : Pairing) (link : Link) (pass other : Pass) : Prop :=
  ∃ new : Link, link <+: new ∧ r.Twin new pass other

/-- Two passes have come to where they correspond again, with results that correspond. -/
def Gives {α : Type} (r : Pairing) (link : Link) (Related : Link → α → α → Prop)
    (result twin : α × Pass) : Prop :=
  ∃ new : Link, link <+: new ∧ r.Twin new result.2 twin.2 ∧ Related new result.1 twin.1

/-- What a name is bound to in both passes. -/
structure ValueTwin (r : Pairing) (link : Link) (value twin : Option ShapeId × Option Chain) :
    Prop where
  shape : Option.Rel link.Held value.1 twin.1
  path : twin.2 = value.2.map (Chain.rename r.rename)

theorem Twin.goes (twin : r.Twin link pass other) : r.Goes link pass other :=
  ⟨link, prefix_refl _, twin⟩

theorem Gives.map {α β : Type} {Related : Link → α → α → Prop} {Other : Link → β → β → Prop}
    {result twin : α × Pass} (gives : r.Gives link Related result twin) (f : α → β)
    (step : ∀ new, Related new result.1 twin.1 → Other new (f result.1) (f twin.1)) :
    r.Gives link Other (f result.1, result.2) (f twin.1, twin.2) := by
  obtain ⟨new, le, twin, related⟩ := gives
  exact ⟨new, le, twin, step new related⟩

theorem Goes.trans (goes : r.Goes link pass other)
    (rest : ∀ new : Link, link <+: new → r.Twin new pass other → r.Goes new next nextOther) :
    r.Goes link next nextOther := by
  obtain ⟨new, le, twin⟩ := goes
  obtain ⟨last, leMore, twinMore⟩ := rest new le twin
  exact ⟨last, le.trans leMore, twinMore⟩

theorem Stored.still (stored : r.Stored (pass.moment other) site other.epoch)
    (same : nextOther.layout = other.layout) : r.Stored (next.moment nextOther) site nextOther.epoch := by
  obtain ⟨target, left, plain, last⟩ := stored
  refine ⟨target, left, plain, fun node mark marked now => ?_⟩
  exact last node mark ((congrArg (·.marks[r.rename node]?) same).symm.trans marked)
    (now.trans (congrArg Layout.epoch same))

theorem Open.still (opened : r.Open (pass.moment other) node) (same : nextOther.layout = other.layout) :
    r.Open (next.moment nextOther) node := by
  have marks : nextOther.marks = other.marks := congrArg Layout.marks same
  obtain ⟨kept, inside⟩ := opened
  refine ⟨kept, ?_⟩
  rwa [moment, marks]

theorem Open.plain_of {owner : NodeId} {now : Moment} (opened : r.Open now owner)
    (place : owner = node ∨ node ∈ r.base.children owner) : r.Plain node := by
  rcases place with rfl | mem
  · exact opened.kept.plain
  · exact plain_of_mem opened.kept mem

namespace Twin

variable (twin : r.Twin link pass other) {value : Option NodeId} {image copy shape : ShapeId}
  {target : NodeId}
include twin

theorem chain?_eq (plain : r.Plain node) :
    other.chain? r.other (r.rename node) = (pass.chain? r.base node).map (Chain.rename r.rename) :=
  twin.scopes.resolve?_eq plain

theorem patternChain?_eq (plain : r.Plain node) :
    other.patternChain? r.other (r.rename node) =
      (pass.patternChain? r.base node).map (Chain.rename r.rename) := by
  rw [patternChain?, patternChain?, twin.chain?_eq plain]
  exact filter_map ..

theorem terminus (chain : Chain) :
    Option.Rel link.Held (pass.scopes.terminus pass.shapes chain pass.epoch)
      (other.scopes.terminus other.shapes (chain.rename r.rename) other.epoch) :=
  twin.mirrors.terminus fun id _ _ => twin.scopes.held id

theorem gives {α : Type} {Related : Link → α → α → Prop} {first second : α}
    (related : Related link first second) : r.Gives link Related (first, pass) (second, other) :=
  ⟨link, prefix_refl _, twin, related⟩

theorem newShape {shape : Shape} (bare : shape.writes = []) :
    r.Gives link Link.Held (pass.newShape shape) (other.newShape shape) := by
  obtain ⟨new, le, twin, born⟩ := twin.add bare (Nat.zero_le _)
  exact ⟨new, le, twin, 0, born⟩

theorem pathShape (chain : Option Chain) :
    r.Gives link Link.Held (pass.pathShape chain)
      (other.pathShape (chain.map (Chain.rename r.rename))) := by
  unfold Pass.pathShape
  cases chain with
  | none => exact twin.newShape rfl
  | some chain =>
    have ends := twin.terminus chain
    simp only [map_some, bind_some]
    cases atEnd : pass.scopes.terminus pass.shapes chain pass.epoch with
    | some shape =>
      rw [atEnd] at ends
      obtain ⟨image, atImage, held⟩ := exists_of_rel ends
      rw [atImage]
      exact twin.gives held
    | none =>
      rw [atEnd] at ends
      rw [eq_none_of_rel ends]
      simp only [Chain.rename]
      cases chain.root <;> exact twin.newShape rfl

theorem shapeOf (plain : r.Plain node) :
    r.Gives link Link.Held (Pass.shapeOf r.base node pass)
      (Pass.shapeOf r.other (r.rename node) other) := by
  induction node using Nat.strongRecOn with | ind node ih
  have fixed := twin.fixed node plain
  rw [shapeOf_eq, shapeOf_eq]
  cases found : pass.fixed[node]? with
  | some shape =>
    rw [found] at fixed
    obtain ⟨image, atImage, held⟩ := exists_of_rel fixed
    rw [atImage]
    exact twin.gives held
  | none =>
    rw [found] at fixed
    rw [eq_none_of_rel fixed]
    have access := twin.pathShape (pass.chain? r.base node)
    rw [← twin.chain?_eq plain] at access
    rcases r.kind_plain plain with same | ⟨first, second⟩
    · rw [same]
      cases kind : r.base.kind node with
      | identifier | member | index => exact access
      | assignment =>
        have kept := kept_of_kind plain (by rw [kind]; decide)
        simp only [child?_kept kept]
        cases right : r.base.child? node .right with
        | none => exact twin.newShape rfl
        | some child => exact ih child (Tree.lt_of_child? right) (plain_of_child? kept right)
      | _ => exact twin.newShape rfl
    · rw [first, second]
      exact access

theorem valueBinding (plain : r.Plain node) :
    r.Gives link r.ValueTwin (pass.valueBinding r.base node)
      (other.valueBinding r.other (r.rename node)) := by
  have held : r.Gives link r.ValueTwin
      ((some (Pass.shapeOf r.base node pass).1, none), (Pass.shapeOf r.base node pass).2)
      ((some (Pass.shapeOf r.other (r.rename node) other).1, none),
        (Pass.shapeOf r.other (r.rename node) other).2) :=
    (twin.shapeOf plain).map (some ·, none) fun _ held => ⟨.some held, rfl⟩
  unfold Pass.valueBinding
  rw [twin.chain?_eq plain]
  cases pass.chain? r.base node with
  | none => exact held
  | some chain =>
    have unnamed := chain.isUnnamed_rename r.rename
    simp only [map_some]
    rw [show (chain.rename r.rename).unknownTail = chain.unknownTail from rfl,
      show (chain.rename r.rename).segments = chain.segments from rfl, unnamed]
    split
    · exact held
    split
    · rw [show (chain.rename r.rename).root = chain.root.rename r.rename from rfl]
      cases chain.root with
      | binding id name =>
        have holds := twin.scopes.held id
        simp only [ChainRoot.rename]
        cases found : (pass.scopes.binding? id).bind Binding.shape with
        | none =>
          rw [found] at holds
          rw [eq_none_of_rel holds]
          exact held
        | some shape =>
          rw [found] at holds
          obtain ⟨image, atImage, same⟩ := exists_of_rel holds
          rw [atImage]
          exact twin.gives ⟨.some same, rfl⟩
      | _ => exact held
    · split
      · exact held
      · exact twin.gives ⟨.none, rfl⟩

theorem valueShape (origin : Origin) (plain : ∀ node ∈ value, r.Plain node) :
    r.Gives link Link.Held (pass.valueShape r.base origin value)
      (other.valueShape r.other origin (value.map r.rename)) := by
  cases value with
  | none => exact twin.newShape rfl
  | some value => exact twin.shapeOf (plain value rfl)

theorem boundValue (plain : ∀ node ∈ value, r.Plain node) :
    r.Gives link r.ValueTwin (pass.boundValue r.base value)
      (other.boundValue r.other (value.map r.rename)) := by
  cases value with
  | none =>
    exact (twin.newShape (rfl : (Shape.unknown .expression).writes = [])).map (some ·, none)
      fun _ held => ⟨.some held, rfl⟩
  | some value => exact twin.valueBinding (plain value rfl)

theorem subjectShape (plain : ∀ node ∈ value, r.Plain node) :
    r.Gives link (fun link => Option.Rel link.Held) (pass.subjectShape r.base value)
      (other.subjectShape r.other (value.map r.rename)) := by
  cases value with
  | none => exact twin.gives .none
  | some value => exact (twin.shapeOf (plain value rfl)).map some fun _ held => .some held

theorem bindIdentifier {pattern owner : NodeId} {shape image : Option ShapeId} {path copy : Option Chain}
    (related : r.ValueTwin link (shape, path) (image, copy)) (bindable : Bindable shape path pass)
    (opened : r.Open (pass.moment other) owner)
    (place : owner = pattern ∨ pattern ∈ r.base.children owner) (kind : BindingKind) (site : NodeId) :
    r.Goes link (pass.bindIdentifier r.base pattern shape path kind site)
      (other.bindIdentifier r.other (r.rename pattern) image copy kind (r.rename site)) := by
  have isPath : copy = path.map (Chain.rename r.rename) := related.path
  have empty : (copy.isNone && image.isNone) = (path.isNone && shape.isNone) := by
    have same : image.isNone = shape.isNone := by
      have alike : Option.Rel link.Held shape image := related.shape
      cases alike <;> rfl
    rw [isPath, isNone_map, same]
  unfold Pass.bindIdentifier
  rw [r.text pattern (opened.plain_of place)]
  cases r.base.text pattern with
  | none => exact twin.goes
  | some name =>
    simp only [empty]
    by_cases neither : (path.isNone && shape.isNone) = true
    · rw [if_pos neither, if_pos neither]
      simp only [Bool.and_eq_true, isNone_iff_eq_none] at neither
      obtain ⟨new, le, twin', held⟩ := twin.newShape (rfl : (Shape.unknown .expression).writes = [])
      refine ⟨new, le, twin'.introduce ?_ ?_ fun _ _ birth _ _ => opened.framed place birth⟩
      · exact ⟨rfl, rfl, twin.current, rfl, isPath, .some held⟩
      · obtain ⟨_, born⟩ := held
        refine ⟨held_some (twin'.lt_size born), ?_, fun _ => some_ne_none _⟩
        rw [neither.1]
        exact nofun
    · rw [if_neg neither, if_neg neither]
      refine ⟨link, prefix_refl _, twin.introduce ?_ ?_ fun _ _ birth _ _ => opened.framed place birth⟩
      · exact ⟨rfl, rfl, twin.current, rfl, isPath, related.shape⟩
      · refine ⟨bindable.shape, bindable.path, fun pathless shapeless => neither ?_⟩
        rw [show path = none from pathless, show shape = none from shapeless]
        rfl

theorem writeSite {object value : ShapeId} (held : link.Held object image)
    (heldValue : link.Held value copy) (stored : r.Stored (pass.moment other) site other.epoch) (key : Key) :
    r.Twin link (pass.setField object key value site) (other.setField image key copy (r.rename site)) := by
  obtain ⟨birth, born⟩ := held
  exact twin.write born heldValue (.inr stored)

theorem descend (keys : List Key) (held : link.Held shape image)
    (stored : r.Stored (pass.moment other) site other.epoch) :
    r.Gives link Link.Held (descend site keys shape pass)
      (descend (r.rename site) keys image other) := by
  induction keys generalizing link pass other shape image with
  | nil => exact twin.gives held
  | cons key rest ih =>
    have field := twin.mirrors.fieldAt held key
    unfold descend
    cases found : pass.shapes.fieldAt shape key pass.epoch with
    | some inner =>
      rw [found] at field
      obtain ⟨innerImage, atImage, heldInner⟩ := exists_of_rel field
      rw [atImage]
      exact ih (twin.promote heldInner) heldInner stored
    | none =>
      rw [found] at field
      rw [eq_none_of_rel field]
      obtain ⟨made, le, twinMade, heldInner⟩ :=
        twin.newShape (rfl : (Shape.object none []).writes = [])
      obtain ⟨last, leMore, result⟩ :=
        ih (twinMade.writeSite (held.mono le) heldInner stored key) heldInner stored
      exact ⟨last, le.trans leMore, result⟩

theorem writeRoot {chain : Chain} (plain : r.Plain target)
    (found : pass.chain? r.base target = some chain) (site : NodeId) :
    r.Gives link (fun _ id copy => copy = id) (pass.writeRoot r.base target site chain.root)
      (other.writeRoot r.other (r.rename target) (r.rename site) (chain.rename r.rename).root) := by
  rw [show (chain.rename r.rename).root = chain.root.rename r.rename from rfl]
  cases root : chain.root with
  | binding id name => exact twin.gives rfl
  | callResult | expression => exact twin.gives rfl
  | undeclared name =>
    obtain ⟨identifier, atRoot, _⟩ := root_undeclared found root
    obtain ⟨new, le, twinMade, born⟩ := twin.add (rfl : (Shape.object none []).writes = []) (Nat.zero_le _)
    unfold Pass.writeRoot
    rw [rootIdentifier?_eq plain, atRoot]
    refine ⟨new, le, twinMade.introduce ?_ ?_ ?_, congrArg some twin.scopes.size_bindings⟩
    · exact ⟨rfl, rfl, rfl, rfl, rfl, .some ⟨_, born⟩⟩
    · exact ⟨held_some (twinMade.lt_size born), nofun, fun _ => some_ne_none _⟩
    · -- The object that is made for the name is no literal.
      intro shape image birth start alsoBorn
      cases start with
      | holder _ holds =>
        cases holds
        cases born.symm.trans alsoBorn
        exact .inl rfl
      | other isPath => cases isPath

theorem heldObject {id : BindingId} {binding : Binding} (atId : pass.scopes.binding? id = some binding)
    (holds : binding.shape = some shape) :
    r.Gives link Link.Held (pass.heldObject id) (other.heldObject id) := by
  have found : (pass.scopes.binding? id).bind Binding.shape = some shape := by
    rw [atId]
    exact holds
  have held := twin.scopes.held id
  rw [found] at held
  obtain ⟨image, atImage, held⟩ := exists_of_rel held
  unfold Pass.heldObject
  rw [found, atImage]
  exact (twin.promote held).gives held

theorem writeThrough {value : ShapeId} (left : r.base.child? site .left = some target)
    (plain : r.Plain target) (held : link.Held value copy)
    (stored : r.Stored (pass.moment other) site other.epoch) :
    r.Goes link (pass.writeThrough r.base target value site)
      (other.writeThrough r.other (r.rename target) copy (r.rename site)) := by
  unfold Pass.writeThrough
  rw [twin.chain?_eq plain]
  cases found : pass.chain? r.base target with
  | none => exact twin.goes
  | some chain =>
    simp only [map_some]
    rw [show (chain.rename r.rename).unknownTail = chain.unknownTail from rfl,
      show (chain.rename r.rename).segments = chain.segments from rfl]
    cases tail : chain.unknownTail with
    | true => exact twin.goes
    | false =>
      cases ends : chain.segments.getLast? with
      | none => exact twin.goes
      | some last =>
        have anywhere : ∀ node ∈ r.base.rootIdentifier? target, (fun _ => True : NodeId → Prop) node :=
          fun _ _ => trivial
        have root := twin.sound.writeRoot found left anywhere
        have place := other.layout_writeRoot r.other (r.rename target) (r.rename site)
          (chain.rename r.rename).root
        obtain ⟨new, le, twinRoot, same⟩ := twin.writeRoot plain found site
        cases run : pass.writeRoot r.base target site chain.root with | mk result state
        cases runTwin : other.writeRoot r.other (r.rename target) (r.rename site)
            (chain.rename r.rename).root with
        | mk resultTwin stateTwin =>
          rw [run] at root twinRoot same
          rw [runTwin] at twinRoot same place
          cases same
          cases result with
          | none => exact ⟨new, le, twinRoot⟩
          | some id =>
            obtain ⟨binding, shape, atId, holds⟩ := root.2 id rfl
            have placeObject := (stateTwin.layout_heldObject id).trans place
            obtain ⟨first, leFirst, twinObject, heldObject⟩ := twinRoot.heldObject atId holds
            obtain ⟨second, leSecond, twinHolder, heldHolder⟩ :=
              twinObject.descend chain.segments.dropLast heldObject (stored.still placeObject)
            have le := (le.trans leFirst).trans leSecond
            exact ⟨second, le, twinHolder.writeSite heldHolder (held.mono le)
              (stored.still ((layout_descend ..).trans placeObject)) last⟩

section

variable {object image : ShapeId} {entry : NodeId}

theorem putPart {key : Key} {value : NodeId} (born : link.Born object image other.epoch)
    (plain : r.Plain value) : r.Goes link
      ((Pass.shapeOf r.base value pass).2.setField object key (Pass.shapeOf r.base value pass).1 entry)
      ((Pass.shapeOf r.other (r.rename value) other).2.setField image key
        (Pass.shapeOf r.other (r.rename value) other).1 (r.rename entry)) := by
  obtain ⟨new, le, twin', held⟩ := twin.shapeOf plain
  exact ⟨new, le, twin'.write (born.mono le) held (.inl (other.epoch_shapeOf r.other _).symm)⟩

theorem spreadInto {source : ShapeId} (born : link.Born object image other.epoch)
    (held : link.Held source copy) : r.Twin link
      { pass with shapes := pass.shapes.spreadInto source object pass.epoch pass.epoch }
      { other with shapes := other.shapes.spreadInto copy image other.epoch other.epoch } := by
  have fields := twin.mirrors.visibleFields held
  unfold ShapeStore.spreadInto
  generalize pass.shapes.visibleFields source pass.epoch = shown,
    other.shapes.visibleFields copy other.epoch = copies at fields
  induction fields generalizing pass other with
  | nil => exact twin
  | @cons field image _ _ related _ ih =>
    rw [foldl_cons, foldl_cons, related.key, related.node]
    exact ih (twin.write born related.shape (.inl rfl)) born

theorem addEntry (born : link.Born object image other.epoch) (plain : r.Plain entry) :
    r.Goes link (Pass.addEntry r.base object pass entry)
      (Pass.addEntry r.other image other (r.rename entry)) := by
  simp only [Pass.addEntry]
  rcases r.kind_plain plain with same | ⟨first, second⟩
  · rw [same]
    cases kind : r.base.kind entry with
    | pair =>
      have kept := kept_of_kind plain (by rw [kind]; decide)
      simp only [childKey?_eq kept, child?_kept kept .value]
      cases (r.base.child? entry .key).bind r.base.entryKey? with
      | none => exact twin.goes
      | some key =>
        cases found : r.base.child? entry .value with
        | none => exact twin.goes
        | some value => exact twin.putPart born (plain_of_child? kept found)
    | function =>
      have kept := kept_of_kind plain (by rw [kind]; decide)
      simp only [childKey?_eq kept]
      cases (r.base.child? entry .name).bind r.base.entryKey? with
      | none => exact twin.goes
      | some key => exact twin.putPart born plain
    | spread =>
      have kept := kept_of_kind plain (by rw [kind]; decide)
      simp only [codeChildren_eq kept, head?_map]
      cases head : (r.base.codeChildren entry).head? with
      | none => exact twin.goes
      | some inner =>
        have mem := Tree.mem_children_of_codeChildren (mem_of_mem_head? head)
        obtain ⟨new, le, twin', held⟩ := twin.shapeOf (plain_of_mem kept mem)
        have bornLater := born.mono le
        rw [← other.epoch_shapeOf r.other (r.rename inner)] at bornLater
        simp only [map_some, twin'.mirrors.isObject held]
        split
        · exact ⟨new, le, twin'.spreadInto bornLater held⟩
        · exact ⟨new, le, twin'⟩
    | _ => exact twin.goes
  · rw [first, second]
    exact twin.goes

theorem addEntries {entries : List NodeId} (born : link.Born object image other.epoch)
    (plain : ∀ entry ∈ entries, r.Plain entry) :
    r.Goes link (entries.foldl (Pass.addEntry r.base object) pass)
      ((entries.map r.rename).foldl (Pass.addEntry r.other image) other) := by
  induction entries generalizing link pass other with
  | nil => exact twin.goes
  | cons entry rest ih =>
    refine (twin.addEntry born (plain entry (.head _))).trans fun new le twin' => ?_
    have still : (Pass.addEntry r.other image other (r.rename entry)).epoch = other.epoch :=
      congrArg Layout.epoch ((layouts r.other).gains_addEntry trivial trivial (r.rename entry)).keeps
    have bornLater := born.mono le
    rw [← still] at bornLater
    exact ih twin' bornLater fun other mem => plain other (.tail _ mem)

theorem addElements {elements : List NodeId} (position : Nat) (born : link.Born object image other.epoch)
    (plain : ∀ element ∈ elements, r.Plain element) :
    r.Goes link (addElements r.base object position elements pass)
      (addElements r.other image position (elements.map r.rename) other) := by
  induction elements generalizing link pass other position with
  | nil => exact twin.goes
  | cons element rest ih =>
    obtain ⟨new, le, twin'⟩ := twin.putPart born (plain element (.head _))
    have bornLater := born.mono le
    rw [← other.epoch_shapeOf r.other (r.rename element)] at bornLater
    obtain ⟨last, leMore, twinLast⟩ :=
      ih twin' (position + 1) bornLater fun other mem => plain other (.tail _ mem)
    exact ⟨last, le.trans leMore, twinLast⟩

end

theorem buildObject (kept : r.Kept node) :
    r.Gives link Link.Held (pass.buildObject r.base node)
      (other.buildObject r.other (r.rename node)) := by
  unfold Pass.buildObject
  rw [r.text node kept.plain, codeChildren_eq kept]
  obtain ⟨new, le, twin', born⟩ :=
    twin.add (rfl : (Shape.object (r.base.text node) []).writes = []) (Nat.le_refl _)
  obtain ⟨last, leMore, twinLast⟩ := twin'.addEntries born (plain_codeChildren kept)
  exact ⟨last, le.trans leMore, twinLast, _, born.mono leMore⟩

theorem buildArray (kept : r.Kept node) :
    r.Gives link Link.Held (pass.buildArray r.base node)
      (other.buildArray r.other (r.rename node)) := by
  unfold Pass.buildArray
  rw [codeChildren_eq kept]
  obtain ⟨new, le, twin', born⟩ := twin.add (rfl : (Shape.object none []).writes = []) (Nat.le_refl _)
  obtain ⟨last, leMore, twinLast⟩ := twin'.addElements 0 born (plain_codeChildren kept)
  exact ⟨last, le.trans leMore, twinLast, _, born.mono leMore⟩

theorem fixedText?_eq (plain : r.Plain node) :
    other.fixedText? (r.rename node) = pass.fixedText? node := by
  rw [Pass.fixedText?_eq, Pass.fixedText?_eq, bind_assoc, bind_assoc]
  exact bind_eq_of_rel (twin.fixed node plain) fun _ _ => twin.mirrors.text?

theorem fixedShape (plain : r.Plain node) :
    r.Gives link (fun link => Option.Rel link.Held) (pass.fixedShape r.base node)
      (other.fixedShape r.other (r.rename node)) := by
  have found {result twinResult : ShapeId × Pass}
      (gives : r.Gives link Link.Held result twinResult) :
      r.Gives link (fun link => Option.Rel link.Held) (some result.1, result.2)
        (some twinResult.1, twinResult.2) :=
    gives.map some fun _ held => .some held
  have text : r.other.concatenation (r.rename node) other.fixedText? =
      r.base.concatenation node pass.fixedText? :=
    concatenation_eq plain fun _ child _ plainChild => twin.fixedText?_eq plainChild
  unfold Pass.fixedShape
  rw [r.text node plain, text]
  rcases r.kind_plain plain with same | ⟨first, second⟩
  · rw [same]
    cases kind : r.base.kind node with
    | object => exact found (twin.buildObject (kept_of_kind plain (by rw [kind]; decide)))
    | array => exact found (twin.buildArray (kept_of_kind plain (by rw [kind]; decide)))
    | template | binary =>
      cases r.base.concatenation node pass.fixedText? with
      | none => exact twin.gives .none
      | some text => exact found (twin.newShape rfl)
    | string | number | boolean | null | call | function | error => exact found (twin.newShape rfl)
    | _ => exact twin.gives .none
  · rw [first, second]
    exact twin.gives .none

/-- Both passes fix the value of a node once they have come to its parts. -/
theorem memoize (opened : r.Open (pass.moment other) node) :
    r.Goes link (pass.memoize r.base node) (other.memoize r.other (r.rename node)) := by
  have place := other.layout_fixedShape r.other (r.rename node)
  obtain ⟨new, le, twin', related⟩ := twin.fixedShape opened.kept.plain
  unfold Pass.memoize
  cases run : pass.fixedShape r.base node with | mk shape state
  cases runTwin : other.fixedShape r.other (r.rename node) with | mk image stateTwin
  rw [run] at twin' related
  rw [runTwin] at twin' related place
  cases related with
  | none => exact ⟨new, le, twin'⟩
  | some held => exact ⟨new, le, twin'.fix held (opened.still place)⟩

theorem declareName {name : NodeId} {shape : String → Shape} (plain : r.Plain name) (site : NodeId)
    (kind : BindingKind) (bare : ∀ text, (shape text).writes = []) :
    r.Goes link (pass.declareName r.base site name kind shape)
      (other.declareName r.other (r.rename site) (r.rename name) kind shape) := by
  unfold Pass.declareName
  rw [r.text name plain]
  cases r.base.text name with
  | none => exact twin.goes
  | some text =>
    obtain ⟨new, le, twin', born⟩ := (twin.mark plain).add (bare text) (Nat.zero_le _)
    refine ⟨new, le, twin'.introduce ?_ ?_ ?_⟩
    · exact ⟨rfl, rfl, twin.current, rfl, rfl, .some ⟨_, born⟩⟩
    · exact ⟨held_some (twin'.lt_size born), nofun, fun _ => some_ne_none _⟩
    · intro start image birth begins alsoBorn
      cases begins with
      | holder _ holds =>
        cases holds
        cases born.symm.trans alsoBorn
        exact .inl rfl
      | other isPath => cases isPath

end Twin

end Pairing

end LeakTrace
