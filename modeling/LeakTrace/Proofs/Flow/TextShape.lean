import LeakTrace.Proofs.Flow.Evaluation

namespace LeakTrace

open List LeakTrace.Tree ShapeStore

variable {pattern : NodeId}

namespace Kind

/-- Nodes of these kinds may have a value that is fixed where they stand. -/
def isSettled : Kind → Bool
  | .object | .array | .string | .number | .boolean | .null | .template | .binary | .call | .function
  | .error => true
  | _ => false

variable {kind : Kind}

theorem isSettled_of_isText (text : kind.isText = true) : kind.isSettled = true := by
  cases kind with
  | string | template | binary => rfl
  | _ => cases text

theorem isAccess_of_isSettled (settled : kind.isSettled = true) : kind.isAccess = false := by
  cases kind with
  | identifier | member | index => cases settled
  | _ => rfl

end Kind

namespace Tree

variable {tree : Tree} {node child : NodeId} {first second : NodeId → Option String}

/-- The parts that the text of a template or a sum is put together from. -/
def textParts (tree : Tree) (node : NodeId) : List NodeId :=
  match tree.kind node with
  | .template => tree.codeChildren node
  | .binary =>
    if tree.text node = some "+" then (tree.child? node .left).toList ++ (tree.child? node .right).toList
    else []
  | _ => []

theorem mem_textParts_of_sum (binary : tree.kind node = .binary) (plus : tree.text node = some "+") :
    child ∈ tree.textParts node ↔
      tree.child? node .left = some child ∨ tree.child? node .right = some child := by
  simp only [textParts, binary, if_pos plus, mem_append, Option.mem_toList]

theorem mem_children_of_textParts (mem : child ∈ tree.textParts node) :
    child ∈ tree.children node := by
  unfold textParts at mem
  split at mem
  · exact mem_children_of_codeChildren mem
  · split at mem
    · rcases mem_append.1 mem with left | right
      · exact mem_children_of_child? (Option.mem_toList.1 left)
      · exact mem_children_of_child? (Option.mem_toList.1 right)
    · cases mem
  · cases mem

theorem concatenation_congr (same : ∀ part ∈ tree.textParts node, first part = second part) :
    tree.concatenation node first = tree.concatenation node second := by
  unfold concatenation
  split
  · rfl
  · rename_i template
    refine congrArg (some ∘ String.join) (map_congr_left fun part mem => ?_)
    rw [same part (by rwa [textParts, template])]
  · rename_i binary
    split
    · rename_i plus
      have left : (tree.child? node .left).bind first = (tree.child? node .left).bind second :=
        Option.bind_congr fun part found => same part ((mem_textParts_of_sum binary plus).2 (.inl found))
      have right : (tree.child? node .right).bind first = (tree.child? node .right).bind second :=
        Option.bind_congr fun part found => same part ((mem_textParts_of_sum binary plus).2 (.inr found))
      rw [left, right]
    · rfl
  · rfl

theorem isSome_concatenation (binary : tree.kind node = .binary) (part : NodeId → Option String) :
    (tree.concatenation node part).isSome ↔ ∃ child ∈ tree.textParts node, (part child).isSome := by
  rw [concatenation, binary]
  dsimp only
  split
  · rename_i plus
    have side (role : Role) : (∃ child, tree.child? node role = some child ∧ (part child).isSome) ↔
        ((tree.child? node role).bind part).isSome := by
      cases tree.child? node role <;> simp
    simp only [mem_textParts_of_sum binary plus, or_and_right, exists_or, side]
    cases (tree.child? node .left).bind part <;> cases (tree.child? node .right).bind part <;> simp
  · rename_i other
    simp [textParts, binary, other]

/-- The text of a node where it stands, given the texts of its parts. A string has one in any case. -/
def composed? (tree : Tree) (node : NodeId) (part : NodeId → Option String) : Option String :=
  if tree.kind node = .string then some ((tree.text node).getD "") else tree.concatenation node part

/-- The text of a node that does not depend on the values of names and fields. These are unknown parts. -/
def settledText? (tree : Tree) (node : NodeId) : Option String :=
  tree.composed? node fun part => if part < node then settledText? tree part else none
termination_by node

theorem composed?_congr (same : ∀ part ∈ tree.textParts node, first part = second part) :
    tree.composed? node first = tree.composed? node second := by
  rw [composed?, composed?, concatenation_congr same]

theorem settledText?_eq (tree : Tree) (node : NodeId) :
    tree.settledText? node = tree.composed? node tree.settledText? := by
  rw [settledText?]
  refine composed?_congr fun part mem => if_pos ?_
  exact lt_of_mem_children (mem_children_of_textParts mem)

/-- A node has a text as soon as its text can be put together from those of some parts. -/
theorem isSome_settledText? (kind : (tree.kind node).isText = true) {part : NodeId → Option String}
    (known : (tree.composed? node part).isSome)
    (parts : ∀ child ∈ tree.textParts node, (part child).isSome → (tree.settledText? child).isSome) :
    (tree.settledText? node).isSome := by
  rw [settledText?_eq]
  unfold composed? at known ⊢
  cases same : tree.kind node
  case string => rfl
  case template =>
    rw [if_neg (by decide), concatenation, same]
    rfl
  case binary =>
    rw [same, if_neg (by decide), isSome_concatenation same] at known
    obtain ⟨child, mem, has⟩ := known
    rw [if_neg (by decide), isSome_concatenation same]
    exact ⟨child, mem, parts child mem has⟩
  all_goals
    rw [same] at kind
    cases kind

/-- A text that is written out in a template, or joined to another one. -/
structure IsTextPart (tree : Tree) (part : NodeId) : Prop where
  text : (tree.kind part).isText = true
  whole : ∃ whole, tree.parent part = some whole ∧
    (tree.kind whole = .template ∨ tree.kind whole = .binary)

theorem Proper.not_isTextPart (proper : tree.Proper) (mem : child ∈ tree.children node)
    (other : (tree.kind node).isText = false) : ¬tree.IsTextPart child := by
  rintro ⟨_, whole, link, kind⟩
  cases (proper.parent node child mem).symm.trans link
  rcases kind with kind | kind <;> simp [Kind.isText, kind] at other

theorem not_isTextPart (other : (tree.kind node).isText = false) : ¬tree.IsTextPart node :=
  fun part => Bool.false_ne_true (other.symm.trans part.text)

/-- What can be said of a node whose value has been fixed. -/
structure IsFixed (tree : Tree) (node : NodeId) : Prop where
  evaluated : tree.Evaluated node
  kind : (tree.kind node).isSettled = true
  text : (tree.kind node).isText = true → (tree.settledText? node).isSome

/-- The node is a pattern by which a value is taken apart, or a part of one. -/
def IsTaken (tree : Tree) (pattern : NodeId) : Prop :=
  ∃ site top keys, tree.Evaluated site ∧ tree.pattern? site = some top ∧ tree.Reaches top keys pattern

theorem IsTaken.share {part : NodeId} {share : Pass.Share} (taken : tree.IsTaken pattern)
    (mem : .bind part share ∈ tree.bindActions pattern) : tree.IsTaken part := by
  obtain ⟨site, top, keys, evaluated, found, reaches⟩ := taken
  have reached {keys : Option (List Key)} {part : NodeId} (reaches : tree.Reaches top keys part) :
      tree.IsTaken part := ⟨site, top, keys, evaluated, found, reaches⟩
  unfold bindActions at mem
  split at mem
  case h_1 => simp at mem
  case h_2 object =>
    obtain ⟨entry, among, inside⟩ := mem_flatMap.1 mem
    unfold entryActions at inside
    split at inside
    case h_1 pair =>
      simp only [mem_cons, reduceCtorEq, mem_map, Option.mem_toList, false_or] at inside
      obtain ⟨value, found, same⟩ := inside
      cases same
      exact reached (.pair reaches object among pair found)
    case h_2 shorthand =>
      cases mem_singleton.1 inside
      exact reached (.shorthand reaches object among shorthand)
    case h_3 pair shorthand =>
      obtain ⟨inner, found, same⟩ := mem_map.1 inside
      cases same
      exact reached (.other reaches object among pair shorthand found)
  case h_3 array =>
    obtain ⟨place, found, same⟩ := mem_map.1 mem
    cases same
    exact reached (.element reaches array (fst_mem_of_mem_zipIdx found))
  case h_4 wrapper =>
    simp only [mem_append, mem_map, reduceCtorEq, and_false, exists_false, Option.mem_toList,
      false_or] at mem
    obtain ⟨left, found, same⟩ := mem
    cases same
    exact reached (.default reaches wrapper found)
  case h_5 rest | h_6 rest =>
    obtain ⟨inner, found, same⟩ := mem_map.1 mem
    cases same
    exact reached (.rest reaches (by simp [rest]) found)
  case h_7 => cases mem

theorem IsTaken.value {value : NodeId} (taken : tree.IsTaken pattern)
    (mem : .visit value ∈ tree.bindActions pattern) : tree.Evaluated value := by
  obtain ⟨site, top, keys, evaluated, found, reaches⟩ := taken
  unfold bindActions at mem
  split at mem
  case h_4 wrapper =>
    simp only [mem_append, mem_map, reduceCtorEq, and_false, exists_false, Option.mem_toList,
      or_false] at mem
    obtain ⟨right, atRight, same⟩ := mem
    cases same
    exact .default evaluated found reaches wrapper atRight
  case h_2 =>
    obtain ⟨entry, _, inside⟩ := mem_flatMap.1 mem
    unfold entryActions at inside
    split at inside <;> simp at inside
  all_goals simp at mem

end Tree

namespace Pass

variable {tree : Tree} {before middle after : Pass} {shape object value : ShapeId} {node : NodeId}

/-- A shape that names and fields may hold: it is there, and no part of a longer text has it. -/
structure Open (tree : Tree) (pass : Pass) (shape : ShapeId) : Prop where
  held : shape < pass.shapes.size
  apart : ∀ part, tree.IsTextPart part → pass.fixed[part]? ≠ some shape

/-- What is known of a shape that is fixed at a node. The shape of a part of a longer text never becomes an
object, as nothing else holds it. -/
structure Secured (tree : Tree) (pass : Pass) (node : NodeId) (shape : ShapeId) : Prop where
  held : shape < pass.shapes.size
  isFixed : tree.IsFixed node
  text : ∀ text, pass.shapes.get? shape = some (.leaf (.string text)) → (tree.kind node).isText = true
  value : ¬tree.IsTextPart node → Open tree pass shape
  part : tree.IsTextPart node → pass.shapes.isObject shape = false

/-- Names and fields hold no shapes of parts of longer texts. -/
structure Guarded (tree : Tree) (pass : Pass) : Prop where
  bindings : ∀ id binding, pass.scopes.binding? id = some binding → ∀ shape ∈ binding.shape,
    Open tree pass shape
  writes : ∀ id shape, pass.shapes.get? id = some shape → ∀ write ∈ shape.writes,
    Open tree pass write.shape
  fixed : ∀ node shape, pass.fixed[node]? = some shape → Secured tree pass node shape

/-- A part of the pass after which shapes are guarded, and those that may be held may still be. -/
structure Guards (tree : Tree) (before after : Pass) : Prop where
  guarded : Guarded tree after
  opens : ∀ shape, Open tree before shape → Open tree after shape
  objects : ∀ shape, before.shapes.isObject shape = true → after.shapes.isObject shape = true

/-- The shape may be held after a part of the pass that guards shapes. -/
structure Yields (tree : Tree) (before : Pass) (shape : ShapeId) (after : Pass) : Prop where
  keeps : Guards tree before after
  opened : Open tree after shape

theorem Guards.trans (first : Guards tree before middle) (second : Guards tree middle after) :
    Guards tree before after :=
  ⟨second.guarded, fun shape opened => second.opens shape (first.opens shape opened),
    fun shape object => second.objects shape (first.objects shape object)⟩

theorem Guards.optional {shape : Option ShapeId} (keeps : Guards tree before after)
    (opened : ∀ id ∈ shape, Open tree before id) : ∀ id ∈ shape, Open tree after id :=
  fun id mem => keeps.opens id (opened id mem)

theorem open_some (opened : Open tree before shape) : ∀ id ∈ some shape, Open tree before id :=
  fun _ mem => Option.some.inj mem ▸ opened

theorem Extends.isObject {Region : NodeId → Prop} {epoch : Nat} (extend : Extends Region epoch before after)
    (object : before.shapes.isObject shape = true) : after.shapes.isObject shape = true := by
  obtain ⟨old, found, isObject⟩ := (Option.any_eq_true _ _).1 object
  obtain ⟨new, atAfter, grown⟩ := extend.shapes shape old found
  exact (Option.any_eq_true _ _).2 ⟨new, atAfter, grown.object isObject⟩

theorem Open.ne {part : NodeId} (opened : Open tree before object) (text : tree.IsTextPart part)
    (found : before.fixed[part]? = some shape) : object ≠ shape := by
  rintro rfl
  exact opened.apart part text found

theorem get?_newShape (pass : Pass) (shape : Shape) :
    (pass.newShape shape).2.shapes.get? (pass.newShape shape).1 = some shape :=
  (get?_add _ _ _).trans (if_pos rfl)

theorem isObject_newShape (pass : Pass) (name : Option String) (writes : List Write) :
    (pass.newShape (.object name writes)).2.shapes.isObject pass.shapes.size = true :=
  (Option.any_eq_true _ _).2 ⟨_, get?_newShape pass _, rfl⟩

/-- What the shape that is to be fixed at a node may be. -/
inductive FixedBy (tree : Tree) (node : NodeId) (before : Pass) : Option ShapeId × Pass → Prop
  | none : ((tree.kind node).isSettled = true → (tree.kind node).isText = true) →
      tree.composed? node before.fixedText? = none → FixedBy tree node before (none, before)
  | text {text : String} : (tree.kind node).isText = true →
      tree.composed? node before.fixedText? = some text →
      FixedBy tree node before (some before.shapes.size, (before.newShape (.leaf (.string text))).2)
  | plain {shape : Shape} : (tree.kind node).isText = false → (tree.kind node).isSettled = true →
      shape.writes = [] → (∀ text, shape ≠ .leaf (.string text)) →
      FixedBy tree node before (some before.shapes.size, (before.newShape shape).2)
  | object : tree.kind node = .object →
      FixedBy tree node before (some (before.buildObject tree node).1, (before.buildObject tree node).2)
  | array : tree.kind node = .array →
      FixedBy tree node before (some (before.buildArray tree node).1, (before.buildArray tree node).2)

theorem fixedBy_fixedShape (tree : Tree) (node : NodeId) (before : Pass) :
    FixedBy tree node before (before.fixedShape tree node) := by
  unfold Pass.fixedShape
  cases kind : tree.kind node
  case object => exact .object kind
  case array => exact .array kind
  case string => exact .text (by rw [kind]; rfl) (if_pos kind)
  case template | binary =>
    have composed : tree.composed? node before.fixedText? = tree.concatenation node before.fixedText? := by
      rw [composed?, kind, if_neg (by decide)]
    dsimp only
    split
    · rename_i found
      exact .text (by rw [kind]; rfl) (composed.trans found)
    · rename_i missing
      exact .none (by rw [kind]; exact fun _ => rfl) (composed.trans missing)
  case number | boolean | null | call | function | error =>
    exact .plain (by rw [kind]; rfl) (by rw [kind]; rfl) rfl nofun
  all_goals
    refine .none (by rw [kind]; exact nofun) ?_
    rw [composed?, concatenation, kind]
    rfl

section Guarded

variable (guarded : Guarded tree before) {binding : Binding}

include guarded

theorem Guarded.keeps : Guards tree before before :=
  ⟨guarded, fun _ opened => opened, fun _ object => object⟩

/-- Of the scopes, only what bindings hold matters. -/
theorem Guarded.rescope (shapes : after.shapes = before.shapes) (fixed : after.fixed = before.fixed)
    (bindings : ∀ id binding, after.scopes.binding? id = some binding →
      ∀ shape ∈ binding.shape, Open tree before shape) :
    Guards tree before after := by
  have opens (shape : ShapeId) (opened : Open tree before shape) : Open tree after shape :=
    ⟨shapes ▸ opened.held, fixed ▸ opened.apart⟩
  refine ⟨⟨fun id binding found shape mem => opens shape (bindings id binding found shape mem),
    fun id shape found write mem => ?_, fun node shape found => ?_⟩, opens, shapes ▸ fun _ => id⟩
  · exact opens write.shape (guarded.writes id shape (shapes ▸ found) write mem)
  · have secured := guarded.fixed node shape (fixed ▸ found)
    exact ⟨shapes ▸ secured.held, secured.isFixed, shapes ▸ secured.text,
      fun value => opens shape (secured.value value), shapes ▸ secured.part⟩

theorem Guarded.mark (node : NodeId) : Guards tree before (before.mark node) :=
  guarded.rescope rfl rfl guarded.bindings

theorem Guarded.record (node : NodeId) (resolution : Resolution) :
    Guards tree before (before.record node resolution) :=
  guarded.rescope rfl rfl guarded.bindings

theorem Guarded.reference (node : NodeId) : Guards tree before (before.reference tree node) := by
  unfold Pass.reference
  split
  · exact guarded.keeps
  · exact guarded.record node _

/-- Shapes may grow, except those of parts of longer texts. -/
theorem Guarded.reshape {shapes : ShapeStore}
    (extend : Extends (fun _ => False) 0 before { before with shapes })
    (parts : ∀ part shape, tree.IsTextPart part → before.fixed[part]? = some shape →
      shapes.get? shape = before.shapes.get? shape)
    (writes : ∀ id shape, shapes.get? id = some shape → ∀ write ∈ shape.writes, Open tree before write.shape) :
    Guards tree before { before with shapes } := by
  have opens (shape : ShapeId) (opened : Open tree before shape) :
      Open tree { before with shapes } shape :=
    ⟨Nat.lt_of_lt_of_le opened.held extend.size_le, opened.apart⟩
  refine ⟨⟨fun id binding found shape mem => opens shape (guarded.bindings id binding found shape mem),
    fun id shape found write mem => opens write.shape (writes id shape found write mem),
    fun node shape found => ?_⟩, opens, fun _ => extend.isObject⟩
  have secured := guarded.fixed node shape found
  refine ⟨Nat.lt_of_lt_of_le secured.held extend.size_le, secured.isFixed, fun text leaf => ?_,
    fun value => opens shape (secured.value value), fun part => ?_⟩
  · obtain ⟨old, atShape⟩ := exists_of_lt_size secured.held
    obtain ⟨new, atNew, grown⟩ := extend.shapes shape old atShape
    cases atNew.symm.trans leaf
    exact secured.text text (atShape.trans (congrArg some (grown.same rfl).symm))
  · rw [isObject, parts node shape part found]
    exact secured.part part

theorem Guarded.newShape {shape : Shape} (bare : shape.writes = []) :
    Yields tree before (before.newShape shape).1 (before.newShape shape).2 := by
  have added : Move tree (fun _ => False) before (before.newShape shape).2 := .add bare
  refine ⟨guarded.reshape (added.extends (Nat.zero_le _)) (fun part id _ found => ?_)
    fun id other found write mem => ?_, ⟨by simp [Pass.newShape], fun part _ found => ?_⟩⟩
  · have inside := (guarded.fixed part id found).held
    rw [get?_add, if_neg (Nat.ne_of_lt inside)]
  · rw [get?_add] at found
    split at found
    · cases found
      rw [bare] at mem
      cases mem
    · exact guarded.writes id other found write mem
  · exact Nat.lt_irrefl _ (guarded.fixed part _ found).held

theorem Guarded.setField (opened : Open tree before object) (held : Open tree before value) (key : Key)
    (node : NodeId) : Guards tree before (before.setField object key value node) := by
  have written : Move tree (fun _ => False) before (before.setField object key value node) :=
    .write held.held
  refine guarded.reshape (written.extends (Nat.zero_le _)) (fun part id text found => ?_)
    fun id shape found write mem => ?_
  · rw [get?_setField, if_neg (opened.ne text found)]
  rw [get?_setField] at found
  split at found
  · obtain ⟨old, atId, rfl⟩ := Option.map_eq_some_iff.1 found
    rw [Shape.writes_put] at mem
    rcases mem_cons.1 mem with rfl | earlier
    · exact held
    · exact guarded.writes id old atId write earlier
  · exact guarded.writes id shape found write mem

theorem Guarded.ensureObject (opened : Open tree before object) :
    Guards tree before { before with shapes := before.shapes.ensureObject object } := by
  have promoted : Move tree (fun _ => False) before _ := .promote object
  refine guarded.reshape (promoted.extends (Nat.zero_le _)) (fun part id text found => ?_)
    fun id shape found write mem => ?_
  · rw [get?_ensureObject, if_neg (opened.ne text found)]
  rw [get?_ensureObject] at found
  split at found
  · obtain ⟨old, atId, rfl⟩ := Option.map_eq_some_iff.1 found
    rw [Shape.writes_asObject] at mem
    exact guarded.writes id old atId write mem
  · exact guarded.writes id shape found write mem

theorem Guarded.declare (opened : ∀ id ∈ binding.shape, Open tree before id) :
    Guards tree before (before.declare binding).2 := by
  refine guarded.rescope rfl rfl fun id other found => ?_
  rw [Pass.declare, Scopes.binding?, Scopes.declare, Array.getElem?_push] at found
  split at found
  · cases found
    exact opened
  · exact guarded.bindings id other found

omit guarded in
theorem Guards.declare (keeps : Guards tree before after)
    (opened : ∀ id ∈ binding.shape, Open tree after id) (node : NodeId) (resolution : Resolution) :
    Guards tree before ((after.declare binding).2.record node resolution) := by
  have declared := keeps.trans (keeps.guarded.declare opened)
  exact declared.trans (declared.guarded.record node resolution)

theorem Guarded.fix (other : ¬tree.IsTextPart node) (secured : Secured tree before node shape) :
    Guards tree before { before with fixed := before.fixed.insert node shape } := by
  have opens (id : ShapeId) (opened : Open tree before id) :
      Open tree { before with fixed := before.fixed.insert node shape } id := by
    refine ⟨opened.held, fun part text found => ?_⟩
    have different : node ≠ part := by
      rintro rfl
      exact other text
    exact opened.apart part text ((getElem?_insert_of_ne different).symm.trans found)
  have moved {at_ : NodeId} {id : ShapeId} (secured : Secured tree before at_ id) :
      Secured tree { before with fixed := before.fixed.insert node shape } at_ id :=
    { secured with value := fun value => opens id (secured.value value) }
  refine ⟨⟨fun id binding found held mem => opens held (guarded.bindings id binding found held mem),
    fun id held found write mem => opens write.shape (guarded.writes id held found write mem),
    fun there id found => ?_⟩, opens, fun _ => id⟩
  rcases eq_or_of_getElem?_insert found with ⟨rfl, rfl⟩ | found
  · exact moved secured
  · exact moved (guarded.fixed there id found)

theorem Guarded.bindIdentifier {site : NodeId} {shape : Option ShapeId}
    (opened : ∀ id ∈ shape, Open tree before id) (path : Option Chain) (kind : BindingKind) :
    Guards tree before (before.bindIdentifier tree pattern shape path kind site) := by
  unfold Pass.bindIdentifier
  split
  · exact guarded.keeps
  by_cases neither : (path.isNone && shape.isNone) = true
  · rw [if_pos neither]
    have fresh : Yields tree before (before.newUnknown .expression).1 _ := guarded.newShape rfl
    exact fresh.keeps.declare (open_some fresh.opened) _ _
  · rw [if_neg neither]
    exact guarded.keeps.declare opened _ _

theorem Guarded.writeRoot (target site : NodeId) (root : ChainRoot) :
    Guards tree before (before.writeRoot tree target site root).2 := by
  cases root with
  | undeclared name =>
    have fresh : Yields tree before (before.newShape (.object none [])).1 _ := guarded.newShape rfl
    unfold Pass.writeRoot
    dsimp only
    split
    · exact fresh.keeps.declare (open_some fresh.opened) _ _
    · exact fresh.keeps.trans (fresh.keeps.guarded.declare (open_some fresh.opened))
  | _ => exact guarded.keeps

theorem Guarded.heldObject (id : BindingId) :
    Yields tree before (before.heldObject id).1 (before.heldObject id).2 := by
  unfold Pass.heldObject
  cases held : (before.scopes.binding? id).bind Binding.shape with
  | some shape =>
    obtain ⟨binding, atId, holds⟩ := Option.bind_eq_some_iff.1 held
    have opened := guarded.bindings id binding atId shape holds
    have promoted := guarded.ensureObject opened
    exact ⟨promoted, promoted.opens shape opened⟩
  | none =>
    have fresh : Yields tree before (before.newShape (.object none [])).1 _ := guarded.newShape rfl
    have bound : Guards tree (before.newShape (.object none [])).2
        { (before.newShape (.object none [])).2 with
          scopes := before.scopes.modifyBinding id fun b => { b with shape := some before.shapes.size } } := by
      refine fresh.keeps.guarded.rescope rfl rfl fun other binding found => ?_
      rw [Scopes.binding?, Scopes.modifyBinding, Array.getElem?_modify] at found
      split at found
      · obtain ⟨old, _, rfl⟩ := Option.map_eq_some_iff.1 found
        exact open_some fresh.opened
      · exact fresh.keeps.optional (guarded.bindings other binding found)
    have promoted := bound.guarded.ensureObject (bound.opens _ fresh.opened)
    exact ⟨(fresh.keeps.trans bound).trans promoted, promoted.opens _ (bound.opens _ fresh.opened)⟩

theorem Guarded.fixText (isFixed : tree.IsFixed node) (kind : (tree.kind node).isText = true)
    (text : String) : Guards tree before { (before.newShape (.leaf (.string text))).2 with
      fixed := before.fixed.insert node before.shapes.size } := by
  have fresh : Yields tree before (before.newShape (.leaf (.string text))).1 _ := guarded.newShape rfl
  have atFresh := get?_newShape before (.leaf (.string text))
  -- The shape of a part is kept from names and fields. It is new, so that none of them holds it yet.
  by_cases part : tree.IsTextPart node
  · have opens (id : ShapeId) (opened : Open tree before id) : Open tree
        { (before.newShape (.leaf (.string text))).2 with
          fixed := before.fixed.insert node before.shapes.size } id := by
      refine ⟨(fresh.keeps.opens id opened).held, fun other isPart found => ?_⟩
      rcases eq_or_of_getElem?_insert found with ⟨_, same⟩ | found
      · exact Nat.ne_of_lt opened.held same.symm
      · exact opened.apart other isPart found
    refine ⟨⟨fun id binding found => ?_, fun id shape found write mem => ?_, fun there id found => ?_⟩,
      opens, fresh.keeps.objects⟩
    · exact fun shape mem => opens shape (guarded.bindings id binding found shape mem)
    · rw [Pass.newShape, get?_add] at found
      split at found
      · cases found
        cases mem
      · exact opens write.shape (guarded.writes id shape found write mem)
    · rcases eq_or_of_getElem?_insert found with ⟨rfl, rfl⟩ | found
      · refine ⟨fresh.opened.held, isFixed, fun _ _ => kind, fun other => absurd part other, fun _ => ?_⟩
        exact (congrArg (Option.any Shape.isObject) atFresh).trans rfl
      · have secured := fresh.keeps.guarded.fixed there id found
        exact { secured with value := fun other => opens id ((guarded.fixed there id found).value other) }
  · exact fresh.keeps.trans (fresh.keeps.guarded.fix part ⟨fresh.opened.held, isFixed, fun _ _ => kind,
      fun _ => fresh.opened, fun isPart => absurd isPart part⟩)

theorem Guarded.isSome_settledText? (known : (before.fixedText? node).isSome) :
    (tree.settledText? node).isSome := by
  unfold Pass.fixedText? at known
  split at known
  · rename_i text found
    obtain ⟨shape, fixed, leaf⟩ := Option.bind_eq_some_iff.1 found
    have secured := guarded.fixed node shape fixed
    exact secured.isFixed.text (secured.text text leaf)
  · cases known

theorem Guarded.declareName (node name : NodeId) (kind : BindingKind) {shape : String → Shape}
    (bare : ∀ text, (shape text).writes = []) :
    Guards tree before (before.declareName tree node name kind shape) := by
  unfold Pass.declareName
  split
  · exact guarded.keeps
  · rename_i text _
    have marked := guarded.mark name
    have fresh : Yields tree (before.mark name) _ _ := marked.guarded.newShape (bare text)
    exact (marked.trans fresh.keeps).declare (open_some fresh.opened) _ _

theorem Guarded.part (subject : Subject) (key : Option Key) :
    ∀ id ∈ (subject.part before key).shape, Open tree before id := by
  intro id mem
  cases key with
  | none => cases mem
  | some key =>
    obtain ⟨_, _, field⟩ := Option.bind_eq_some_iff.1 mem
    exact of_fieldAt guarded.writes field

omit guarded in
/-- Steps on values guard shapes if they take none from a part of a longer text. -/
def textInvariant (proper : tree.Proper) : Invariant tree where
  Fine := Guarded tree
  Keeps := Guards tree
  Held := Open tree
  Free node := ¬tree.IsTextPart node
  refl guarded := guarded.keeps
  trans first second := first.trans second
  fine keeps _ := keeps.guarded
  held keeps opened := keeps.opens _ opened
  add guarded bare := ⟨(guarded.newShape bare).keeps, (guarded.newShape bare).opened⟩
  write guarded opened held := guarded.setField opened held _ _
  promote guarded opened := guarded.ensureObject opened
  bound := Guarded.bindings
  written := Guarded.writes
  fixed guarded other found := (guarded.fixed _ _ found).value other
  own other := not_isTextPart other
  part mem other := proper.not_isTextPart mem other

variable (proper : tree.Proper)

include proper

theorem Guarded.writeThrough (opened : Open tree before value) (target site : NodeId) :
    Guards tree before (before.writeThrough tree target value site) := by
  unfold Pass.writeThrough
  split
  · exact guarded.keeps
  rename_i chain _
  split
  · have root := guarded.writeRoot target site chain.root
    split
    · rename_i id pass run
      rw [run] at root
      have object := root.guarded.heldObject id
      have holder := (textInvariant proper).gains_descend object.keeps.guarded site chain.segments.dropLast
        object.opened
      have keeps := (root.trans object.keeps).trans holder.keeps
      exact keeps.trans (keeps.guarded.setField holder.one (keeps.opens value opened) _ site)
    · rename_i run
      rw [run] at root
      exact root
  · exact guarded.keeps

theorem Guarded.buildObject (node : NodeId) :
    Yields tree before (before.buildObject tree node).1 (before.buildObject tree node).2 ∧
      (before.buildObject tree node).2.shapes.isObject (before.buildObject tree node).1 = true := by
  have fresh : Yields tree before (before.newShape (.object (tree.text node) [])).1 _ := guarded.newShape rfl
  have built := (textInvariant proper).gains_addEntries fresh.keeps.guarded fresh.opened
    (tree.codeChildren node)
  exact ⟨⟨fresh.keeps.trans built.keeps, built.one⟩, built.keeps.objects _ (isObject_newShape _ _ _)⟩

theorem Guarded.buildArray (array : tree.kind node = .array) :
    Yields tree before (before.buildArray tree node).1 (before.buildArray tree node).2 ∧
      (before.buildArray tree node).2.shapes.isObject (before.buildArray tree node).1 = true := by
  have fresh : Yields tree before (before.newShape (.object none [])).1 _ := guarded.newShape rfl
  have others : ∀ element ∈ tree.codeChildren node, ¬tree.IsTextPart element := fun element mem =>
    proper.not_isTextPart (mem_children_of_codeChildren mem) (by rw [array]; rfl)
  have built := (textInvariant proper).gains_addElements fresh.keeps.guarded fresh.opened others 0
  exact ⟨⟨fresh.keeps.trans built.keeps, built.one⟩, built.keeps.objects _ (isObject_newShape _ _ _)⟩

theorem Guarded.memoize (evaluated : tree.Evaluated node) :
    Guards tree before (before.memoize tree node) := by
  have fixed {shape : ShapeId} {pass : Pass} (yields : Yields tree before shape pass)
      (other : (tree.kind node).isText = false) (settled : (tree.kind node).isSettled = true)
      (different : ∀ text, pass.shapes.get? shape ≠ some (.leaf (.string text))) :
      Guards tree before { pass with fixed := pass.fixed.insert node shape } := by
    have apart := not_isTextPart other
    have isFixed : tree.IsFixed node :=
      ⟨evaluated, settled, fun text => absurd (other.symm.trans text) Bool.false_ne_true⟩
    exact yields.keeps.trans (yields.keeps.guarded.fix apart ⟨yields.opened.held, isFixed,
      fun text leaf => absurd leaf (different text), fun _ => yields.opened, fun part => absurd part apart⟩)
  have object {shape : ShapeId} {pass : Pass} (isObject : pass.shapes.isObject shape = true)
      (text : String) : pass.shapes.get? shape ≠ some (.leaf (.string text)) := by
    intro found
    rw [ShapeStore.isObject, found] at isObject
    cases isObject
  unfold Pass.memoize
  have made := fixedBy_fixedShape tree node before
  generalize before.fixedShape tree node = result at made
  cases made with
  | none => exact guarded.keeps
  | @text text kind composed =>
    have known := Tree.isSome_settledText? kind (by rw [composed]; rfl) fun child _ =>
      guarded.isSome_settledText?
    exact guarded.fixText ⟨evaluated, Kind.isSettled_of_isText kind, fun _ => known⟩ kind text
  | plain other settled bare different =>
    refine fixed (guarded.newShape bare) other settled fun text found => different text ?_
    exact Option.some.inj ((get?_newShape before _).symm.trans found)
  | object kind =>
    obtain ⟨yields, isObject⟩ := guarded.buildObject proper node
    exact fixed yields (by rw [kind]; rfl) (by rw [kind]; rfl) (object isObject)
  | array kind =>
    obtain ⟨yields, isObject⟩ := guarded.buildArray proper kind
    exact fixed yields (by rw [kind]; rfl) (by rw [kind]; rfl) (object isObject)

end Guarded

section Traversal

variable {visit : Visit} {bind : Bind}

/-- A visit of a node that is evaluated guards shapes. -/
def VisitsGuard (tree : Tree) (visit : Visit) : Prop :=
  ∀ ⦃node : NodeId⦄ ⦃before after : Pass⦄, visit node before = .ok after → tree.Evaluated node →
    Guarded tree before → Guards tree before after

/-- So does taking a value apart that may be held. -/
def BindsGuard (tree : Tree) (bind : Bind) : Prop :=
  ∀ ⦃pattern : NodeId⦄ ⦃subject : Subject⦄ ⦃before after : Pass⦄, bind pattern subject before = .ok after →
    tree.IsTaken pattern → Guarded tree before → (∀ id ∈ subject.shape, Open tree before id) →
    Guards tree before after

theorem guards_foldlM {α : Type} {step : Pass → α → Except FileFault Pass} {items : List α}
    (each : ∀ item ∈ items, ∀ {first last : Pass}, Guards tree before first → step first item = .ok last →
      Guards tree first last)
    (keeps : Guards tree before middle) (run : items.foldlM step middle = .ok after) :
    Guards tree before after := by
  induction items generalizing middle with
  | nil =>
    cases run
    exact keeps
  | cons item rest ih =>
    rw [foldlM_cons, bind_eq_ok] at run
    obtain ⟨next, first, run⟩ := run
    exact ih (fun other mem => each other (.tail _ mem))
      (keeps.trans (each item (.head _) keeps first)) run

theorem bindsGuard_bindBody (visits : VisitsGuard tree visit) (binds : BindsGuard tree bind) :
    BindsGuard tree (bindBody tree visit bind) := by
  intro pattern subject before after run taken guarded opened
  rw [bindBody_eq] at run
  refine guards_foldlM (fun action mem first last keeps ran => ?_) (guarded.mark pattern) run
  have opens := keeps.optional opened
  cases action with
  | visit value => exact visits ran (taken.value mem) keeps.guarded
  | name =>
    cases ran
    exact keeps.guarded.bindIdentifier opens _ _
  | mark entry =>
    cases ran
    exact keeps.guarded.mark entry
  | bind part share =>
    refine binds ran (taken.share mem) keeps.guarded ?_
    cases share with
    | key place => exact keeps.guarded.part subject place
    | element position => exact keeps.guarded.part subject (some (.element position))
    | whole => exact opens

theorem Guarded.inScope (guarded : Guarded tree before) {kind : ScopeKind}
    {body : Pass → Except FileFault Pass} (run : before.inScope kind node body = .ok after)
    (inner : ∀ {first last : Pass}, body first = .ok last → Guarded tree first → Guards tree first last) :
    Guards tree before after := by
  obtain ⟨last, ran, finish⟩ := bind_eq_ok.1 run
  cases finish
  have entered : Guards tree before (before.enter kind node) := guarded.rescope rfl rfl guarded.bindings
  have kept := inner ran entered.guarded
  exact (entered.trans kept).trans (kept.guarded.rescope rfl rfl kept.guarded.bindings)

theorem Action.guards {action : Action} (visits : VisitsGuard tree visit) (binds : BindsGuard tree bind)
    (proper : tree.Proper) (does : tree.Does node action) (guarded : Guarded tree before)
    (evaluated : tree.Evaluated node) (run : action.run tree visit bind node before = .ok after) :
    Guards tree before after := by
  have plain (assigning : tree.IsAssigning node) {value : NodeId} (mem : value ∈ tree.children node) :
      ¬tree.IsTextPart value :=
    proper.not_isTextPart mem (by rcases assigning with kind | kind | kind <;> rw [kind] <;> rfl)
  have assigned (kind : tree.kind node = .assignment) :
      ∀ value ∈ tree.assignedValue? node, ¬tree.IsTextPart value := fun value found =>
    plain (.inr (.inl kind)) (mem_children_of_child? (Option.filter_eq_some_iff.1 found).1)
  cases does with
  | visit operand => exact visits run (.operand evaluated operand) guarded
  | scope =>
    exact guarded.inScope run fun ran guarded => guards_foldlM (fun child operand _ _ keeps ran =>
      visits ran (.operand evaluated operand) keeps.guarded) guarded.keeps ran
  | refer _ =>
    cases run
    exact guarded.reference node
  | label _ bare =>
    cases run
    exact guarded.declareName node _ _ bare
  | declare kind _ _ =>
    cases run
    obtain ⟨bound, opened⟩ := (textInvariant proper).gains_boundValue guarded fun value found =>
      plain (.inl kind) (mem_children_of_child? found)
    exact bound.trans (bound.guarded.bindIdentifier opened _ _)
  | @assign name kind _ _ =>
    cases run
    have marked := guarded.mark name
    obtain ⟨bound, opened⟩ := (textInvariant proper).gains_boundValue marked.guarded (assigned kind)
    exact (marked.trans bound).trans (bound.guarded.bindIdentifier opened _ _)
  | store kind _ operand =>
    obtain ⟨visited, ran, finish⟩ := bind_eq_ok.1 run
    cases finish
    have reached := visits ran (.operand evaluated operand) guarded
    have shaped := (textInvariant proper).gains_valueShape reached.guarded (assigned kind) .expression
    exact (reached.trans shaped.keeps).trans (shaped.keeps.guarded.writeThrough proper shaped.one _ node)
  | @take pattern kind found =>
    obtain ⟨shaped, opened⟩ := (textInvariant proper).gains_takenShape guarded (fun value source =>
      plain (isAssigning_of_pattern? found) (mem_children_of_source? source)) kind
    exact shaped.trans (binds run ⟨node, pattern, _, evaluated, found, .top⟩ shaped.guarded opened)
  | hold kind =>
    cases run
    exact ((textInvariant proper).gains_valueShape guarded (fun value found =>
      plain (.inr (.inr kind)) (mem_children_of_child? found)) .parameter).keeps

theorem guard_visits_and_binds (proper : tree.Proper) (blocks : Bool) (limit room : Nat) :
    VisitsGuard tree (Pass.visit tree blocks limit room) ∧
      BindsGuard tree (Pass.bind tree blocks limit room) := by
  induction room with
  | zero => exact ⟨fun _ _ _ run => (nomatch run), fun _ _ _ _ run => (nomatch run)⟩
  | succ room ih =>
    have binds := bindsGuard_bindBody ih.1 ih.2
    refine ⟨fun node before after run evaluated guarded => ?_, binds⟩
    obtain ⟨middle, parts, finish⟩ := bind_eq_ok.1 run
    cases finish
    have marked := guarded.mark node
    rw [visitParts_eq] at parts
    have visited := guards_foldlM (fun action mem _ _ keeps ran => Action.guards ih.1 binds proper
      (does_of_mem mem) keeps.guarded evaluated ran) marked.guarded.keeps parts
    exact (marked.trans visited).trans (visited.guarded.memoize proper evaluated)

end Traversal

theorem guarded_start (tree : Tree) : Guarded tree start where
  bindings := fun _ _ found => nomatch found
  writes := fun _ _ found => nomatch found
  fixed := fun _ _ found => nomatch Std.TreeMap.getElem?_emptyc.symm.trans found

theorem guarded_run {blocks : Bool} {limits : Limits} (proper : tree.Proper)
    (run : Pass.run tree blocks limits = .ok after) : Guarded tree after := by
  unfold Pass.run at run
  split at run
  · cases run
  · have guards := (guard_visits_and_binds proper blocks limits.maxDepth _).1 run .root
    exact (guards (guarded_start tree)).guarded

end Pass

end LeakTrace
