import LeakTrace.Proofs.Catalog.Judgement
import LeakTrace.Proofs.Flow.Layout
import LeakTrace.Proofs.Tree.Pairing

namespace LeakTrace

open List Scopes
open Option (any_some bind_congr bind_map bind_some map_bind)

def ChainRoot.rename (rename : NodeId → NodeId) : ChainRoot → ChainRoot
  | .binding id name => .binding id name
  | .undeclared name => .undeclared name
  | .callResult node => .callResult (rename node)
  | .expression node => .expression (rename node)

/-- The same path in a tree whose nodes have other handles. -/
def Chain.rename (rename : NodeId → NodeId) (chain : Chain) : Chain :=
  { chain with root := chain.root.rename rename }

def Scope.rename (rename : NodeId → NodeId) (scope : Scope) : Scope :=
  { scope with node := scope.node.map rename }

theorem Chain.rename_step (rename : NodeId → NodeId) (chain : Chain) (key : Option Key) :
    (chain.rename rename).step key = (chain.step key).rename rename := by
  unfold Chain.step
  by_cases ended : chain.unknownTail = true
  · rw [if_pos (show (chain.rename rename).unknownTail = true from ended), if_pos ended]
  · rw [if_neg (show ¬(chain.rename rename).unknownTail = true from ended), if_neg ended]
    cases key <;> rfl

theorem Chain.isUnnamed_rename (rename : NodeId → NodeId) (chain : Chain) :
    (chain.rename rename).isUnnamed = chain.isUnnamed := by
  unfold Chain.isUnnamed
  cases root : chain.root <;> simp [Chain.rename, root, ChainRoot.rename]

namespace Shape

/-- The text of a shape that is a string. -/
def text? : Shape → Option String
  | .leaf (.string text) => some text
  | _ => none

/-- A shape without its writes. -/
def outline : Shape → Shape
  | object name _ => object name []
  | leaf literal => leaf literal
  | unknown origin => unknown origin

theorem isObject_outline (shape : Shape) : shape.outline.isObject = shape.isObject := by
  cases shape <;> rfl

theorem text?_outline (shape : Shape) : shape.outline.text? = shape.text? := by
  cases shape <;> rfl

theorem outline_asObject {shape twin : Shape} (same : twin.outline = shape.outline) :
    twin.asObject.outline = shape.asObject.outline := by
  cases shape with
  | object name writes =>
    cases twin with
    | object other more => exact same
    | _ => cases same
  | _ =>
    cases twin with
    | object other more => cases same
    | _ => rfl

theorem outline_put (write : Write) (shape : Shape) :
    (shape.put write).outline = shape.asObject.outline := by
  cases shape <;> rfl

/-- The writes that are made by the epoch. -/
def madeBy (shape : Shape) (epoch : Nat) : List Write :=
  shape.writes.filter fun write => decide (write.epoch ≤ epoch)

theorem fieldAt_eq_madeBy (key : Key) (epoch : Nat) (shape : Shape) :
    shape.fieldAt key epoch =
      ((shape.madeBy epoch).find? fun write => write.key == key).map Write.shape := by
  rw [fieldAt_eq, madeBy, find?_filter]
  simp only [Bool.decide_and, Bool.decide_eq_true]

end Shape

namespace Pairing

variable (r : Pairing) {Held : ShapeId → ShapeId → Prop}

/-- Two fields that correspond. -/
structure FieldTwin (Held : ShapeId → ShapeId → Prop) (field twin : VisibleField) : Prop where
  key : twin.key = field.key
  node : twin.node = r.rename field.node
  shape : Held field.shape twin.shape

/-- Shapes that correspond are of the same form, and what is read of one at the epoch is read of the
other at the time. -/
structure Mirrors (Held : ShapeId → ShapeId → Prop) (shapes twins : ShapeStore) (epoch time : Nat) :
    Prop where
  outline : ∀ id twin, Held id twin →
    ∃ shape image, shapes.get? id = some shape ∧ twins.get? twin = some image ∧
      image.outline = shape.outline
  made : ∀ id twin shape image, Held id twin → shapes.get? id = some shape →
    twins.get? twin = some image →
    Forall₂ (fun write copy => r.FieldTwin Held ⟨write.key, write.shape, write.node⟩
      ⟨copy.key, copy.shape, copy.node⟩) (shape.madeBy epoch) (image.madeBy time)

variable {r} {shapes twins : ShapeStore} {epoch time : Nat} {id twin : ShapeId} {α β : Type}
  {R : α → β → Prop} {γ δ : Type}

theorem forall₂_find? {first : List α} {second : List β} {p : α → Bool} {q : β → Bool}
    (all : Forall₂ R first second) (same : ∀ a b, R a b → q b = p a) :
    Option.Rel R (first.find? p) (second.find? q) := by
  induction all with
  | nil => exact .none
  | @cons a b _ _ related _ ih =>
    rw [find?_cons, find?_cons, same a b related]
    cases p a with
    | true => exact .some related
    | false => exact ih

theorem exists_of_rel {a : α} {b : Option β} (related : Option.Rel R (some a) b) :
    ∃ image, b = some image ∧ R a image := by
  cases related with
  | some related => exact ⟨_, rfl, related⟩

theorem exists_of_rel_some {a : Option α} {b : β} (related : Option.Rel R a (some b)) :
    ∃ origin, a = some origin ∧ R origin b := by
  cases related with
  | some related => exact ⟨_, rfl, related⟩

theorem eq_none_of_rel {b : Option β} (related : Option.Rel R none b) : b = none := by
  cases related
  rfl

theorem rel_map {R : α → β → Prop} {S : γ → δ → Prop} {f : α → γ} {g : β → δ} {a : Option α}
    {b : Option β} (related : Option.Rel R a b) (step : ∀ a b, R a b → S (f a) (g b)) :
    Option.Rel S (a.map f) (b.map g) := by
  cases related with
  | none => exact .none
  | some related => exact .some (step _ _ related)

theorem rel_bind {R : α → β → Prop} {S : γ → δ → Prop} {f : α → Option γ} {g : β → Option δ}
    {a : Option α} {b : Option β} (related : Option.Rel R a b)
    (step : ∀ a b, R a b → Option.Rel S (f a) (g b)) : Option.Rel S (a.bind f) (b.bind g) := by
  cases related with
  | none => exact .none
  | some related => exact step _ _ related

theorem bind_eq_of_rel {R : α → β → Prop} {f : α → Option γ} {g : β → Option γ} {a : Option α}
    {b : Option β} (related : Option.Rel R a b) (same : ∀ a b, R a b → g b = f a) :
    b.bind g = a.bind f := by
  cases related with
  | none => rfl
  | some related => exact same _ _ related

theorem FieldTwin.replaceField {field image : VisibleField} {fields images : List VisibleField}
    (related : r.FieldTwin Held field image) (all : Forall₂ (r.FieldTwin Held) fields images) :
    Forall₂ (r.FieldTwin Held) (Shape.replaceField field fields)
      (Shape.replaceField image images) := by
  induction all with
  | nil => exact .cons related .nil
  | @cons head other _ _ same rest ih =>
    unfold Shape.replaceField
    by_cases found : head.key = field.key
    · rw [if_pos found, if_pos (by rw [same.key, related.key, found])]
      exact .cons related rest
    · rw [if_neg found, if_neg (by rwa [same.key, related.key])]
      exact .cons same ih

namespace Mirrors

variable (mirrors : r.Mirrors Held shapes twins epoch time)
include mirrors

theorem isObject (held : Held id twin) : twins.isObject twin = shapes.isObject id := by
  obtain ⟨shape, image, found, atTwin, same⟩ := mirrors.outline id twin held
  rw [ShapeStore.isObject, ShapeStore.isObject, found, atTwin, any_some, any_some,
    ← image.isObject_outline, same, shape.isObject_outline]

theorem text? (held : Held id twin) :
    (twins.get? twin).bind Shape.text? = (shapes.get? id).bind Shape.text? := by
  obtain ⟨shape, image, found, atTwin, same⟩ := mirrors.outline id twin held
  rw [found, atTwin, bind_some, bind_some, ← image.text?_outline, same,
    shape.text?_outline]

theorem fieldAt (held : Held id twin) (key : Key) :
    Option.Rel Held (shapes.fieldAt id key epoch) (twins.fieldAt twin key time) := by
  obtain ⟨shape, image, found, atTwin, _⟩ := mirrors.outline id twin held
  rw [ShapeStore.fieldAt, ShapeStore.fieldAt, found, atTwin, bind_some, bind_some,
    Shape.fieldAt_eq_madeBy, Shape.fieldAt_eq_madeBy]
  refine rel_map (forall₂_find? (mirrors.made id twin shape image held found atTwin) ?_)
    fun _ _ related => related.shape
  intro write copy related
  rw [show copy.key = write.key from related.key]

theorem visibleFields (held : Held id twin) :
    Forall₂ (r.FieldTwin Held) (shapes.visibleFields id epoch) (twins.visibleFields twin time) := by
  obtain ⟨shape, image, found, atTwin, _⟩ := mirrors.outline id twin held
  have made := mirrors.made id twin shape image held found atTwin
  simp only [ShapeStore.visibleFields, found, atTwin, Shape.visibleFields_eq]
  rw [← Shape.madeBy, ← Shape.madeBy]
  generalize shape.madeBy epoch = writes, image.madeBy time = copies at made
  induction made with
  | nil => exact .nil
  | cons related _ ih => exact related.replaceField ih

theorem follow (keys : List Key) (held : Held id twin) :
    Option.Rel Held (keys.foldlM (fun shape key => shapes.fieldAt shape key epoch) id)
      (keys.foldlM (fun shape key => twins.fieldAt shape key time) twin) := by
  induction keys generalizing id twin with
  | nil => exact .some held
  | cons key rest ih =>
    exact rel_bind (mirrors.fieldAt held key) fun _ _ held => ih held

theorem terminus {scopes twinScopes : Scopes} {chain : Chain}
    (starts : ∀ id name, chain.root = .binding id name →
      Option.Rel Held ((scopes.binding? id).bind Binding.shape)
        ((twinScopes.binding? id).bind Binding.shape)) :
    Option.Rel Held (scopes.terminus shapes chain epoch)
      (twinScopes.terminus twins (chain.rename r.rename) time) := by
  unfold Scopes.terminus
  rw [show (chain.rename r.rename).unknownTail = chain.unknownTail from rfl,
    show (chain.rename r.rename).segments = chain.segments from rfl,
    show (chain.rename r.rename).root = chain.root.rename r.rename from rfl]
  split
  · exact .none
  · cases root : chain.root with
    | binding id name => exact rel_bind (starts id name root) fun _ _ => mirrors.follow chain.segments
    | _ => exact .none

theorem named (held : Held id twin) :
    Forall₂ (fun entry copy => copy.1 = entry.1 ∧ Held entry.2 copy.2)
      (Classifier.named shapes epoch id) (Classifier.named twins time twin) := by
  refine rel_filterMap ?_ (mirrors.visibleFields held)
  intro field image related
  show Option.Rel _ (field.key.name?.map _) (image.key.name?.map _)
  rw [related.key]
  cases field.key.name? with
  | none => exact .none
  | some label => exact .some ⟨rfl, related.shape⟩

theorem ofObject (classifier : Classifier) (depth : Nat) (name : String) (subject : Subject)
    (held : Held id twin) :
    classifier.ofObject twins time depth name twin subject =
      classifier.ofObject shapes epoch depth name id subject := by
  induction depth using Nat.strongRecOn generalizing name id twin subject with | ind depth ih
  have entries := mirrors.named held
  have property {entry copy : String × ShapeId} (related : copy.1 = entry.1 ∧ Held entry.2 copy.2) :
      classifier.property name copy.1 (classifier.nested? twins time depth copy.1 copy.2) =
        classifier.property name entry.1 (classifier.nested? shapes epoch depth entry.1 entry.2) := by
    rw [Classifier.nested?, Classifier.nested?, mirrors.isObject related.2, related.1]
    split
    · rw [ih (depth - 1) (by omega) entry.1 {} related.2]
    · rfl
  have same {f g : String × ShapeId → ClassifiedNode}
      (each : ∀ entry copy, copy.1 = entry.1 ∧ Held entry.2 copy.2 → g copy = f entry) :
      (Classifier.named twins time twin).map g = (Classifier.named shapes epoch id).map f := by
    rw [← forall₂_eq_eq_eq, forall₂_map_left_iff, forall₂_map_right_iff]
    exact entries.flip.imp fun copy entry related => each entry copy related
  rw [Classifier.ofObject_eq, Classifier.ofObject_eq]
  cases classifier.objectGate? name subject with
  | some reason =>
    exact congrArg (ClassifiedNode.mk (.none name reason)) (same fun _ _ related => by rw [related.1])
  | none => exact congrArg (classifier.assembled name) (same fun _ _ related => property related)

theorem ofShape (classifier : Classifier) (name : String) (subject : Subject) (held : Held id twin) :
    classifier.ofShape twins time name twin subject =
      classifier.ofShape shapes epoch name id subject := by
  obtain ⟨shape, image, found, atTwin, same⟩ := mirrors.outline id twin held
  have judged := mirrors.ofObject classifier classifier.depth name subject held
  rw [Classifier.ofShape, Classifier.ofShape, found, atTwin]
  cases shape with
  | object label writes =>
    cases image with
    | object other more => exact judged
    | _ => cases same
  | leaf literal =>
    cases image with
    | leaf other => rfl
    | _ => cases same
  | unknown origin =>
    cases image with
    | unknown other => rfl
    | _ => cases same

end Mirrors

/-- Two bindings that correspond. -/
structure BindingTwin (r : Pairing) (Held : ShapeId → ShapeId → Prop) (binding twin : Binding) :
    Prop where
  name : twin.name = binding.name
  kind : twin.kind = binding.kind
  scope : twin.scope = binding.scope
  node : twin.node = r.rename binding.node
  path : twin.path = binding.path.map (Chain.rename r.rename)
  shape : Option.Rel Held binding.shape twin.shape

/-- The same scopes and bindings, and the same references of the nodes that both trees have. -/
structure ScopesTwin (r : Pairing) (Held : ShapeId → ShapeId → Prop) (scopes twins : Scopes) :
    Prop where
  opened : ∀ id : ScopeId, twins.scopes[id]? = scopes.scopes[id]?.map (Scope.rename r.rename)
  bindings : ∀ id, Option.Rel (r.BindingTwin Held) (scopes.binding? id) (twins.binding? id)
  references : ∀ node, r.Plain node → twins.resolution? (r.rename node) = scopes.resolution? node

/-- A path that is written at a node is written at the node in its place, if names are resolved alike. -/
theorem written?_eq {scopes twinScopes : Scopes} {node : NodeId}
    (references : ∀ node, r.Plain node → twinScopes.resolution? (r.rename node) = scopes.resolution? node)
    (plain : r.Plain node) :
    Chain.written? r.other twinScopes (r.rename node) =
      (Chain.written? r.base scopes node).map (Chain.rename r.rename) := by
  induction node using Nat.strongRecOn with | ind node ih
  have object (key : Option Key) :
      ((r.other.child? (r.rename node) .object).bind fun object =>
        (Chain.written? r.other twinScopes object).map (·.step key)) =
      ((r.base.child? node .object).bind fun object =>
        (Chain.written? r.base scopes object).map (·.step key)).map (Chain.rename r.rename) := by
    obtain ⟨moved, inner⟩ := child?_object plain
    rw [moved, bind_map, map_bind]
    refine bind_congr fun child found => ?_
    rw [Function.comp, ih child (Tree.lt_of_child? found) (inner child found), Function.comp,
      Option.map_map, Option.map_map]
    exact congrArg (Option.map · _) (funext fun chain => chain.rename_step r.rename key)
  rw [Chain.written?_eq, Chain.written?_eq r.base]
  by_cases chosen : r.Chosen node
  · obtain ⟨key, text, found, named, foundOther, keyed⟩ := (r.anew node chosen).name
    rw [(r.anew node chosen).kind, (r.anew node chosen).kindOther]
    simp only [found, bind_some, named, foundOther, keyed]
    exact object (some (.name text))
  have kept : r.Kept node := ⟨plain, chosen⟩
  rw [kind_kept kept]
  cases r.base.kind node with
  | identifier =>
    simp only [r.text node plain, references node plain, Option.map_map]
    refine congrArg (Option.map · _) (funext fun name => ?_)
    split <;> rfl
  | member =>
    have property : (r.other.child? (r.rename node) .property).bind r.other.text =
        (r.base.child? node .property).bind r.base.text := by
      rw [child?_kept kept, bind_map]
      exact bind_congr fun child found => r.text child (plain_of_child? kept found)
    simp only [property, map_bind]
    exact bind_congr fun name _ => object (some (.name name))
  | index =>
    simp only [child?_kept kept .index, bind_map, map_bind]
    refine bind_congr fun index found => ?_
    have key := indexKey?_eq (plain_of_child? kept found)
    rw [Function.comp, key]
    exact object _
  | _ => rfl

namespace ScopesTwin

variable {scopes twinScopes : Scopes} {node : NodeId} (alike : r.ScopesTwin Held scopes twinScopes)
include alike

theorem size_scopes : twinScopes.scopes.size = scopes.scopes.size := by
  have inside (id : Nat) : id < twinScopes.scopes.size ↔ id < scopes.scopes.size := by
    rw [← not_iff_not, not_lt, not_lt, ← Array.getElem?_eq_none_iff, ← Array.getElem?_eq_none_iff,
      alike.opened, Option.map_eq_none_iff]
  have first := inside scopes.scopes.size
  have second := inside twinScopes.scopes.size
  omega

theorem size_bindings : twinScopes.bindings.size = scopes.bindings.size := by
  have inside (id : Nat) : id < twinScopes.bindings.size ↔ id < scopes.bindings.size := by
    rw [← not_iff_not, not_lt, not_lt, ← Array.getElem?_eq_none_iff, ← Array.getElem?_eq_none_iff]
    constructor
    · intro absent
      have related := alike.bindings id
      cases found : scopes.bindings[id]? with
      | none => rfl
      | some binding =>
        rw [show scopes.binding? id = some binding from found] at related
        obtain ⟨copy, atCopy, _⟩ := exists_of_rel related
        cases absent.symm.trans atCopy
    · intro absent
      have related := alike.bindings id
      rw [show scopes.binding? id = none from absent] at related
      exact eq_none_of_rel related
  have first := inside scopes.bindings.size
  have second := inside twinScopes.bindings.size
  omega

theorem parent?_eq (id : ScopeId) : twinScopes.parent? id = scopes.parent? id := by
  rw [parent?, parent?, alike.opened, bind_map]
  rfl

theorem lookup_eq (scope : ScopeId) (name : String) :
    twinScopes.lookup scope name = scopes.lookup scope name := by
  have here (id : ScopeId) : (twinScopes.scopes[id]?.bind fun scope => scope.current[name]?) =
      scopes.scopes[id]?.bind fun scope => scope.current[name]? := by
    rw [alike.opened, bind_map]
    rfl
  fun_induction lookup scopes scope name with
  | case1 scope binding found =>
    unfold Scopes.lookup
    rw [here, found]
  | case2 scope missing outer link ih =>
    unfold Scopes.lookup
    rw [here, missing]
    simp only []
    split
    · rename_i next alsoLink
      rw [alike.parent?_eq, link] at alsoLink
      cases alsoLink
      exact ih.trans (by rw [Scopes.lookup])
    · rename_i top
      rw [alike.parent?_eq, link] at top
      cases top
  | case3 scope missing top =>
    unfold Scopes.lookup
    rw [here, missing]
    simp only []
    split
    · rename_i next link
      rw [alike.parent?_eq, top] at link
      cases link
    · rfl

theorem expandAlias_eq (chain : Chain) :
    twinScopes.expandAlias (chain.rename r.rename) = (scopes.expandAlias chain).rename r.rename := by
  unfold expandAlias
  cases root : chain.root with
  | binding id name =>
    have related := alike.bindings id
    simp only [Chain.rename, root, ChainRoot.rename]
    cases found : scopes.binding? id with
    | none =>
      rw [found] at related
      simp [eq_none_of_rel related, root]
    | some binding =>
      rw [found] at related
      obtain ⟨copy, atCopy, same⟩ := exists_of_rel related
      rw [atCopy, bind_some, bind_some, same.path]
      cases binding.path with
      | none => simp [root]
      | some path => rfl
  | _ => simp [Chain.rename, root, ChainRoot.rename]

theorem resolve?_eq (plain : r.Plain node) :
    Chain.resolve? r.other twinScopes (r.rename node) =
      (Chain.resolve? r.base scopes node).map (Chain.rename r.rename) := by
  rw [Chain.resolve?_eq, Chain.resolve?_eq, kind_cases (motive := (·.isAccess = ·.isAccess)) plain
    (fun _ => rfl) rfl]
  split
  · rw [written?_eq alike.references plain, Option.map_map, Option.map_map]
    exact congrArg (Option.map · _) (funext fun chain => alike.expandAlias_eq chain)
  · rfl

theorem held (id : BindingId) :
    Option.Rel Held ((scopes.binding? id).bind Binding.shape)
      ((twinScopes.binding? id).bind Binding.shape) :=
  rel_bind (alike.bindings id) fun _ _ related => related.shape

end ScopesTwin

end Pairing

end LeakTrace
