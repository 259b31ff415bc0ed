import LeakTrace.Proofs.Flow.Journal
import LeakTrace.Proofs.Flow.Lexical

namespace LeakTrace

open List ShapeStore Scopes Std.TreeMap

namespace Pass

variable {tree : Tree} {pass before after : Pass} {node : NodeId} {Region : NodeId → Prop}

/-- One operation of the pass on its state. -/
inductive Step (tree : Tree) (pass : Pass) : Pass → Prop
  | mark {node : NodeId} : node ∈ tree.preorder → Step tree pass (pass.mark node)
  | name {node : NodeId} {binding : Binding} : node ∈ tree.preorder → Named tree pass node binding →
      Step tree pass (pass.introduce node binding)
  | move {after : Pass} : Move tree (· ∈ tree.preorder) pass after → Step tree pass after
  | enter (kind : ScopeKind) (node : NodeId) : Step tree pass (pass.enter kind node)
  | leave {outer : ScopeId} : outer < pass.scopes.scopes.size →
      Step tree pass { pass with current := outer }

/-- The state comes about by operations of the pass from its start on. -/
def Reachable (tree : Tree) (pass : Pass) : Prop := Relation.ReflTransGen (Step tree) start pass

/-- No handle dangles and no write is out of order. -/
structure Intact (tree : Tree) (pass : Pass) : Prop where
  bindingShape : ∀ id binding shape, pass.scopes.binding? id = some binding →
    binding.shape = some shape → shape < pass.shapes.size
  writtenShape : ∀ id shape, pass.shapes.get? id = some shape →
    ∀ write ∈ shape.history, write.shape < pass.shapes.size
  fixedShape : ∀ (node : NodeId) (shape : ShapeId), pass.fixed[node]? = some shape →
    shape < pass.shapes.size
  name : ∀ (id : ScopeId) (scope : Scope), pass.scopes.scopes[id]? = some scope →
    ∀ (name : String) (binding : BindingId), scope.current[name]? = some binding →
      binding < pass.scopes.bindings.size
  reference : ∀ node id, pass.scopes.resolution? node = some (.bound id) →
    id < pass.scopes.bindings.size
  aliasRoot : ∀ id binding path root name, pass.scopes.binding? id = some binding →
    binding.path = some path → path.root = .binding root name → root < pass.scopes.bindings.size
  parent : ∀ id parent, pass.scopes.parent? id = some parent → parent < id
  enclosed : ∀ id < pass.scopes.scopes.size, id = root ∨ ∃ parent, pass.scopes.parent? id = some parent
  current : pass.current < pass.scopes.scopes.size
  markScope : ∀ (node : NodeId) (mark : Mark), pass.marks[node]? = some mark →
    mark.scope < pass.scopes.scopes.size
  place : ∀ node, node ∉ tree.preorder → pass.marks[node]? = none ∧ pass.fixed[node]? = none ∧
    pass.scopes.resolution? node = none
  ordered : ∀ id shape, pass.shapes.get? id = some shape →
    shape.history.Pairwise fun earlier later => earlier.epoch ≤ later.epoch
  recent : ∀ id shape, pass.shapes.get? id = some shape →
    ∀ write ∈ shape.history, write.epoch ≤ pass.epoch

/-- What each operation keeps, next to the handles that are sound. -/
structure Orderly (tree : Tree) (pass : Pass) : Prop where
  sound : pass.Sound
  enclosed : ∀ id < pass.scopes.scopes.size,
    id = root ∨ ∃ parent, pass.scopes.parent? id = some parent
  current : pass.current < pass.scopes.scopes.size
  markScope : ∀ (node : NodeId) (mark : Mark), pass.marks[node]? = some mark →
    mark.scope < pass.scopes.scopes.size
  place : ∀ node, node ∉ tree.preorder → pass.marks[node]? = none ∧ pass.fixed[node]? = none ∧
    pass.scopes.resolution? node = none
  ordered : ∀ id shape, pass.shapes.get? id = some shape →
    shape.writes.Pairwise fun later earlier => earlier.epoch ≤ later.epoch

theorem Orderly.intact (orderly : Orderly tree pass) : Intact tree pass where
  bindingShape := fun id binding shape atId holds =>
    (orderly.sound.bindings id binding atId).shape shape holds
  writtenShape := fun id shape found write mem => by
    rw [Shape.history_eq, mem_reverse] at mem
    exact (orderly.sound.writes id shape found write mem).1
  fixedShape := orderly.sound.fixed
  name := orderly.sound.names
  reference := orderly.sound.references
  aliasRoot := fun id binding path root name atId stands hangs => by
    have rooted := ((orderly.sound.bindings id binding atId).path path stands).rooted
    rw [hangs] at rooted
    obtain ⟨other, atRoot, _⟩ := rooted
    exact (Array.getElem?_eq_some_iff.1 atRoot).1
  parent := fun _ _ link => lt_of_parent? link
  enclosed := orderly.enclosed
  current := orderly.current
  markScope := orderly.markScope
  place := orderly.place
  ordered := fun id shape found => by
    rw [Shape.history_eq, pairwise_reverse]
    exact orderly.ordered id shape found
  recent := fun id shape found write mem => by
    rw [Shape.history_eq, mem_reverse] at mem
    exact (orderly.sound.writes id shape found write mem).2

theorem orderly_start (tree : Tree) : Orderly tree start where
  sound := sound_start
  enclosed := fun _ inside => .inl (Nat.lt_one_iff.1 inside)
  current := Nat.zero_lt_one
  markScope := fun _ _ marked => nomatch getElem?_emptyc.symm.trans marked
  place := fun _ _ => ⟨getElem?_emptyc, getElem?_emptyc,
    getElem?_emptyc⟩
  ordered := fun _ _ found => nomatch found

theorem Orderly.place_of_extends {epoch : Nat} (orderly : Orderly tree before)
    (extend : Extends (· ∈ tree.preorder) epoch before after) (outside : node ∉ tree.preorder) :
    after.marks[node]? = none ∧ after.fixed[node]? = none ∧ after.scopes.resolution? node = none := by
  rw [extend.marks node outside, extend.fixed node outside, extend.references node outside]
  exact orderly.place node outside

namespace Orderly

variable (orderly : Orderly tree pass)
include orderly

theorem mark (inside : node ∈ tree.preorder) : Orderly tree (pass.mark node) := by
  have extend : Extends (· ∈ tree.preorder) 0 pass (pass.mark node) := extends_mark inside
  refine { orderly with
    sound := orderly.sound.mark node
    markScope := fun other mark marked => ?_
    place := fun other outside => orderly.place_of_extends extend outside }
  rcases eq_or_of_getElem?_insert marked with ⟨_, rfl⟩ | marked
  · exact orderly.current
  · exact orderly.markScope other mark marked

theorem introduce (inside : node ∈ tree.preorder) {binding : Binding}
    (fits : binding.Fits pass.scopes.bindings pass.shapes) : Orderly tree (pass.introduce node binding) := by
  have extend : Extends (· ∈ tree.preorder) 0 pass (pass.introduce node binding) :=
    extends_introduce inside
  have size : (pass.introduce node binding).scopes.scopes.size = _ := size_declare pass binding
  refine { orderly with
    sound := orderly.sound.introduce fits node
    enclosed := fun id inside => ?_
    current := size ▸ orderly.current
    markScope := fun other mark marked => size ▸ orderly.markScope other mark marked
    place := fun other outside => orderly.place_of_extends extend outside }
  rw [show (pass.introduce node binding).scopes.parent? id = _ from parent?_declare _ _ id]
  exact orderly.enclosed id (size ▸ inside)

theorem enter (kind : ScopeKind) (node : NodeId) : Orderly tree (pass.enter kind node) := by
  refine ⟨orderly.sound.enter kind node, fun id inside => ?_, ?_, fun other mark marked => ?_,
    orderly.place, orderly.ordered⟩
  · rw [size_enter] at inside
    rw [Pass.enter, parent?_openScope]
    split
    · exact .inr ⟨_, if_pos orderly.current⟩
    · rename_i old
      exact orderly.enclosed id (Nat.lt_of_le_of_ne (Nat.le_of_lt_succ inside) old)
  · rw [size_enter]
    exact Nat.lt_succ_self _
  · rw [size_enter]
    exact Nat.lt_succ_of_lt (orderly.markScope other mark marked)

end Orderly

theorem Move.ordered (step : Move tree Region before after) (orderly : Orderly tree before) (id : ShapeId)
    (shape : Shape) (found : after.shapes.get? id = some shape) :
    shape.writes.Pairwise fun later earlier => earlier.epoch ≤ later.epoch := by
  cases step with
  | add bare =>
    rw [newShape, get?_add] at found
    split at found
    · cases found
      rw [bare]
      exact .nil
    · exact orderly.ordered id shape found
  | write _ =>
    rw [setField, get?_setField] at found
    split at found
    · obtain ⟨old, atId, rfl⟩ := Option.map_eq_some_iff.1 found
      rw [Shape.writes_put, pairwise_cons]
      exact ⟨fun write mem => (orderly.sound.writes id old atId write mem).2,
        orderly.ordered id old atId⟩
    · exact orderly.ordered id shape found
  | promote object =>
    rw [get?_ensureObject] at found
    split at found
    · obtain ⟨old, atId, rfl⟩ := Option.map_eq_some_iff.1 found
      rw [Shape.writes_asObject]
      exact orderly.ordered id old atId
    · exact orderly.ordered id shape found
  | refer =>
    rw [reference_eq] at found
    exact orderly.ordered id shape found
  | bind | imply | fix => exact orderly.ordered id shape found

theorem Move.parent?_eq (step : Move tree Region before after) (id : ScopeId) :
    after.scopes.parent? id = before.scopes.parent? id := by
  cases step with
  | refer =>
    unfold Pass.reference
    split <;> rfl
  | bind | imply => exact parent?_declare _ _ _
  | _ => rfl

theorem Move.orderly (step : Move tree (· ∈ tree.preorder) before after)
    (orderly : Orderly tree before) : Orderly tree after where
  sound := step.sound orderly.sound
  enclosed := fun id inside => by
    rw [step.parent?_eq]
    exact orderly.enclosed id (step.scopes_eq ▸ inside)
  current := by
    rw [step.current_eq, step.scopes_eq]
    exact orderly.current
  markScope := fun node mark marked => by
    rw [step.marks_eq] at marked
    rw [step.scopes_eq]
    exact orderly.markScope node mark marked
  place := fun node outside => orderly.place_of_extends (step.extends (Nat.le_refl _)) outside
  ordered := step.ordered orderly

theorem Step.orderly (step : Step tree before after) (orderly : Orderly tree before) :
    Orderly tree after := by
  cases step with
  | mark inside => exact orderly.mark inside
  | name inside named => exact orderly.introduce inside named.fits
  | move move => exact move.orderly orderly
  | enter kind node => exact orderly.enter kind node
  | leave held => exact { orderly with sound := { orderly.sound with }, current := held }

theorem Reachable.orderly (reachable : Reachable tree pass) : Orderly tree pass := by
  induction reachable with
  | refl => exact orderly_start tree
  | tail _ step ih => exact step.orderly ih

theorem Course.reachable {trace : List NodeId} (course : Course tree (· ∈ tree.preorder) before trace after)
    (reachable : Reachable tree before) : Reachable tree after := by
  induction course with
  | start => exact reachable
  | mark _ inside ih => exact (ih reachable).tail (.mark inside)
  | name _ inside _ _ named ih => exact (ih reachable).tail (.name inside named)
  | move _ step ih => exact (ih reachable).tail (.move step)
  | @scope before pass last _ _ kind node _ rest ih ihInner =>
    have outer := ih reachable
    have grown := rest.scopes_le
    rw [size_enter] at grown
    exact (ihInner (outer.tail (.enter kind node))).tail
      (.leave (Nat.lt_of_lt_of_le (Nat.lt_succ_of_lt outer.orderly.current) grown))

/-- Every lookup leads to something that is there. -/
structure Closed (tree : Tree) (pass : Pass) : Prop where
  lookup : ∀ scope name id, pass.scopes.lookup scope name = some id →
    ∃ binding, pass.scopes.binding? id = some binding
  chain : ∀ node chain id name, pass.chain? tree node = some chain → chain.root = .binding id name →
    ∃ binding, pass.scopes.binding? id = some binding
  terminus : ∀ chain epoch id, pass.scopes.terminus pass.shapes chain epoch = some id →
    ∃ shape, pass.shapes.get? id = some shape
  fieldAt : ∀ object key epoch id, pass.shapes.fieldAt object key epoch = some id →
    ∃ shape, pass.shapes.get? id = some shape
  visibleFields : ∀ object epoch, ∀ field ∈ pass.shapes.visibleFields object epoch,
    ∃ shape, pass.shapes.get? field.shape = some shape
  shapeOf : ∀ node, ∃ shape,
    (shapeOf tree node pass).2.shapes.get? (shapeOf tree node pass).1 = some shape

theorem Sound.closed (sound : pass.Sound) (tree : Tree) : Closed tree pass where
  lookup := fun scope name id found => ⟨_, Array.getElem?_eq_getElem (sound.lookup found)⟩
  chain := fun node chain id name found root => by
    have rooted := sound.chain? found
    rw [root] at rooted
    obtain ⟨binding, atId, _⟩ := rooted
    exact ⟨binding, atId⟩
  terminus := fun chain epoch id found => exists_of_lt_size (sound.terminus found)
  fieldAt := fun object key epoch id found => exists_of_lt_size (sound.fieldAt found)
  visibleFields := fun object epoch field mem =>
    exists_of_lt_size (sound.visibleFields mem)
  shapeOf := fun node =>
    exists_of_lt_size (sound.shapeOf tree (fun _ => True) node).held

end Pass

/-- Where the writes are in order, those that are seen at an epoch come first. -/
theorem Write.split_of_ordered {writes : List Write}
    (ordered : writes.Pairwise fun earlier later => earlier.epoch ≤ later.epoch) (epoch : Nat) :
    ∃ rest, writes = writes.filter (fun write => write.epoch ≤ epoch) ++ rest ∧
      ∀ write ∈ rest, epoch < write.epoch := by
  induction writes with
  | nil => exact ⟨[], rfl, forall_mem_nil _⟩
  | cons write later ih =>
    obtain ⟨first, ordered⟩ := pairwise_cons.1 ordered
    by_cases seen : write.epoch ≤ epoch
    · obtain ⟨rest, split, unseen⟩ := ih ordered
      refine ⟨rest, ?_, unseen⟩
      rw [filter_cons_of_pos (by simpa using seen), cons_append, ← split]
    have unseen : ∀ other ∈ write :: later, epoch < other.epoch := by
      refine forall_mem_cons.2 ⟨Nat.lt_of_not_le seen, fun other mem => ?_⟩
      exact Nat.lt_of_lt_of_le (Nat.lt_of_not_le seen) (first other mem)
    refine ⟨write :: later, ?_, unseen⟩
    rw [filter_eq_nil_iff.2 fun other mem => by simpa using unseen other mem, nil_append]

end LeakTrace
