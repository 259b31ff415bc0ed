import LeakTrace.Proofs.Flow.Agreement

namespace LeakTrace

open List LeakTrace.Tree ShapeStore Chain

variable {base more : Tree} {added : List NodeId} {pass : Pass} {Region : NodeId → Prop}
  {before after : Pass} {epoch early : Nat}

namespace Pass

namespace Extends

variable (extend : Extends Region epoch before after) {object : ShapeId} {chain : Chain}
include extend

theorem fieldAt (earlier : early < epoch) (held : object < before.shapes.size) (key : Key) :
    after.shapes.fieldAt object key early = before.shapes.fieldAt object key early := by
  obtain ⟨old, found⟩ := exists_of_lt_size held
  obtain ⟨new, atAfter, grown⟩ := extend.shapes object old found
  rw [ShapeStore.fieldAt, ShapeStore.fieldAt, found, atAfter]
  exact grown.fieldAt earlier key

theorem visibleFields (earlier : early < epoch) (held : object < before.shapes.size) :
    after.shapes.visibleFields object early = before.shapes.visibleFields object early := by
  obtain ⟨old, found⟩ := exists_of_lt_size held
  obtain ⟨new, atAfter, grown⟩ := extend.shapes object old found
  rw [ShapeStore.visibleFields, ShapeStore.visibleFields, found, atAfter]
  exact grown.visibleFields earlier

theorem binding? {id : BindingId} (inside : id < before.scopes.bindings.size) :
    after.scopes.binding? id = before.scopes.binding? id := by
  have found : before.scopes.binding? id = _ := Array.getElem?_eq_getElem inside
  rw [found, extend.bindings id _ found]

theorem terminus (sound : before.Sound) (earlier : early < epoch)
    (rooted : chain.root.Rooted before.scopes.bindings) :
    after.scopes.terminus after.shapes chain early = before.scopes.terminus before.shapes chain early := by
  refine sound.terminus_eq (fun id name root => ?_) fun object held key => extend.fieldAt earlier held key
  rw [root] at rooted
  obtain ⟨binding, atId, _⟩ := rooted
  exact extend.binding? (Array.getElem?_eq_some_iff.1 atId).1

theorem expandAlias (inside : ∀ id name, chain.root = .binding id name → id < before.scopes.bindings.size) :
    after.scopes.expandAlias chain = before.scopes.expandAlias chain := by
  unfold Scopes.expandAlias
  split
  · rename_i id name root
    rw [extend.binding? (inside id name root)]
  · rfl

end Extends

/-- A pass over a program, and one over a program that goes on. -/
structure Continued (base more : Tree) (added : List NodeId) (pass after : Pass) : Prop where
  trees : base.Continues more added
  sound : pass.Sound
  extend : Extends (base.root ≤ ·) (pass.epoch + 1) pass after
  mark : after.marks[more.root]? = pass.marks[base.root]?
  reference : after.scopes.resolution? more.root = pass.scopes.resolution? base.root
  shape : after.fixed[more.root]? = none ∧ pass.fixed[base.root]? = none

variable {node : NodeId}

theorem continued_run (continues : base.Continues more added) {blocks : Bool} {limits limitsMore : Limits}
    (run : Pass.run base blocks limits = .ok pass) (runMore : Pass.run more blocks limitsMore = .ok after) :
    Continued base more added pass after := by
  obtain ⟨mark, reference, shape⟩ := program_node continues.program run
  obtain ⟨markMore, referenceMore, shapeMore⟩ := program_node continues.programMore runMore
  exact ⟨continues, (within_run run).sound sound_start, extends_run continues run runMore,
    markMore.trans mark.symm, referenceMore.trans reference.symm, shapeMore, shape⟩

end Pass

theorem le_root_of_mem_ancestors {tree : Tree} {node above : NodeId}
    (last : tree.size = tree.root + 1) (mem : above ∈ tree.ancestors node) : above ≤ tree.root := by
  fun_induction ancestors tree node with
  | case1 => cases mem
  | case2 node parent link ih =>
    rcases mem_cons.1 mem with rfl | higher
    · exact (le_root_of_parent last link).2
    · exact ih higher

namespace Pass.Continued

variable {node : NodeId}

variable (continued : Continued base more added pass after)
include continued

section

variable (inside : node ≤ base.root)
include inside

theorem marks : after.marks[base.site more node]? = pass.marks[node]? := by
  rcases Nat.lt_or_eq_of_le inside with below | rfl
  · rw [site_of_lt below, continued.extend.marks node (Nat.not_le_of_lt below)]
  · rw [site_root, continued.mark]

theorem resolution? : after.scopes.resolution? (base.site more node) = pass.scopes.resolution? node := by
  rcases Nat.lt_or_eq_of_le inside with below | rfl
  · rw [site_of_lt below, continued.extend.references node (Nat.not_le_of_lt below)]
  · rw [site_root, continued.reference]

theorem resolution :
    (after.model more).resolution (base.site more node) = (pass.model base).resolution node := by
  exact congrArg (·.getD .undeclared) (continued.resolution? inside)

theorem epochOf : (after.model more).epochOf (base.site more node) = (pass.model base).epochOf node := by
  have nodes : base.site more node :: more.ancestors (base.site more node) =
      (node :: base.ancestors node).map (base.site more) := by
    rw [map_cons, continued.trees.ancestors inside]
  have below : ∀ above ∈ node :: base.ancestors node, above ≤ base.root := by
    rw [forall_mem_cons]
    exact ⟨inside, fun above mem => le_root_of_mem_ancestors continued.trees.last mem⟩
  have marks : (after.model more).markOf? (base.site more node) = (pass.model base).markOf? node := by
    simp only [Model.markOf?, Pass.model, nodes, findSome?_map]
    generalize node :: base.ancestors node = above at below
    induction above with
    | nil => rfl
    | cons first rest ih =>
      rw [findSome?_cons, findSome?_cons, Function.comp_apply,
        continued.marks (below first (.head _)),
        ih fun other mem => below other (.tail _ mem)]
  rw [Model.epochOf, Model.epochOf, marks]

end

theorem epochOf_lt (node : NodeId) : (pass.model base).epochOf node < pass.epoch + 1 := by
  rw [Model.epochOf]
  cases found : (pass.model base).markOf? node with
  | none => exact Nat.succ_pos _
  | some mark =>
    obtain ⟨above, _, marked⟩ := exists_of_findSome?_eq_some found
    exact Nat.lt_succ_of_le (continued.sound.marks above mark marked)

theorem chain?_of_lt (below : node < base.root) :
    (after.model more).chain? node = (pass.model base).chain? node := by
  have written : written? more after.scopes node = written? base pass.scopes node := by
    have renamed := Pairing.written?_eq (r := continued.trees.pairing) (fun inner inside =>
      continued.extend.references inner (Nat.not_le_of_lt inside)) below
    rwa [rename_id, Option.map_id] at renamed
  have expanded : (written? base pass.scopes node).map after.scopes.expandAlias =
      (written? base pass.scopes node).map pass.scopes.expandAlias :=
    Option.map_congr fun chain found => continued.extend.expandAlias fun _ _ root =>
      continued.sound.written? found root
  have paths : resolve? more after.scopes node = resolve? base pass.scopes node := by
    rw [resolve?_eq, resolve?_eq, continued.trees.kind below, written, expanded]
  exact paths

theorem chain? (inside : node ≤ base.root) :
    (after.model more).chain? (base.site more node) = (pass.model base).chain? node := by
  rcases Nat.lt_or_eq_of_le inside with below | rfl
  · rw [site_of_lt below, continued.chain?_of_lt below]
  · simp only [site_root, Model.chain?, Pass.model, resolve?_eq, continued.trees.program,
      continued.trees.programMore, Kind.isAccess]
    rfl

theorem shapeOf?_of_lt (below : node < base.root) :
    (after.model more).shapeOf? node = (pass.model base).shapeOf? node := by
  induction node using Nat.strongRecOn with | ind node ih
  have fixed : (after.model more).fixed[node]? = (pass.model base).fixed[node]? :=
    continued.extend.fixed node (Nat.not_le_of_lt below)
  have kind : (after.model more).tree.kind node = (pass.model base).tree.kind node :=
    continued.trees.kind below
  have epoch := continued.epochOf (Nat.le_of_lt below)
  rw [site_of_lt below] at epoch
  have right : ((after.model more).tree.child? node .right).bind (after.model more).shapeOf? =
      ((pass.model base).tree.child? node .right).bind (pass.model base).shapeOf? := by
    rw [show (after.model more).tree.child? node .right = (pass.model base).tree.child? node .right
      from continued.trees.child? below .right]
    refine Option.bind_congr fun child found => ?_
    have smaller := lt_of_child? found
    exact ih child smaller (Nat.lt_trans smaller below)
  have path : ((pass.model base).chain? node).bind (fun chain => (after.model more).scopes.terminus
        (after.model more).shapes chain ((pass.model base).epochOf node)) =
      ((pass.model base).chain? node).bind fun chain => (pass.model base).scopes.terminus
        (pass.model base).shapes chain ((pass.model base).epochOf node) := by
    refine Option.bind_congr fun chain found => ?_
    exact continued.extend.terminus continued.sound (continued.epochOf_lt node)
      (continued.sound.chain? found)
  rw [Model.shapeOf?_eq, Model.shapeOf?_eq, fixed, kind, epoch, continued.chain?_of_lt below, right,
    path]

theorem shapeOf? (inside : node ≤ base.root) :
    (after.model more).shapeOf? (base.site more node) = (pass.model base).shapeOf? node := by
  rcases Nat.lt_or_eq_of_le inside with below | rfl
  · rw [site_of_lt below, continued.shapeOf?_of_lt below]
  · simp only [site_root, Model.shapeOf?_eq, Pass.model, continued.shape.1, continued.shape.2,
      continued.trees.program, continued.trees.programMore]

end Pass.Continued

theorem Shape.text?_of_isObject {shape : Shape} (object : shape.isObject = true) :
    shape.text? = none := by
  cases shape with
  | object _ _ => rfl
  | _ => cases object

namespace Model

theorem stringValue?_eq (model : Model) (node : NodeId) :
    model.stringValue? node = match model.tree.kind node with
      | .identifier | .member | .index =>
        ((model.shapeOf? node).bind model.shapes.get?).bind Shape.text?
      | _ => model.tree.concatenation node fun child =>
        if child < node then model.stringValue? child else none := by
  rw [stringValue?]
  cases model.tree.kind node with
  | identifier | member | index =>
    cases (model.shapeOf? node).bind model.shapes.get? with
    | none => rfl
    | some shape =>
      cases shape with
      | leaf literal => cases literal <;> rfl
      | _ => rfl
  | _ => rfl

/-- The shapes that a reader of the node comes to: that of the expression, and those of the fields it
shows at that place. -/
inductive Reads (model : Model) (node : NodeId) : ShapeId → Prop
  | here {shape : ShapeId} : model.shapeOf? node = some shape → Reads model node shape
  | field {shape : ShapeId} {field : VisibleField} : Reads model node shape →
      field ∈ model.shapes.visibleFields shape (model.epochOf node) → Reads model node field.shape

/-- Nothing that is read at the node or below it is an object in one model and none in the other. -/
def Steady (earlier later : Model) (node : NodeId) : Prop :=
  ∀ inner ∈ earlier.tree.subtree node, ∀ shape, earlier.Reads inner shape →
    later.shapes.isObject shape = earlier.shapes.isObject shape

theorem Steady.mono {earlier later : Model} {node part : NodeId} (steady : earlier.Steady later node)
    (mem : part ∈ earlier.tree.subtree node) : earlier.Steady later part :=
  fun inner inside => steady inner (mem_subtree_trans inside mem)

end Model

namespace Pass.Continued

variable {node : NodeId} (continued : Continued base more added pass after) {shape : ShapeId}

theorem held_of_reads (sound : pass.Sound) (reads : (pass.model base).Reads node shape) :
    shape < pass.shapes.size := by
  induction reads with
  | here found => exact sound.shapeOf? found
  | field _ mem => exact sound.visibleFields mem

include continued

theorem visibleFields (reads : (pass.model base).Reads node shape) :
    after.shapes.visibleFields shape ((pass.model base).epochOf node) =
      pass.shapes.visibleFields shape ((pass.model base).epochOf node) :=
  continued.extend.visibleFields (continued.epochOf_lt node) (held_of_reads continued.sound reads)

/-- What is an object in both models or in none is of the same kind in both, and if it is no object it
is the same. -/
theorem get? (held : shape < pass.shapes.size)
    (steady : after.shapes.isObject shape = pass.shapes.isObject shape) :
    ∃ old new, pass.shapes.get? shape = some old ∧ after.shapes.get? shape = some new ∧
      new.objectName? = old.objectName? ∧ new.isObject = old.isObject ∧
        (old.isObject = false → new = old) := by
  obtain ⟨old, found⟩ := exists_of_lt_size held
  obtain ⟨new, atAfter, grown⟩ := continued.extend.shapes shape old found
  rw [isObject, isObject, found, atAfter] at steady
  exact ⟨old, new, found, atAfter, grown.name, steady, fun plain => grown.same (steady.trans plain)⟩

theorem stringValue?_of_lt (below : node < base.root)
    (steady : (pass.model base).Steady (after.model more) node) :
    (after.model more).stringValue? node = (pass.model base).stringValue? node := by
  induction node using Nat.strongRecOn with | ind node ih
  have kind : (after.model more).tree.kind node = (pass.model base).tree.kind node :=
    continued.trees.kind below
  have parts : (after.model more).tree.concatenation node (fun child =>
        if child < node then (after.model more).stringValue? child else none) =
      (pass.model base).tree.concatenation node fun child =>
        if child < node then (pass.model base).stringValue? child else none := by
    refine Pairing.concatenation_eq (r := continued.trees.pairing) below fun _ child mem _ => ?_
    have smaller := lt_of_mem_children mem
    have same := ih child smaller (Nat.lt_trans smaller below) (steady.mono (mem_subtree_child mem))
    exact congrArg (if child < node then · else none) same
  have shape : (((pass.model base).shapeOf? node).bind (after.model more).shapes.get?).bind
        Shape.text? = (((pass.model base).shapeOf? node).bind (pass.model base).shapes.get?).bind
        Shape.text? := by
    cases found : (pass.model base).shapeOf? node with
    | none => rfl
    | some id =>
      obtain ⟨old, new, atPass, atAfter, _, object, plain⟩ := continued.get?
        (continued.sound.shapeOf? found)
        (steady node (mem_subtree_self _ node) id (.here found))
      have same : new.text? = old.text? := by
        cases isObject : old.isObject with
        | false => rw [plain isObject]
        | true => rw [Shape.text?_of_isObject isObject, Shape.text?_of_isObject (object.trans isObject)]
      rw [Option.bind_some, Option.bind_some, show (after.model more).shapes.get? id = some new
        from atAfter, show (pass.model base).shapes.get? id = some old from atPass]
      exact same
  rw [Model.stringValue?_eq, Model.stringValue?_eq, kind, parts, continued.shapeOf?_of_lt below, shape]

theorem ofShape (reads : (pass.model base).Reads node shape)
    (steady : ∀ shape, (pass.model base).Reads node shape →
      after.shapes.isObject shape = pass.shapes.isObject shape)
    (classifier : Classifier) (name : String) (subject : LeakTrace.Subject) :
    classifier.ofShape after.shapes ((pass.model base).epochOf node) name shape subject =
      classifier.ofShape pass.shapes ((pass.model base).epochOf node) name shape subject := by
  obtain ⟨old, new, atPass, atAfter, _, object, plain⟩ := continued.get?
    (held_of_reads continued.sound reads) (steady shape reads)
  have judged := classifier.ofObject_congr (fun _ reads => continued.visibleFields reads) steady
    (fun _ reads field mem => Model.Reads.field reads mem) classifier.depth name subject reads
  rw [Classifier.ofShape, Classifier.ofShape, atPass, atAfter]
  cases isObject : old.isObject with
  | false => rw [plain isObject, judged]
  | true =>
    cases old with
    | object _ _ =>
      cases new with
      | object _ _ => exact judged
      | _ => cases object
    | _ => cases isObject

end Pass.Continued

end LeakTrace
