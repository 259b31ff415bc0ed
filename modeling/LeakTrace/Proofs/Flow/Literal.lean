import LeakTrace.Detection
import LeakTrace.Proofs.Flow.Merging

namespace LeakTrace

open List ShapeStore Pass

variable {before : Pass} {node : NodeId} {shape : ShapeId} {tree : Tree} {Region : NodeId → Prop}
  {pass after : Pass} {trace : List NodeId} {mark : Mark}

namespace Pass

/-- The object at a node was built from the state `before`, after the node got its mark, and all that
happened since has been later. -/
structure BuiltFrom (tree : Tree) (node : NodeId) (shape : ShapeId) (mark : Mark)
    (before pass : Pass) : Prop where
  sound : before.Sound
  shape : (before.buildObject tree node).1 = shape
  marked : pass.marks[node]? = some mark
  delayed : tree.children node ≠ [] → mark.epoch < before.epoch
  epoch : before.epoch ≤ pass.epoch
  since : Extends (fun _ => True) before.epoch (before.buildObject tree node).2 pass

/-- Every object whose shape is fixed was built from some state of the pass. -/
def Built (tree : Tree) (pass : Pass) : Prop :=
  ∀ (node : NodeId) (shape : ShapeId), tree.kind node = .object → pass.fixed[node]? = some shape →
    ∃ mark before, BuiltFrom tree node shape mark before pass

theorem BuiltFrom.extend (built : BuiltFrom tree node shape mark before pass)
    (extend : Extends Region pass.epoch pass after) (marks : after.marks[node]? = pass.marks[node]?)
    (epoch : pass.epoch ≤ after.epoch) : BuiltFrom tree node shape mark before after where
  sound := built.sound
  shape := built.shape
  marked := marks.trans built.marked
  delayed := built.delayed
  epoch := Nat.le_trans built.epoch epoch
  since := built.since.trans (extend.mono (fun _ _ => trivial) built.epoch)

theorem Fixable.builtFrom (made : Fixable tree node shape pass) (object : tree.kind node = .object) :
    ∃ mark before, BuiltFrom tree node shape mark before pass := by
  obtain ⟨before, mark, sound, run, marked, delayed⟩ := made.made
  simp only [fixedShape, object, Prod.mk.injEq, Option.some.injEq] at run
  obtain ⟨rfl, rfl⟩ := run
  have course := ((courses tree fun _ => True).gains_buildObject sound node).keeps
  refine ⟨mark, before, sound, rfl, ?_, delayed object, ?_, .refl _ _ _⟩
  · rw [course.marks_eq not_mem_nil]
    exact marked
  · exact Nat.le_of_eq course.epoch_eq.symm

theorem Built.extend (built : Built tree pass) (extend : Extends Region pass.epoch pass after)
    (fixed : after.fixed = pass.fixed) (marks : after.marks = pass.marks)
    (epoch : after.epoch = pass.epoch) : Built tree after := by
  intro node shape object held
  obtain ⟨mark, before, earlier⟩ := built node shape object (fixed ▸ held)
  exact ⟨mark, before, earlier.extend extend (by rw [marks]) (Nat.le_of_eq epoch.symm)⟩

theorem Move.built (step : Move tree Region pass after) (built : Built tree pass) :
    Built tree after := by
  have extend : Extends Region pass.epoch pass after := step.extends (Nat.le_refl _)
  have marks := step.marks_eq
  have epoch := step.epoch_eq
  cases step with
  | @fix node shape _ made =>
    intro other found object fixed
    rcases eq_or_of_getElem?_insert fixed with ⟨rfl, rfl⟩ | fixed
    · obtain ⟨mark, before, latest⟩ := made.builtFrom object
      exact ⟨mark, before, latest.extend extend rfl (Nat.le_refl _)⟩
    · obtain ⟨mark, before, earlier⟩ := built other found object fixed
      exact ⟨mark, before, earlier.extend extend rfl (Nat.le_refl _)⟩
  | refer => exact built.extend extend (by rw [reference_eq]) marks epoch
  | _ => exact built.extend extend rfl marks epoch

theorem built_start (tree : Tree) : Built tree start := by
  intro node shape _ fixed
  cases Std.TreeMap.getElem?_emptyc.symm.trans fixed

/-- Each node is marked once, so that no object gets a new mark after it was built. -/
theorem Course.built (course : Course tree Region before trace after) (built : Built tree before)
    (unmarked : ∀ node ∈ trace, before.marks[node]? = none) (distinct : trace.Nodup) :
    Built tree after := by
  induction course with
  | start => exact built
  | @mark before pass trace node course region ih =>
    obtain ⟨apart, _, fresh⟩ := nodup_append.1 distinct
    obtain ⟨earlierUnmarked, nodeUnmarked⟩ := forall_mem_append.1 unmarked
    intro other shape object fixed
    obtain ⟨mark, origin, earlier⟩ := ih built earlierUnmarked apart other shape object fixed
    have different : node ≠ other := by
      rintro rfl
      have absent : node ∉ trace := fun mem => fresh node mem node (.head _) rfl
      have marked := (course.marks_eq absent).symm.trans earlier.marked
      rw [nodeUnmarked node (.head _)] at marked
      cases marked
    exact ⟨mark, origin, earlier.extend (extends_mark region) (getElem?_insert_of_ne different)
      (Nat.le_succ _)⟩
  | name _ region _ _ _ ih =>
    have earlier := ih built (forall_mem_append.1 unmarked).1 (nodup_append.1 distinct).1
    exact earlier.extend (extends_introduce region) rfl rfl rfl
  | move _ step ih => exact step.built (ih built unmarked distinct)
  | @scope before pass last trace inner kind node course _ ih ihInner =>
    obtain ⟨apart, apartInner, fresh⟩ := nodup_append.1 distinct
    obtain ⟨unmarkedFirst, unmarkedInner⟩ := forall_mem_append.1 unmarked
    have first := ih built unmarkedFirst apart
    have entered := first.extend (extends_enter pass kind node : Extends Region _ _ _) rfl rfl rfl
    have innerBuilt := ihInner entered (fun other mem => ?_) apartInner
    · exact innerBuilt.extend (extends_leave last pass.current : Extends Region _ _ _) rfl rfl rfl
    · have absent : other ∉ trace := fun among => fresh other among other mem rfl
      exact (course.marks_eq absent).trans (unmarkedInner other mem)

end Pass

namespace Shape

variable {shape : Shape} {epoch : Nat}

/-- A key that was written by then is the key of a visible field. -/
theorem mem_keys_visibleFields {write : Write} (mem : write ∈ shape.writes)
    (made : write.epoch ≤ epoch) : write.key ∈ (shape.visibleFields epoch).map VisibleField.key := by
  have seen : write ∈ shape.history.filter fun write => write.epoch ≤ epoch := by
    simp [history_eq, mem, made]
  have keys : VisibleField.key ∘ Write.field = Write.key := rfl
  rw [visibleFields_eq_lasts, map_map, keys, Write.map_key_lasts]
  exact Write.mem_keys.2 ⟨write, seen, rfl⟩

theorem visibleFields_of_late (late : ∀ write ∈ shape.writes, epoch < write.epoch) :
    shape.visibleFields epoch = [] := by
  rw [visibleFields_eq, filter_eq_nil_iff.2]
  · rfl
  · intro write mem
    have := late write mem
    simp only [decide_eq_true_eq]
    omega

end Shape

namespace Model

/-- An object literal as it was built, from the pass `before`, and as it is in the end. Its parts were
written at one time, and what was written later stands in `later`. -/
structure Assembled (model : Model) (node : NodeId) (shape : ShapeId) (before : Pass)
    (built last : Shape) (later : List Write) : Prop where
  handle : (before.buildObject model.tree node).1 = shape
  atBuilt : (before.buildObject model.tree node).2.shapes.get? shape = some built
  atLast : model.shapes.get? shape = some last
  object : last.isObject = true
  writes : last.writes = later ++ built.writes
  late : ∀ write ∈ later, before.epoch ≤ write.epoch
  present : ∀ write ∈ built.writes, write.epoch = before.epoch
  /-- The keys of pairs and the names of methods are fields of the literal. -/
  keys : ∀ entry ∈ model.tree.codeChildren node, ∀ key ∈ model.tree.ownKey? entry,
    key ∈ (built.visibleFields before.epoch).map VisibleField.key
  /-- A literal with parts is written after the epoch at which it is read in its place. -/
  delayed : model.tree.children node ≠ [] → model.epochOf node < before.epoch

variable {blocks : Bool} {limits : Limits} {model : Model} {built last : Shape} {later : List Write}

/-- Every literal that has a shape was built in the pass. -/
theorem exists_assembled (once : tree.preorder.Nodup)
    (analysed : Model.ofTree tree blocks limits = .ok model) (literal : tree.kind node = .object)
    (held : model.shapeOf? node = some shape) :
    ∃ before built last later, model.Assembled node shape before built last later := by
  obtain ⟨pass, run, rfl⟩ := Model.ofTree_eq_ok.1 analysed
  rw [shapeOf?_object literal] at held
  obtain ⟨trace, course, listed, same, inside⟩ := within_run run
  have distinct : trace.Nodup := same.nodup_iff.1 (once.sublist inside)
  have unmarked : ∀ other ∈ trace, start.marks[other]? = none := fun _ _ =>
    Std.TreeMap.getElem?_emptyc
  obtain ⟨_, before, origin⟩ := course.built (built_start tree) unmarked distinct node shape
    literal held
  obtain ⟨built, atBuilt, object, present, keys⟩ := origin.sound.writes_buildObject tree node
  have atShape := atBuilt
  rw [origin.shape] at atShape
  obtain ⟨last, atLast, grown⟩ := origin.since.shapes shape built atShape
  obtain ⟨later, writes, late⟩ := grown.writes
  refine ⟨before, built, last, later, origin.shape, atShape, atLast, grown.object object, writes, late,
    present, fun entry mem key own => ?_, fun parts => ?_⟩
  · obtain ⟨write, among, rfl⟩ := keys entry mem key own
    exact Shape.mem_keys_visibleFields among (Nat.le_of_eq (present write among))
  · rw [epochOf_of_marked origin.marked]
    exact origin.delayed parts

namespace Assembled

variable (assembled : model.Assembled node shape before built last later) {epoch : Nat}
include assembled

theorem visibleFields_of_early (early : epoch < before.epoch) :
    model.shapes.visibleFields shape epoch = [] := by
  rw [visibleFields, assembled.atLast]
  refine Shape.visibleFields_of_late fun write mem => ?_
  rw [assembled.writes] at mem
  rcases mem_append.1 mem with added | own
  · exact Nat.lt_of_lt_of_le early (assembled.late write added)
  · exact assembled.present write own ▸ early

theorem visibleFields_of_late (done : before.epoch ≤ epoch)
    (unchanged : ∀ write ∈ later, epoch < write.epoch) :
    model.shapes.visibleFields shape epoch = built.visibleFields before.epoch := by
  have unseen : later.filter (fun write => decide (write.epoch ≤ epoch)) = [] := by
    rw [filter_eq_nil_iff]
    intro write mem
    have := unchanged write mem
    simp only [decide_eq_true_eq]
    omega
  have seen {time : Nat} (reached : before.epoch ≤ time) :
      built.writes.filter (fun write => decide (write.epoch ≤ time)) = built.writes := by
    rw [filter_eq_self]
    exact fun write mem => decide_eq_true (assembled.present write mem ▸ reached)
  rw [visibleFields, assembled.atLast]
  simp only [Shape.visibleFields_eq, assembled.writes, filter_append, unseen, seen done,
    seen (Nat.le_refl _), nil_append]

theorem visibleFields_of_childless (childless : model.tree.children node = []) :
    built.visibleFields before.epoch = [] := by
  have found := assembled.atBuilt
  rw [← assembled.handle, buildObject, Tree.codeChildren, childless] at found
  cases ((get?_add _ _ before.shapes.size).trans (if_pos rfl)).symm.trans found
  rfl

theorem expression_eq (literal : model.tree.kind node = .object) (held : model.shapeOf? node = some shape)
    (parts : model.tree.children node ≠ []) {search : Search} (reads : search.model = model) :
    search.expression node = [] := by
  subst reads
  have hidden := assembled.visibleFields_of_early (assembled.delayed parts)
  have object := assembled.object
  rw [Search.expression, literal]
  have judged (name : String) (subject : Subject) :
      (search.classifier.ofShape search.model.shapes (search.model.epochOf node) name shape
        subject).exposed none = [] := by
    rw [Classifier.ofShape, assembled.atLast]
    cases last with
    | object _ _ => exact search.classifier.exposed_ofObject hidden _ _ _ _
    | leaf _ => cases object
    | unknown _ => cases object
  simp only [Kind.isAccess, Bool.false_eq_true, if_false, beq_self_eq_true, if_true, Search.object,
    held, Search.exposures, judged, map_nil]

end Assembled

/-- Where it stands, an object literal does not show what it was built with. It shows all of that to
whoever reads it later on, until it is written to; in its own place it shows its fields only if there
are none, and a capture of a literal with parts tells of no sensitive data. -/
theorem literal_fields_unseen (once : tree.preorder.Nodup)
    (analysed : Model.ofTree tree blocks limits = .ok model) (literal : tree.kind node = .object)
    (held : model.shapeOf? node = some shape) :
    ∃ before built last later, model.Assembled node shape before built last later ∧
      (∀ epoch, before.epoch ≤ epoch → (∀ write ∈ later, epoch < write.epoch) →
        model.shapes.visibleFields shape epoch = built.visibleFields before.epoch) ∧
      ((∀ field ∈ built.visibleFields before.epoch,
          field ∈ model.shapes.visibleFields shape (model.epochOf node)) ↔
        built.visibleFields before.epoch = []) ∧
      (tree.children node ≠ [] →
        model.shapes.visibleFields shape (model.epochOf node) = [] ∧
          ∀ search : Search, search.model = model → search.expression node = []) := by
  obtain ⟨before, built, last, later, assembled⟩ := exists_assembled once analysed literal held
  have atTree := tree_of_ofTree analysed
  subst atTree
  have hidden (parts : model.tree.children node ≠ []) :=
    assembled.visibleFields_of_early (assembled.delayed parts)
  refine ⟨before, built, last, later, assembled, fun epoch => assembled.visibleFields_of_late,
    ⟨fun shown => ?_, fun none => by simp [none]⟩, fun parts => ⟨hidden parts, fun search =>
      assembled.expression_eq literal held parts⟩⟩
  by_cases parts : model.tree.children node = []
  · exact assembled.visibleFields_of_childless parts
  · rw [hidden parts] at shown
    exact eq_nil_iff_forall_not_mem.2 fun field member => nomatch shown field member

/-- In `sink({ email: e })` the literal has a field for the address, and the call does not show it. -/
theorem literal_fields_unseen_argument :
    ∃ model shape before built last later, model.tree.preorder.Nodup ∧
      Model.ofTree (Script.tree "sink.js" "sink({ email: e });\n") false {} = .ok model ∧
      model.tree.kind 4 = .object ∧ model.shapeOf? 4 = some shape ∧
      model.Assembled 4 shape before built last later ∧
      Key.name "email" ∈ (built.visibleFields before.epoch).map VisibleField.key ∧
      model.shapes.visibleFields shape (model.epochOf 4) = [] ∧
      ∀ search : Search, search.model = model → search.expression 4 = [] := by
  let tree := Script.tree "sink.js" "sink({ email: e });\n"
  obtain ⟨once, literal, parts, entry, own⟩ : tree.preorder.Nodup ∧ tree.kind 4 = .object ∧
      tree.children 4 ≠ [] ∧ 3 ∈ tree.codeChildren 4 ∧ tree.ownKey? 3 = some (.name "email") := by
    decide +kernel
  obtain ⟨model, analysed, shape, held, _⟩ : ∃ model, Model.ofTree tree false {} = .ok model ∧
      ∃ shape ∈ model.shapeOf? 4, True := by
    decide +kernel
  obtain ⟨before, built, last, later, assembled, _, _, hidden⟩ :=
    literal_fields_unseen once analysed literal held
  have atTree := tree_of_ofTree analysed
  rw [← atTree] at once literal entry own
  exact ⟨model, shape, before, built, last, later, once, analysed, literal, held, assembled,
    assembled.keys 3 entry _ own, hidden parts⟩

end Model

end LeakTrace
