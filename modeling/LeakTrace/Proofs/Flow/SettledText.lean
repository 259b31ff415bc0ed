import LeakTrace.Proofs.Flow.Declaration
import LeakTrace.Proofs.Flow.Merging

namespace LeakTrace

open LeakTrace.Tree Option

variable {blocks : Bool}

namespace Shape

theorem text?_of_not_string {shape : Shape} (other : ∀ text, shape ≠ .leaf (.string text)) :
    shape.text? = none := by
  cases found : shape.text? with
  | none => rfl
  | some text =>
    cases shape with
    | leaf literal =>
      cases literal with
      | string written => exact absurd rfl (other written)
      | _ => cases found
    | _ => cases found

theorem Grown.text?_eq_none {epoch : Nat} {old new : Shape} (grown : old.Grown epoch new)
    (other : old.text? = none) : new.text? = none := by
  cases isObject : new.isObject with
  | true => exact text?_of_isObject isObject
  | false => rwa [grown.same isObject]

end Shape

namespace Tree

variable {tree : Tree} {node part inner : NodeId}

/-- The node itself and all that its text is put together from, at any depth. -/
inductive Spans (tree : Tree) (node : NodeId) : NodeId → Prop
  | self : Spans tree node node
  | part {inner part : NodeId} : Spans tree node inner → part ∈ tree.textParts inner → Spans tree node part

theorem Spans.of_part (mem : part ∈ tree.textParts node) (spans : tree.Spans part inner) :
    tree.Spans node inner := by
  induction spans with
  | self => exact .part .self mem
  | part _ deeper ih => exact .part ih deeper

theorem settledText?_of_other (other : (tree.kind node).isText = false) :
    tree.settledText? node = none := by
  rw [settledText?_eq, composed?, concatenation]
  cases kind : tree.kind node
  case string | template | binary =>
    rw [kind] at other
    cases other
  all_goals rfl

theorem kind_of_textParts (mem : part ∈ tree.textParts node) :
    tree.kind node = .template ∨ tree.kind node = .binary := by
  unfold textParts at mem
  split at mem
  · exact .inl ‹_›
  · exact .inr ‹_›
  · cases mem

theorem mem_operands_of_textParts (mem : part ∈ tree.textParts node) : part ∈ tree.operands node := by
  have among := mem_children_of_textParts mem
  rcases kind_of_textParts mem with kind | kind
  all_goals
    rw [operands, kind]
    exact among

end Tree

namespace Pass

variable {tree : Tree} {limit : Nat} {before after final : Pass} {node child : NodeId}

theorem Sound.exists_buildArray (sound : before.Sound) (tree : Tree) (node : NodeId) :
    ∃ built, (before.buildArray tree node).2.shapes.get? (before.buildArray tree node).1 = some built ∧
      built.isObject = true := by
  have fresh := obtains_new tree (fun _ => True) before (rfl : (Shape.object none []).writes = [])
  have elements := (courses tree fun _ => True).gains_addElements (fresh.sound sound) fresh.held
    (fun _ (_ : _ ∈ tree.codeChildren node) => trivial) 0
  exact (any_eq_true _ _).1 (elements.keeps.grows.isObject (isObject_newShape before none []))

/-- What becomes of a node when its shape is to be fixed: it is left alone, or gets the shape of its text, or
one that is no text. -/
inductive Memoized (tree : Tree) (node : NodeId) (before after : Pass) : Prop
  | none : ((tree.kind node).isSettled = true → (tree.kind node).isText = true) →
      tree.composed? node before.fixedText? = none → after = before → Memoized tree node before after
  | text {id : ShapeId} {text : String} : (tree.kind node).isText = true →
      tree.composed? node before.fixedText? = some text →
      after.fixed[node]? = some id → after.shapes.get? id = some (.leaf (.string text)) →
      Memoized tree node before after
  | other {id : ShapeId} {shape : Shape} : (tree.kind node).isText = false →
      after.fixed[node]? = some id → after.shapes.get? id = some shape → shape.text? = none →
      Memoized tree node before after

theorem Sound.memoized (sound : before.Sound) (tree : Tree) (node : NodeId) :
    Memoized tree node before (before.memoize tree node) := by
  have object {id : ShapeId} {shape : Shape} {pass : Pass} (other : (tree.kind node).isText = false)
      (found : pass.shapes.get? id = some shape) (isObject : shape.isObject = true) :
      Memoized tree node before { pass with fixed := pass.fixed.insert node id } :=
    .other other Std.TreeMap.getElem?_insert_self found (Shape.text?_of_isObject isObject)
  unfold Pass.memoize
  have made := fixedBy_fixedShape tree node before
  generalize before.fixedShape tree node = result at made
  cases made with
  | none kind missing => exact .none kind missing rfl
  | text kind composed => exact .text kind composed Std.TreeMap.getElem?_insert_self (get?_newShape before _)
  | plain other _ _ different =>
    exact .other other Std.TreeMap.getElem?_insert_self (get?_newShape before _)
      (Shape.text?_of_not_string different)
  | object kind =>
    obtain ⟨built, found, isObject, _⟩ := sound.writes_buildObject tree node
    exact object (by rw [kind]; rfl) found isObject
  | array kind =>
    obtain ⟨built, found, isObject⟩ := sound.exists_buildArray tree node
    exact object (by rw [kind]; rfl) found isObject

/-- At the node and below it only values of the right kinds are fixed, and no part of a longer text is an
object. What holds of this at the end of the pass has held before. -/
structure Calm (tree : Tree) (pass : Pass) (node : NodeId) : Prop where
  fixed : ∀ inner ∈ tree.subtree node, ∀ shape, pass.fixed[inner]? = some shape → tree.IsFixed inner
  parts : ∀ inner ∈ tree.subtree node, tree.IsTextPart inner → ∀ shape,
    pass.fixed[inner]? = some shape → pass.shapes.isObject shape = false

theorem Guarded.calm (guarded : Guarded tree final) (node : NodeId) : Calm tree final node :=
  ⟨fun inner _ shape found => (guarded.fixed inner shape found).isFixed,
    fun inner _ text shape found => (guarded.fixed inner shape found).part text⟩

theorem Calm.earlier (calm : Calm tree after node) (extend : Extends (· ∉ tree.below node) 0 before after)
    (mem : child ∈ tree.children node) : Calm tree before child := by
  have above {inner : NodeId} (inside : inner ∈ tree.subtree child) {shape : ShapeId}
      (found : before.fixed[inner]? = some shape) : after.fixed[inner]? = some shape :=
    (extend.fixed inner fun outside => outside (List.mem_flatMap.2 ⟨child, mem, inside⟩)).trans found
  refine ⟨fun inner inside shape found => ?_, fun inner inside text shape found => ?_⟩
  · exact calm.fixed inner (mem_subtree_of_child mem inside) shape (above inside found)
  · have plain := calm.parts inner (mem_subtree_of_child mem inside) text shape (above inside found)
    cases object : before.shapes.isObject shape with
    | false => rfl
    | true => exact absurd (plain.symm.trans (extend.isObject object)) Bool.false_ne_true

/-- The node has the shape of a text, which may have become an object since, or no shape of its own. -/
def HasText (pass : Pass) (node : NodeId) : Option String → Prop
  | none => pass.fixed[node]? = none
  | some text => ∃ id shape, pass.fixed[node]? = some id ∧ pass.shapes.get? id = some shape ∧
      (shape.isObject = false → shape = .leaf (.string text))

theorem HasText.fixedText? {pass : Pass} {text : Option String} (has : HasText pass node text)
    (plain : ∀ id, pass.fixed[node]? = some id → pass.shapes.isObject id = false) :
    pass.fixedText? node = text := by
  rw [fixedText?_eq]
  cases text with
  | none =>
    have missing : pass.fixed[node]? = none := has
    rw [missing]
    rfl
  | some text =>
    obtain ⟨id, shape, fixed, held, leaf⟩ := has
    have flat := plain id fixed
    rw [ShapeStore.isObject, held] at flat
    rw [fixed, bind_some, held, bind_some, leaf flat]
    rfl

theorem Visited.fixedText?_of_other (visited : Visited tree blocks limit final node)
    (proper : tree.Proper) (calm : Calm tree final node) (other : (tree.kind node).isText = false) :
    final.fixedText? node = none := by
  rw [fixedText?_eq]
  cases found : final.fixed[node]? with
  | none => rfl
  | some id =>
    have settled := (calm.fixed node (tree.mem_subtree_self node) id found).kind
    obtain ⟨_, middle, sound, _, _, extend⟩ := visited.exists_memoize proper
    have kept := extend.outside (Kind.isAccess_of_isSettled settled)
    have atNode := kept.fixed node fun outside => outside (tree.mem_subtree_self node)
    cases sound.memoized tree node with
    | none kind => exact absurd (other.symm.trans (kind settled)) Bool.false_ne_true
    | text kind => exact absurd (other.symm.trans kind) Bool.false_ne_true
    | other _ fixed held text =>
      cases fixed.symm.trans (atNode.symm.trans found)
      obtain ⟨new, atNew, grown⟩ := kept.shapes id _ held
      rw [bind_some, atNew, bind_some, grown.text?_eq_none text]

/-- The text of a node that is visited gets fixed, with what names and fields hold left open. -/
theorem Visited.hasText (visited : Visited tree blocks limit final node) (proper : tree.Proper)
    (calm : Calm tree final node) (kind : (tree.kind node).isText = true) :
    HasText final node (tree.settledText? node) := by
  induction node using Nat.strongRecOn generalizing final with | ind node ih
  obtain ⟨_, middle, sound, _, operands, extend⟩ := visited.exists_memoize proper
  have kept := extend.outside (Kind.isAccess_of_isSettled (Kind.isSettled_of_isText kind))
  have whole := sound.extends_below kept
  -- The parts have been visited by then. A part that is a text is no object at the end, and so was none.
  have parts : ∀ part ∈ tree.textParts node, middle.fixedText? part = tree.settledText? part := by
    intro part mem
    have among := mem_children_of_textParts mem
    have seen := operands part (mem_operands_of_textParts mem)
    have still := calm.earlier whole among
    cases text : (tree.kind part).isText with
    | false => rw [seen.fixedText?_of_other proper still text, settledText?_of_other text]
    | true =>
      have known := ih part (lt_of_mem_children among) seen still text
      have isPart : tree.IsTextPart part :=
        ⟨text, node, proper.parent node part among, kind_of_textParts mem⟩
      exact known.fixedText? fun id => still.parts part (tree.mem_subtree_self part) isPart id
  have same : tree.composed? node middle.fixedText? = tree.settledText? node :=
    (composed?_congr parts).trans (tree.settledText?_eq node).symm
  have atNode := kept.fixed node fun outside => outside (tree.mem_subtree_self node)
  cases sound.memoized tree node with
  | none _ missing =>
    -- Nothing gets fixed here, nor has anything been fixed before, as no text could be put together.
    rw [← same, missing]
    cases found : final.fixed[node]? with
    | none => exact found
    | some id =>
      have known := (calm.fixed node (tree.mem_subtree_self node) id found).text kind
      rw [← same, missing] at known
      cases known
  | text _ composed fixed held =>
    rw [← same, composed]
    obtain ⟨new, atNew, grown⟩ := kept.shapes _ _ held
    exact ⟨_, new, atNode.trans fixed, atNew, fun plain => grown.same plain⟩
  | other other => exact absurd (other.symm.trans kind) Bool.false_ne_true

/-- A name that is given a text holds a shape with the text that is settled, until it is made an object. -/
theorem Visited.exists_text {site name value : NodeId} (visited : Visited tree blocks limit final site)
    (proper : tree.Proper) (declares : tree.Declares site name value)
    (kind : (tree.kind value).isText = true) (has : HasText final value (tree.settledText? value)) :
    ∃ id binding shape, final.scopes.resolution? name = some (.bound id) ∧
      final.scopes.binding? id = some binding ∧ binding.path = none ∧ binding.shape = some shape ∧
      (final.shapes.get? shape).bind Shape.text? =
        if final.shapes.isObject shape then none else tree.settledText? value := by
  obtain ⟨id, binding, shape, bound, atId, pathless, holds, fixed, fresh⟩ :=
    visited.exists_held proper declares (Kind.isSettled_of_isText kind)
  refine ⟨id, binding, shape, bound, atId, pathless, holds, ?_⟩
  cases known : tree.settledText? value with
  | none =>
    rw [known] at has
    obtain ⟨held, found, grown⟩ := fresh has
    rw [found, bind_some, grown.text?_eq_none rfl, ite_self]
  | some text =>
    rw [known] at has
    obtain ⟨own, held, atValue, found, leaf⟩ := has
    cases fixed own atValue
    rw [ShapeStore.isObject, found, bind_some, any_some]
    cases isObject : held.isObject with
    | true => exact Shape.text?_of_isObject isObject
    | false =>
      rw [leaf isObject]
      rfl

end Pass

namespace Model

variable {tree : Tree} {limits : Limits} {model : Model}

/-- What a node is read as agrees with the text that is settled where it stands, unless it joins a value that
is known to be a text by its name or its path only. -/
theorem settledText?_eq_stringValue? (model : Model) {node : NodeId}
    (names : ∀ part, model.tree.Spans node part → (model.tree.kind part).isAccess = true →
      model.stringValue? part = none)
    (strings : ∀ part, model.tree.Spans node part → model.tree.kind part = .string →
      (model.tree.text part).isSome) : model.tree.settledText? node = model.stringValue? node := by
  induction node using Nat.strongRecOn with | ind node ih
  have parts : ∀ part ∈ model.tree.textParts node, model.tree.settledText? part =
      if part < node then model.stringValue? part else none := by
    intro part mem
    have below := lt_of_mem_children (mem_children_of_textParts mem)
    rw [if_pos below]
    exact ih part below (fun inner spans => names inner (spans.of_part mem))
      fun inner spans => strings inner (spans.of_part mem)
  by_cases access : (model.tree.kind node).isAccess = true
  · rw [names node .self access]
    refine settledText?_of_other (Bool.eq_false_iff.2 fun text => ?_)
    rw [Kind.isAccess_of_isSettled (Kind.isSettled_of_isText text)] at access
    cases access
  rw [settledText?_eq, composed?, stringValue?_eq]
  cases kind : model.tree.kind node with
  | identifier | member | index =>
    rw [kind] at access
    exact absurd rfl access
  | string =>
    obtain ⟨text, written⟩ := isSome_iff_exists.1 (strings node .self kind)
    simp [concatenation, kind, written]
  | _ => exact concatenation_congr parts

/-- A name that is given a text is read as what is settled of the text where it stands, as long as its value
has not been made an object. This is what the text itself is read as, unless it joins a name or a path that
is known to be a text: from such a part the text itself takes its value, and the name an unknown part. -/
theorem variable_text {site name value : NodeId} (proper : tree.Proper)
    (analysed : Model.ofTree tree blocks limits = .ok model) (evaluated : tree.Evaluated site)
    (declares : tree.Declares site name value) (kind : (tree.kind value).isText = true) :
    ∃ id binding shape, model.resolution name = .bound id ∧ model.scopes.binding? id = some binding ∧
      binding.shape = some shape ∧
      (∀ reference, tree.kind reference = .identifier → model.resolution reference = .bound id →
        model.stringValue? reference =
          if model.shapes.isObject shape then none else tree.settledText? value) ∧
      ((∀ part, tree.Spans value part → (tree.kind part).isAccess = true → model.stringValue? part = none) →
        (∀ part, tree.Spans value part → tree.kind part = .string → (tree.text part).isSome) →
        tree.settledText? value = model.stringValue? value) := by
  obtain ⟨final, run, rfl⟩ := Model.ofTree_eq_ok.1 analysed
  have visited := Pass.visited_of_evaluated proper run evaluated
  have seen := visited.operand proper declares.mem_operands
  obtain ⟨id, binding, shape, bound, atId, pathless, holds, text⟩ := visited.exists_text proper declares kind
    (seen.hasText proper ((Pass.guarded_run proper run).calm value) kind)
  refine ⟨id, binding, shape, Pass.resolution_model bound, atId, holds, fun reference identifier refers => ?_,
    settledText?_eq_stringValue? (final.model tree)⟩
  obtain ⟨label, start⟩ := (exists_chain?_of_reference proper analysed identifier refers atId).1 pathless
  have holder : (final.model tree).shapeOf? reference = some shape := by
    rw [shapeOf?_of_isAccess proper analysed (by rw [identifier]; rfl), start]
    simp [Scopes.terminus, atId, holds]
  rw [stringValue?_eq, holder, Pass.model_tree, identifier]
  exact text

/-- In `const a = "x"; const b = "u" + a; send(a, b);` the name `a` is read as the string that it is given. The
sum is read as `ux`, while the name `b` that it is given to is read as `u*`. -/
theorem variable_text_sum :
    let tree := Script.tree "sum.js" "const a = \"x\";\nconst b = \"u\" + a;\nsend(a, b);\n"
    ∃ model, tree.Proper ∧ Model.ofTree tree false {} = .ok model ∧
      tree.Evaluated 2 ∧ tree.Declares 2 0 1 ∧ tree.kind 1 = .string ∧
      model.stringValue? 1 = some "x" ∧ model.stringValue? 11 = some "x" ∧
      tree.Evaluated 8 ∧ tree.Declares 8 4 7 ∧ tree.kind 7 = .binary ∧
      model.stringValue? 7 = some "ux" ∧ model.stringValue? 12 = some "u*" := by
  intro tree
  have proper : tree.Proper := Outline.proper_toTree _ _ _ _
  obtain ⟨model, analysed, atA, atB, useA, useB, heldA, heldB, plainA, plainB, readA, readSum⟩ :
      ∃ model, Model.ofTree tree false {} = .ok model ∧
      model.resolution 0 = .bound 0 ∧ model.resolution 4 = .bound 1 ∧ model.resolution 11 = .bound 0 ∧
      model.resolution 12 = .bound 1 ∧ (model.scopes.binding? 0).bind Binding.shape = some 0 ∧
      (model.scopes.binding? 1).bind Binding.shape = some 2 ∧ model.shapes.isObject 0 = false ∧
      model.shapes.isObject 2 = false ∧ model.stringValue? 1 = some "x" ∧ model.stringValue? 7 = some "ux" := by
    decide +kernel
  obtain ⟨⟨first, second, third, fourth⟩, ⟨declaresA, declaresB⟩, ⟨string, binary, firstUse, secondUse⟩,
      bare, written, settled⟩ :
      (3 ∈ tree.operands tree.root ∧ 2 ∈ tree.operands 3 ∧ 9 ∈ tree.operands tree.root ∧
        8 ∈ tree.operands 9) ∧
      (tree.Declares 2 0 1 ∧ tree.Declares 8 4 7) ∧
      (tree.kind 1 = .string ∧ tree.kind 7 = .binary ∧ tree.kind 11 = .identifier ∧
        tree.kind 12 = .identifier) ∧
      tree.textParts 1 = [] ∧ (tree.text 1).isSome ∧ tree.settledText? 7 = some "u*" := by
    decide +kernel
  have evaluatedA : tree.Evaluated 2 := .operand (.operand .root first) second
  have evaluatedB : tree.Evaluated 8 := .operand (.operand .root third) fourth
  obtain ⟨_, a, _, boundA, atIdA, holdsA, nameA, sameA⟩ :=
    variable_text proper analysed evaluatedA declaresA (by rw [string]; rfl)
  obtain ⟨_, b, _, boundB, atIdB, holdsB, nameB, _⟩ :=
    variable_text proper analysed evaluatedB declaresB (by rw [binary]; rfl)
  cases Resolution.bound.inj (atA.symm.trans boundA)
  cases Resolution.bound.inj (atB.symm.trans boundB)
  rw [atIdA, bind_some, holdsA, some.injEq] at heldA
  rw [atIdB, bind_some, holdsB, some.injEq] at heldB
  subst heldA heldB
  have only (part : NodeId) (spans : tree.Spans 1 part) : part = 1 := by
    induction spans with
    | self => rfl
    | part _ member same =>
      rw [same, bare] at member
      cases member
  have settledA : tree.settledText? 1 = model.stringValue? 1 := by
    refine sameA (fun part spans access => ?_) fun part spans _ => ?_
    · cases only part spans
      exact absurd ((congrArg Kind.isAccess string).symm.trans access) Bool.false_ne_true
    · cases only part spans
      exact written
  refine ⟨model, proper, analysed, evaluatedA, declaresA, string, readA, ?_, evaluatedB, declaresB, binary,
    readSum, ?_⟩
  · rw [nameA 11 firstUse useA, plainA, settledA, readA]
    rfl
  · rw [nameB 12 secondUse useB, plainB, settled]
    rfl

end Model

end LeakTrace
