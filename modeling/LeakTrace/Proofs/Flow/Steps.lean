import LeakTrace.Proofs.Flow.Invariant
import Mathlib.Data.List.Perm.Subperm

namespace LeakTrace

open List Chain

variable {epoch : Nat} {kind : BindingKind} {id : BindingId} {value : ShapeId}

/-- One step along a path: a known key extends it, an unknown one ends it for good. -/
def Chain.step (chain : Chain) (key : Option Key) : Chain :=
  if chain.unknownTail then chain else
    match key with
    | some key => chain.extend key
    | none => { chain with unknownTail := true }

@[simp]
theorem Chain.root_step (chain : Chain) (key : Option Key) : (chain.step key).root = chain.root := by
  unfold step
  split
  · rfl
  · split <;> rfl

theorem Tree.rootIdentifier?_eq (tree : Tree) (node : NodeId) :
    tree.rootIdentifier? node = match tree.kind node with
      | .identifier => some node
      | .member | .index => (tree.child? node .object).bind tree.rootIdentifier?
      | _ => none := by
  rw [rootIdentifier?]
  cases tree.kind node with
  | member | index => cases tree.child? node .object <;> rfl
  | _ => rfl

/-- The access path that is written at a node, with names resolved and aliases left as they are. -/
def Chain.written? (tree : Tree) (scopes : Scopes) (node : NodeId) : Option Chain :=
  match tree.kind node with
  | .identifier => (tree.text node).map fun name =>
    match scopes.resolution? node with
    | some (.bound id) => { root := .binding id name }
    | _ => { root := .undeclared name }
  | .member =>
    match (tree.child? node .property).bind tree.text, _object : tree.child? node .object with
    | some name, some object => (written? tree scopes object).map (·.step (some (.name name)))
    | _, _ => none
  | .index =>
    match tree.child? node .index, _object : tree.child? node .object with
    | some index, some object => (written? tree scopes object).map (·.step (tree.indexKey? index))
    | _, _ => none
  | .call => some { root := .callResult node }
  | _ => some { root := .expression node }
termination_by node
decreasing_by all_goals exact Tree.lt_of_child? _object

theorem Chain.written?_eq (tree : Tree) (scopes : Scopes) (node : NodeId) :
    written? tree scopes node = match tree.kind node with
      | .identifier => (tree.text node).map fun name =>
        match scopes.resolution? node with
        | some (.bound id) => { root := .binding id name }
        | _ => { root := .undeclared name }
      | .member => ((tree.child? node .property).bind tree.text).bind fun name =>
        (tree.child? node .object).bind fun object =>
          (written? tree scopes object).map (·.step (some (.name name)))
      | .index => (tree.child? node .index).bind fun index => (tree.child? node .object).bind fun object =>
        (written? tree scopes object).map (·.step (tree.indexKey? index))
      | .call => some { root := .callResult node }
      | _ => some { root := .expression node } := by
  rw [written?]
  cases tree.kind node with
  | member =>
    cases (tree.child? node .property).bind tree.text <;> cases tree.child? node .object <;> rfl
  | index => cases tree.child? node .index <;> cases tree.child? node .object <;> rfl
  | _ => rfl

/-- A path with the keys behind it that a walk from the outside has met before it: a path that has lost
its end keeps none of them. -/
def Chain.before (chain : Chain) (segments : Array Key) (unknownTail : Bool) : Chain :=
  if chain.unknownTail then chain else
    ⟨chain.root, chain.segments ++ segments.toList.reverse, unknownTail⟩

theorem Chain.before_nil (chain : Chain) : chain.before #[] false = chain := by
  rcases chain with ⟨root, segments, _ | _⟩ <;> simp [before]

theorem Chain.step_before (chain : Chain) (key : Option Key) (segments : Array Key) (unknownTail : Bool) :
    (chain.step key).before segments unknownTail = match key with
      | some key => chain.before (segments.push key) unknownTail
      | none => chain.before #[] true := by
  rcases chain with ⟨root, keys, _ | _⟩ <;> cases key <;> simp [step, before, extend]

/-- The walk from the outside in comes to the path of the node, with the keys met before behind it. -/
theorem Chain.collect?_eq (tree : Tree) (scopes : Scopes) (segments : Array Key) (unknownTail : Bool)
    (node : NodeId) : collect? tree scopes segments unknownTail node =
      (written? tree scopes node).map (·.before segments unknownTail) := by
  fun_induction collect? tree scopes segments unknownTail node with
  | case1 segments unknownTail node kind name object atName atObject ih
  | case3 segments unknownTail node kind index object atIndex atObject key known ih
  | case4 segments unknownTail node kind index object atIndex atObject unknown ih =>
    simp [*, written?_eq tree scopes node, Function.comp_def, step_before]
  | case2 segments unknownTail node kind missing | case5 segments unknownTail node kind missing =>
    rw [written?]
    simp only [kind, Option.map_none]
  | case6 segments unknownTail node kind =>
    rw [written?, kind, Option.map_map]
    rcases scopes.resolution? node with _ | _ | _ <;> rfl
  | case7 segments unknownTail node kind =>
    rw [written?, kind]
    rfl
  | case8 segments unknownTail node =>
    rw [written?]
    split <;> first | contradiction | rfl

theorem Chain.resolve?_eq (tree : Tree) (scopes : Scopes) (node : NodeId) : resolve? tree scopes node =
    if (tree.kind node).isAccess then (written? tree scopes node).map scopes.expandAlias else none := by
  simp only [resolve?, collect?_eq, before_nil, Option.map_id']

theorem Pass.shapeOf_eq (tree : Tree) (node : NodeId) (pass : Pass) :
    shapeOf tree node pass = match pass.fixed[node]? with
      | some shape => (shape, pass)
      | none => match tree.kind node with
        | .identifier | .member | .index =>
          match (pass.chain? tree node).bind fun chain =>
              pass.scopes.terminus pass.shapes chain pass.epoch with
          | some shape => (shape, pass)
          | none => pass.newUnknown <| match (pass.chain? tree node).map root with
            | some (.undeclared _) => .undeclared
            | some (.callResult _) => .callResult
            | _ => .expression
        | .assignment => match tree.child? node .right with
          | some right => shapeOf tree right pass
          | none => pass.newUnknown .expression
        | _ => pass.newUnknown .expression := by
  rw [shapeOf]
  cases pass.fixed[node]? with
  | some shape => rfl
  | none =>
    cases tree.kind node with
    | assignment => cases tree.child? node .right <;> rfl
    | _ => rfl

namespace Pass

variable {tree : Tree} {Region : NodeId → Prop} {before after : Pass} {node : NodeId} {chain : Chain}
  {name : String} {shape : ShapeId}

theorem Course.grows {trace : List NodeId} (course : Course tree Region before trace after) :
    Extends Region before.epoch before after :=
  course.extends (Nat.le_refl _)

/-- A path that is written in the source hangs off an identifier, with what that refers to, or off a
value without a name. -/
theorem root_written? {scopes : Scopes} (written : written? tree scopes node = some chain) :
    (∃ identifier name, tree.rootIdentifier? node = some identifier ∧
      tree.text identifier = some name ∧
      (chain.root = .undeclared name ∨ ∃ id, scopes.resolution? identifier = some (.bound id) ∧
        chain.root = .binding id name)) ∨ chain.isUnnamed = true := by
  fun_induction written? tree scopes node generalizing chain with
  | case1 node kind =>
    obtain ⟨name, text, rfl⟩ := Option.map_eq_some_iff.1 written
    refine .inl ⟨node, name, by rw [Tree.rootIdentifier?, kind], text, ?_⟩
    split
    · rename_i id bound
      exact .inr ⟨id, bound, rfl⟩
    · exact .inl rfl
  | case2 node kind _ object atObject _ ih | case4 node kind _ object atObject _ ih =>
    obtain ⟨inner, below, rfl⟩ := Option.map_eq_some_iff.1 written
    have unnamed (key : Option Key) : (inner.step key).isUnnamed = inner.isUnnamed := by
      rw [isUnnamed, isUnnamed, root_step]
    have inside : tree.rootIdentifier? node = tree.rootIdentifier? object := by
      rw [Tree.rootIdentifier?_eq, kind, atObject]
      rfl
    simpa only [root_step, unnamed, inside] using ih below
  | case3 | case5 => cases written
  | case6 | case7 =>
    cases written
    exact .inr rfl

theorem Sound.written? (sound : before.Sound) (written : written? tree before.scopes node = some chain)
    (root : chain.root = .binding id name) : id < before.scopes.bindings.size := by
  rcases root_written? written with ⟨identifier, _, _, _, undeclared | ⟨_, bound, hangs⟩⟩ | unnamed
  · cases undeclared.symm.trans root
  · cases hangs.symm.trans root
    exact sound.references identifier id bound
  · simp [isUnnamed, root] at unnamed

/-- Once aliases are expanded, a path hangs off a name that nothing declares if this name is written at
its root, or if what is written there refers to an alias that leads to the name. -/
theorem root_undeclared {pass : Pass} (found : pass.chain? tree node = some chain)
    (root : chain.root = .undeclared name) : ∃ identifier, tree.rootIdentifier? node = some identifier ∧
      (tree.text identifier = some name ∨ ∃ id binding path,
        pass.scopes.resolution? identifier = some (.bound id) ∧
        pass.scopes.binding? id = some binding ∧ binding.path = some path ∧
        path.root = .undeclared name) := by
  rw [Pass.chain?, resolve?_eq] at found
  split at found
  · obtain ⟨written, atNode, rfl⟩ := Option.map_eq_some_iff.1 found
    rcases root_written? atNode with ⟨identifier, text, atRoot, named, plain | ⟨id, bound, hangs⟩⟩ | unnamed
    · refine ⟨identifier, atRoot, .inl ?_⟩
      simp only [Scopes.expandAlias, plain, ChainRoot.undeclared.injEq] at root
      rw [named, root]
    · refine ⟨identifier, atRoot, .inr ?_⟩
      simp only [Scopes.expandAlias, hangs] at root
      cases stands : (pass.scopes.binding? id).bind Binding.path with
      | none =>
        rw [stands, hangs] at root
        cases root
      | some path =>
        rw [stands] at root
        obtain ⟨binding, atId, isPath⟩ := Option.bind_eq_some_iff.1 stands
        exact ⟨id, binding, path, bound, atId, isPath, root⟩
    · exfalso
      cases hangs : written.root with
      | binding | undeclared => simp [isUnnamed, hangs] at unnamed
      | callResult | expression => simp [Scopes.expandAlias, hangs] at root
  · cases found

theorem Sound.chain? (sound : before.Sound) (found : before.chain? tree node = some chain) :
    chain.root.Rooted before.scopes.bindings := by
  rw [Pass.chain?, resolve?_eq] at found
  split at found
  · obtain ⟨written, atNode, rfl⟩ := Option.map_eq_some_iff.1 found
    unfold Scopes.expandAlias
    cases root : written.root with
    | binding id name =>
      have atId := Array.getElem?_eq_getElem (sound.written? atNode root)
      cases stands : (before.scopes.binding? id).bind Binding.path with
      | some path =>
        obtain ⟨binding, atId, isPath⟩ := Option.bind_eq_some_iff.1 stands
        simp only [stands]
        exact ((sound.bindings id binding atId).path path isPath).rooted
      | none =>
        simp only [stands, root]
        exact ⟨_, atId, Option.bind_eq_none_iff.1 stands _ atId⟩
    | _ =>
      simp only [root]
      trivial
  · cases found

namespace Sound

variable (sound : before.Sound)
include sound

theorem written (id : ShapeId) (shape : Shape) (found : before.shapes.get? id = some shape) :
    ∀ write ∈ shape.writes, write.shape < before.shapes.size :=
  fun write mem => (sound.writes id shape found write mem).1

variable {object : ShapeId}

theorem fieldAt {key : Key}
    (found : before.shapes.fieldAt object key epoch = some value) : value < before.shapes.size :=
  of_fieldAt (P := (· < before.shapes.size)) sound.written found

theorem visibleFields {field : VisibleField} (mem : field ∈ before.shapes.visibleFields object epoch) :
    field.shape < before.shapes.size :=
  of_visibleFields (P := (· < before.shapes.size)) sound.written mem

theorem bound (id : BindingId) (binding : Binding) (found : before.scopes.binding? id = some binding) :
    ∀ shape ∈ binding.shape, shape < before.shapes.size :=
  (sound.bindings id binding found).shape

theorem terminus (found : before.scopes.terminus before.shapes chain epoch = some shape) :
    shape < before.shapes.size :=
  of_terminus (P := (· < before.shapes.size)) sound.written sound.bound found

/-- A path ends where it did while its root and the fields of the shapes there were are the same. -/
theorem terminus_eq
    (roots : ∀ id name, chain.root = .binding id name → after.scopes.binding? id = before.scopes.binding? id)
    (fields : ∀ object < before.shapes.size, ∀ key, after.shapes.fieldAt object key epoch =
      before.shapes.fieldAt object key epoch) :
    after.scopes.terminus after.shapes chain epoch = before.scopes.terminus before.shapes chain epoch := by
  have follow (keys : List Key) : ∀ shape < before.shapes.size,
      keys.foldlM (fun shape key => after.shapes.fieldAt shape key epoch) shape =
        keys.foldlM (fun shape key => before.shapes.fieldAt shape key epoch) shape := by
    induction keys with
    | nil => exact fun _ _ => rfl
    | cons key rest ih =>
      intro shape held
      rw [foldlM_cons, foldlM_cons, fields shape held]
      exact Option.bind_congr fun inner field => ih inner (sound.fieldAt field)
  unfold Scopes.terminus
  split
  · rfl
  split
  · rename_i id name root
    rw [roots id name root]
    refine Option.bind_congr fun start found => ?_
    obtain ⟨binding, atId, holds⟩ := Option.bind_eq_some_iff.1 found
    exact follow chain.segments start (sound.bound id binding atId start holds)
  · rfl

end Sound

/-- The handle is there after changes that mark no node. -/
structure Obtains (tree : Tree) (Region : NodeId → Prop) (before : Pass) (shape : ShapeId)
    (after : Pass) : Prop where
  course : Course tree Region before [] after
  held : shape < after.shapes.size

theorem obtains_new (tree : Tree) (Region : NodeId → Prop) (before : Pass) {shape : Shape}
    (bare : shape.writes = []) :
    Obtains tree Region before (before.newShape shape).1 (before.newShape shape).2 :=
  ⟨(Move.add bare).course, by simp [newShape]⟩

theorem Obtains.sound (obtains : Obtains tree Region before shape after) (sound : before.Sound) :
    after.Sound :=
  obtains.course.sound sound

/-- Steps on values mark no node, and the handles that they give are there. -/
def courses (tree : Tree) (Region : NodeId → Prop) : Invariant tree where
  Fine := Sound
  Keeps before after := Course tree Region before [] after
  Held pass shape := shape < pass.shapes.size
  Free _ := True
  refl _ := .start
  trans first second := first.trans second
  fine course sound := course.sound sound
  held course inside := Nat.lt_of_lt_of_le inside course.grows.size_le
  add _ bare := ⟨(obtains_new _ _ _ bare).course, (obtains_new tree Region _ bare).held⟩
  write _ _ held := (Move.write held).course
  promote _ _ := (Move.promote _).course
  bound := Sound.bound
  written := Sound.written
  fixed sound _ found := sound.fixed _ _ found
  own _ := trivial
  part _ _ := trivial

theorem Invariant.Gains.obtains (gains : (courses tree Region).Gains before (some shape) after) :
    Obtains tree Region before shape after :=
  ⟨gains.keeps, gains.one⟩

theorem Sound.shapeOf (sound : before.Sound) (tree : Tree) (Region : NodeId → Prop) (node : NodeId) :
    Obtains tree Region before (shapeOf tree node before).1 (shapeOf tree node before).2 :=
  ((courses tree Region).gains_shapeOf sound trivial).obtains

theorem Sound.descend (sound : before.Sound) (tree : Tree) (Region : NodeId → Prop) (site : NodeId)
    (keys : List Key) (held : shape < before.shapes.size) :
    Obtains tree Region before (descend site keys shape before).1 (descend site keys shape before).2 :=
  ((courses tree Region).gains_descend sound site keys held).obtains

/-- What is known of a value that a pattern takes apart leads to something that is there. -/
structure Known (shape : Option ShapeId) (path : Option Chain) (pass : Pass) : Prop where
  shape : ∀ id ∈ shape, id < pass.shapes.size
  chain : ∀ chain ∈ path, chain.root.Rooted pass.scopes.bindings
  certain : ∀ chain ∈ path, chain.unknownTail = false

theorem known_none (pass : Pass) : Known none none pass :=
  ⟨nofun, nofun, nofun⟩

theorem held_some (held : shape < before.shapes.size) : ∀ id ∈ some shape, id < before.shapes.size :=
  fun _ mem => Option.some.inj mem ▸ held

theorem Extends.known {shape : Option ShapeId} {chain : Option Chain}
    (extend : Extends Region epoch before after) (known : Known shape chain before) :
    Known shape chain after :=
  ⟨fun id mem => Nat.lt_of_lt_of_le (known.shape id mem) extend.size_le,
    fun path mem => extend.rooted (known.chain path mem), known.certain⟩

/-- What a name may be bound to. -/
structure Bindable (shape : Option ShapeId) (path : Option Chain) (pass : Pass) : Prop where
  shape : ∀ id ∈ shape, id < pass.shapes.size
  path : ∀ chain ∈ path, chain.Expanded pass.scopes.bindings

/-- Where a name is to stand for a path, it is the path of the value as it is at present. -/
theorem Sound.expanded (sound : before.Sound) {value : NodeId} {path : Chain}
    (stands : (before.valueBinding tree value).1.2 = some path) :
    (before.valueBinding tree value).2 = before ∧ path.Expanded before.scopes.bindings := by
  revert stands
  unfold Pass.valueBinding
  split
  · rintro ⟨⟩
  rename_i chain found
  split
  · rintro ⟨⟩
  rename_i certain
  split
  · split
    · split
      · rintro ⟨⟩
      · rintro ⟨⟩
    · rintro ⟨⟩
  · rename_i keys
    split
    · rintro ⟨⟩
    · rename_i named
      rintro ⟨⟩
      exact ⟨rfl, sound.chain? found, by simpa using named, by simpa using keys, by simpa using certain⟩

section

variable {shape : Option ShapeId} {path : Option Chain} {pattern site : NodeId}

/-- Where a name is bound, it names the new binding; a value is made for it if it has none. -/
theorem bindIdentifier_cases (tree : Tree) (Region : NodeId → Prop) (bindable : Bindable shape path before) :
    before.bindIdentifier tree pattern shape path kind site = before ∨
      ∃ middle binding, Course tree Region before [] middle ∧ Named tree middle pattern binding ∧
        before.bindIdentifier tree pattern shape path kind site = middle.introduce pattern binding := by
  unfold bindIdentifier
  split
  · exact .inl rfl
  rename_i name text
  by_cases neither : (path.isNone && shape.isNone) = true
  · rw [if_pos neither]
    have fresh : Obtains tree Region before (before.newUnknown .expression).1
      (before.newUnknown .expression).2 := obtains_new _ _ _ rfl
    refine .inr ⟨_, _, fresh.course, ⟨text, rfl, held_some fresh.held, ?_, ?_⟩, rfl⟩
    · simp only [Bool.and_eq_true, Option.isNone_iff_eq_none] at neither
      rw [neither.1]
      exact nofun
    · exact fun _ => Option.some_ne_none _
  · rw [if_neg neither]
    refine .inr ⟨_, _, .start, ⟨text, rfl, bindable.shape, bindable.path, fun pathless shapeless =>
      neither ?_⟩, rfl⟩
    rw [show path = none from pathless, show shape = none from shapeless]
    rfl

theorem course_bindIdentifier (bindable : Bindable shape path before) (region : Region pattern)
    (here : Here before pattern) :
    Course tree Region before [] (before.bindIdentifier tree pattern shape path kind site) := by
  rcases bindIdentifier_cases tree Region bindable with same | ⟨middle, binding, course, named, same⟩
  · rw [same]
    exact .start
  · rw [same]
    exact course.move (.bind region (course.here not_mem_nil here) named)

theorem course_declaredName (bindable : Bindable shape path before) (region : Region pattern)
    (child : pattern ∈ tree.children node) (here : Here before node) :
    ∃ trace, Course tree Region before trace
      (before.bindIdentifier tree pattern shape path kind site) ∧ trace.Subperm [pattern] := by
  rcases bindIdentifier_cases tree Region bindable with same | ⟨middle, binding, course, named, same⟩
  · rw [same]
    exact ⟨[], .start, nil_subperm⟩
  · rw [same]
    exact ⟨[pattern], course.name region child (course.here not_mem_nil here) named, .refl _⟩

end

section

variable (sound : before.Sound) {target site : NodeId}
include sound

theorem Sound.writeRoot (found : before.chain? tree target = some chain)
    (left : tree.child? site .left = some target)
    (region : ∀ node ∈ tree.rootIdentifier? target, Region node) :
    Course tree Region before [] (before.writeRoot tree target site chain.root).2 ∧
      ∀ id ∈ (before.writeRoot tree target site chain.root).1, ∃ binding shape,
        (before.writeRoot tree target site chain.root).2.scopes.binding? id = some binding ∧
          binding.shape = some shape := by
  have rooted := sound.chain? found
  cases root : chain.root with
  | binding id name =>
    rw [root] at rooted
    refine ⟨.start, fun other mem => ?_⟩
    cases mem
    obtain ⟨binding, atId, pathless⟩ := rooted
    obtain ⟨shape, holds⟩ :=
      Option.ne_none_iff_exists'.1 ((sound.bindings id binding atId).held pathless)
    exact ⟨binding, shape, atId, holds⟩
  | undeclared name =>
    obtain ⟨identifier, atRoot, _⟩ := root_undeclared found root
    have fresh : Obtains tree Region before (before.newShape (.object none [])).1
      (before.newShape (.object none [])).2 := obtains_new _ _ _ rfl
    let binding : Binding :=
      { name, kind := .implicit, scope := Scopes.root, node := site,
        shape := some (before.newShape (.object none [])).1 }
    have implied : Implied tree (before.newShape (.object none [])).2 identifier binding :=
      ⟨rfl, rfl, rfl, ⟨target, chain, left, atRoot, found, root⟩, held_some fresh.held,
        fun path mem => absurd mem (Option.not_mem_none path), fun _ => Option.some_ne_none _⟩
    have last : ((before.newShape (.object none [])).2.introduce identifier binding).scopes.binding?
        before.scopes.bindings.size = some binding := Array.getElem?_push_size
    unfold Pass.writeRoot
    rw [atRoot]
    refine ⟨fresh.course.move (.imply (region identifier atRoot) implied), fun other mem => ?_⟩
    cases mem
    exact ⟨binding, _, last, rfl⟩
  | _ =>
    refine ⟨.start, fun other mem => ?_⟩
    cases mem

theorem Sound.heldObject {binding : Binding} (atId : before.scopes.binding? id = some binding)
    (holds : binding.shape = some shape) (tree : Tree) (Region : NodeId → Prop) :
    Obtains tree Region before (before.heldObject id).1 (before.heldObject id).2 := by
  have held := (sound.bindings id binding atId).shape shape holds
  have found : (before.scopes.binding? id).bind Binding.shape = some shape := by
    rw [atId]
    exact holds
  unfold Pass.heldObject
  rw [found]
  exact ⟨(Move.promote shape).course, by simpa using held⟩

theorem Sound.writeThrough (held : value < before.shapes.size) (left : tree.child? site .left = some target)
    (region : ∀ node ∈ tree.rootIdentifier? target, Region node) :
    Course tree Region before [] (before.writeThrough tree target value site) := by
  unfold Pass.writeThrough
  split
  · exact .start
  rename_i chain found
  split
  · rename_i last _ _
    have root := sound.writeRoot found left region
    split
    · rename_i id middle run
      rw [run] at root
      obtain ⟨binding, shape, atId, holds⟩ := root.2 id rfl
      have soundMiddle := root.1.sound sound
      have object := soundMiddle.heldObject atId holds tree Region
      have holder := (object.sound soundMiddle).descend tree Region site chain.segments.dropLast
        object.held
      have course := (root.1.trans object.course).trans holder.course
      exact course.move (.write (Nat.lt_of_lt_of_le held course.grows.size_le))
    · rename_i run
      rw [run] at root
      exact root.1
  · exact .start

theorem Sound.memoize {mark : Mark} (region : Region node) (marked : before.marks[node]? = some mark)
    (later : tree.kind node = .object → tree.children node ≠ [] → mark.epoch < before.epoch) :
    Course tree Region before [] (before.memoize tree node) := by
  have made := (courses tree Region).gains_fixedShape sound node
  unfold Pass.memoize
  split
  · rename_i shape pass run
    rw [run] at made
    exact made.keeps.move (.fix region ⟨made.one, before, mark, sound, run, marked, later⟩)
  · rename_i pass run
    rw [run] at made
    exact made.keeps

end

theorem course_declareName {name : NodeId} {shape : String → Shape}
    (region : Region name) (bare : ∀ text, (shape text).writes = []) :
    ∃ trace, Course tree Region before trace (before.declareName tree node name kind shape) ∧
      trace.Subperm [name] := by
  unfold declareName
  split
  · exact ⟨[], .start, nil_subperm⟩
  rename_i text named
  have marked : Course tree Region before [name] (before.mark name) := .mark .start region
  have fresh := obtains_new tree Region (before.mark name) (bare text)
  have here := fresh.course.here not_mem_nil (here_mark before name)
  refine ⟨[name], (marked.trans fresh.course).move (.bind region here ⟨named, rfl, ?_⟩), .refl _⟩
  exact ⟨held_some fresh.held, nofun, fun _ => Option.some_ne_none _⟩

end Pass

end LeakTrace
