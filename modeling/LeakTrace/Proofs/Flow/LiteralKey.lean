import LeakTrace.Proofs.Flow.Access
import LeakTrace.Proofs.Flow.Declaration
import LeakTrace.Proofs.Flow.Merging

namespace LeakTrace

open List Pass Model Option

variable {tree : Tree} {kind : Kind} {text : String} {node key value pair : NodeId} {blocks : Bool}
  {shape : ShapeId} {later : List Write}

/-- The field that a literal names as a key. A number below the bound of words names an element, all else is
a name. -/
def Key.ofLiteral (kind : Kind) (text : String) : Key :=
  match kind with
  | .number => match Text.word? text with
    | some position => .element position
    | none => .name text
  | _ => .name text

/-- An index can be this literal: it is a string, or a number below the bound of words. -/
def Key.IsIndex (kind : Kind) (text : String) : Prop :=
  kind = .string ∨ ∃ position, Text.word? text = some position

namespace Tree

/-- The node is a string or a number with this text. -/
@[mk_iff] structure Spells (tree : Tree) (kind : Kind) (text : String) (node : NodeId) : Prop where
  literal : kind = .string ∨ kind = .number
  kind : tree.kind node = kind
  text : tree.text node = some text

/-- The pair stands in a literal or a pattern and has this key and value. -/
@[mk_iff] structure Pairs (tree : Tree) (holder key value pair : NodeId) : Prop where
  member : pair ∈ tree.codeChildren holder
  kind : tree.kind pair = .pair
  key : tree.child? pair .key = some key
  value : tree.child? pair .value = some value

/-- The node is an index into the object. -/
@[mk_iff] structure Subscripts (tree : Tree) (object index node : NodeId) : Prop where
  kind : tree.kind node = .index
  object : tree.child? node .object = some object
  index : tree.child? node .index = some index

/-- Where a value is taken apart, an entry with the key gives a name to what is there. The keys lead from the
value to the object that the entry is for. -/
structure Extracts (tree : Tree) (site source : NodeId) (keys : List Key) (key name : NodeId) : Prop where
  evaluated : tree.Evaluated site
  source : tree.source? site = some source
  entry : ∃ top pattern entry, tree.pattern? site = some top ∧ tree.Reaches top (some keys) pattern ∧
    tree.kind pattern = .objectPattern ∧ tree.Pairs pattern key name entry
  identifier : tree.kind name = .identifier
  labelled : (tree.text name).isSome

variable {object index holder : NodeId}

instance : Decidable (tree.Spells kind text node) :=
  decidable_of_iff _ (spells_iff tree kind text node).symm

instance : Decidable (tree.Pairs holder key value pair) :=
  decidable_of_iff _ (pairs_iff tree holder key value pair).symm

instance : Decidable (tree.Subscripts object index node) :=
  decidable_of_iff _ (subscripts_iff tree object index node).symm

section

variable (spells : tree.Spells kind text node)
include spells

theorem Spells.entryKey? : tree.entryKey? node = some (.ofLiteral kind text) := by
  rw [Tree.entryKey?, spells.text, bind_some, spells.kind]
  rcases spells.literal with rfl | rfl
  · rfl
  · cases word : Text.word? text <;> simp only [Key.ofLiteral, word]

theorem Spells.indexKey? (indexes : Key.IsIndex kind text) :
    tree.indexKey? node = some (.ofLiteral kind text) := by
  rw [Tree.indexKey?, spells.text, spells.kind]
  rcases spells.literal with rfl | rfl
  · rfl
  · obtain ⟨position, word⟩ := indexes.resolve_left (by decide)
    simp only [Key.ofLiteral, bind_some, word, map_some]

theorem Spells.indexKey?_eq_none (other : ¬Key.IsIndex kind text) : tree.indexKey? node = none := by
  obtain ⟨named, wordless⟩ := not_or.1 other
  refine indexKey?_of_computed (fun string => absurd (spells.kind.symm.trans string) named) ?_
  intro written _ same
  cases spells.text.symm.trans same
  exact eq_none_iff_forall_ne_some.2 fun position word => wordless ⟨position, word⟩

end

theorem Subscripts.accesses (subscripts : tree.Subscripts object index node) :
    tree.Accesses object (tree.indexKey? index) node :=
  accesses_index subscripts.kind subscripts.object subscripts.index

variable (pairs : tree.Pairs holder key value pair)
include pairs

theorem Pairs.ownKey? : tree.ownKey? pair = tree.entryKey? key := by
  simp only [Tree.ownKey?, pairs.kind, pairs.value, pairs.key, bind_some]

theorem Pairs.ownValue? : tree.ownValue? pair = some value := by
  simp only [Tree.ownValue?, pairs.kind, pairs.value]

theorem Pairs.mem_below : value ∈ tree.below holder := by
  have inner := mem_subtree_child (mem_children_of_child? pairs.value)
  exact mem_flatMap.2 ⟨pair, mem_children_of_codeChildren pairs.member, inner⟩

end Tree

/-- A field is read from a write as long as no later write to it is seen. -/
theorem Shape.fieldAt_of_history {shape : Shape} {earlier : List Write} {own : Write} {epoch : Nat}
    (history : shape.history = earlier ++ own :: later) (made : own.epoch ≤ epoch)
    (unwritten : ∀ write ∈ later, write.key = own.key → epoch < write.epoch) :
    shape.fieldAt own.key epoch = some own.shape := by
  have last : Write.Last (shape.history.filter fun write => write.epoch ≤ epoch) own.key own := by
    refine ⟨rfl, earlier.filter fun write => write.epoch ≤ epoch,
      later.filter fun write => write.epoch ≤ epoch, ?_, fun write mem same => ?_⟩
    · rw [history, filter_append, filter_cons, if_pos (decide_eq_true made)]
    · obtain ⟨among, seen⟩ := mem_filter.1 mem
      exact absurd (unwritten write among same) (Nat.not_lt_of_le (of_decide_eq_true seen))
  rw [fieldAt_eq_last?, Write.last?_eq_some.2 last, map_some]

namespace Pass

variable {limit : Nat} {before after final : Pass}

theorem Visited.exists_object (visited : Visited tree blocks limit final node) (proper : tree.Proper)
    (literal : tree.kind node = .object) : ∃ shape, final.fixed[node]? = some shape := by
  obtain ⟨_, middle, _, _, _, extend⟩ := visited.exists_memoize proper
  have kept := extend.outside (by rw [literal]; rfl)
  rw [memoize_object literal] at kept
  refine ⟨(middle.buildObject tree node).1, (kept.fixed node fun outside => ?_).trans ?_⟩
  · exact outside (tree.mem_subtree_self node)
  · exact Std.TreeMap.getElem?_insert_self

theorem Holds.of_fixed {own : ShapeId} (holds : Holds tree before after value shape) (sound : before.Sound)
    (fixed : before.fixed[value]? = some own) : shape = own := by
  have known : shapeOf tree value before = (own, before) := by rw [shapeOf_eq, fixed]
  rcases holds with ⟨same, _⟩ | ⟨origin, unknown, _⟩
  · exact (Prod.mk.inj (same.symm.trans known)).1
  · have fresh : own = before.shapes.size := (Prod.mk.inj (known.symm.trans unknown)).1
    exact absurd (sound.fixed value own fixed) (Nat.not_lt_of_le (Nat.le_of_eq fresh.symm))

end Pass

namespace Model

variable {limits : Limits} {model : Model} {literal : NodeId} {field : Key} {object : ShapeId}
  {site name : NodeId}

/-- A pair of a literal sets the field of the object, and the writes `later` follow. The field gets the shape
that the value has when the literal is built. -/
structure Sets (model : Model) (literal pair value : NodeId) (field : Key) (object shape : ShapeId)
    (later : List Write) : Prop where
  found : model.shapeOf? literal = some object
  built : ∃ before, model.BuildsFrom literal before ∧ (before.buildObject model.tree literal).1 = object ∧
    Holds model.tree before (before.buildObject model.tree literal).2 value shape ∧
    ∃ last earlier, model.shapes.get? object = some last ∧
      last.history = earlier ++ ⟨field, shape, before.epoch, pair⟩ :: later
  known : ∀ own, model.fixed[value]? = some own → model.shapeOf? value = some shape

/-- The node is evaluated after the literal, and before any later write to the field. -/
structure Sees (model : Model) (literal : NodeId) (field : Key) (later : List Write) (node : NodeId) :
    Prop where
  after : ∀ inner ∈ model.tree.subtree literal, model.epochOf inner ≤ model.epochOf node
  unwritten : ∀ write ∈ later, write.key = field → model.epochOf node < write.epoch

/-- Each pair with a literal key sets the field that the key names. -/
theorem exists_sets (proper : tree.Proper) (analysed : ofTree tree blocks limits = .ok model)
    (evaluated : tree.Evaluated literal) (isObject : tree.kind literal = .object)
    (pairs : tree.Pairs literal key value pair) (spells : tree.Spells kind text key) :
    ∃ object shape later, model.Sets literal pair value (.ofLiteral kind text) object shape later := by
  have atTree := tree_of_ofTree analysed
  obtain ⟨object, found⟩ : ∃ object, model.shapeOf? literal = some object := by
    obtain ⟨final, run, rfl⟩ := ofTree_eq_ok.1 analysed
    rw [shapeOf?_object isObject]
    exact (visited_of_evaluated proper run evaluated).exists_object proper isObject
  obtain ⟨before, held, built, last, later, builds, same, holds, _, made, atLast, history⟩ :=
    exists_merged proper analysed isObject found
  have own : tree.ownKey? pair = some (.ofLiteral kind text) := pairs.ownKey?.trans spells.entryKey?
  have holdsValue := holds pair pairs.member _ value own pairs.ownValue?
  obtain ⟨earlier, others, split⟩ := append_of_mem pairs.member
  have setting : before.settings tree held pair =
      [⟨.ofLiteral kind text, held pair, before.epoch, pair⟩] := by rw [settings, own]
  subst atTree
  refine ⟨object, held pair, others.flatMap (before.settings model.tree held) ++ later, found,
    ⟨before, builds, same, holdsValue, last, earlier.flatMap (before.settings model.tree held), atLast, ?_⟩,
    fun known fixed => ?_⟩
  · rw [history, made, split, flatMap_append, flatMap_cons, setting, append_assoc,
      append_assoc, singleton_append]
  · have earlierFixed := (builds.fixed value pairs.mem_below).symm.trans fixed
    rw [shapeOf?_eq, fixed, holdsValue.of_fixed builds.sound earlierFixed]

/-- The path to the field leads to the value wherever the field is still seen. -/
theorem Sets.terminus (sets : model.Sets literal pair value field object shape later)
    (sees : model.Sees literal field later node) {id : BindingId} {binding : Binding} {name : String}
    (atId : model.scopes.binding? id = some binding) (holds : binding.shape = some object) :
    model.scopes.terminus model.shapes { root := .binding id name, segments := [field] }
      (model.epochOf node) = some shape := by
  obtain ⟨before, builds, _, _, last, earlier, atLast, history⟩ := sets.built
  have made : before.epoch ≤ model.epochOf node := by
    obtain ⟨inner, inside, mark, marked, latest⟩ := builds.latest
    rw [← latest, ← epochOf_of_marked marked]
    exact sees.after inner inside
  have read := Shape.fieldAt_of_history history made sees.unwritten
  simp only [Scopes.terminus, atId, bind_some, holds, Bool.false_eq_true, if_false,
    foldlM_cons, foldlM_nil, ShapeStore.fieldAt, atLast, read, bind_pure]

/-- A name that is extracted from under a literal key stands for the path to the field that the key names. -/
theorem exists_extracted {source : NodeId} {keys : List Key} {chain : Chain} (proper : tree.Proper)
    (analysed : ofTree tree blocks limits = .ok model) (extracts : tree.Extracts site source keys key name)
    (spells : tree.Spells kind text key) (resolved : model.chain? source = some chain)
    (named : chain.isUnnamed = false) (certain : chain.unknownTail = false) :
    ∃ id binding, model.resolution name = .bound id ∧ model.scopes.binding? id = some binding ∧
      binding.path = some { chain with segments := chain.segments ++ keys ++ [.ofLiteral kind text] } := by
  obtain ⟨final, run, rfl⟩ := ofTree_eq_ok.1 analysed
  obtain ⟨top, pattern, entry, takes, reaches, isObject, pairs⟩ := extracts.entry
  obtain ⟨label, written⟩ := isSome_iff_exists.1 extracts.labelled
  obtain ⟨shaped, sound, taken, kept⟩ :=
    (visited_of_evaluated proper run extracts.evaluated).pattern proper takes
  have same : final.chain? tree source = shaped.chain? tree source :=
    (kept source extracts.source).chain?_eq sound fun identifier root outside =>
      outside (mem_subtree_rootIdentifier? root)
  have found : shaped.chain? tree source = some chain := same.symm.trans resolved
  have whole : (tree.source? site).bind (shaped.patternChain? tree) = some chain := by
    simp [extracts.source, patternChain?, found, certain]
  rw [whole] at taken
  obtain ⟨id, binding, bound, atId, _, stands⟩ := ((taken.reaches proper reaches).share proper (.key _)
    (Tree.mem_bindActions_of_pair isObject pairs.member pairs.kind pairs.value)).exists_binding
      extracts.identifier written
  refine ⟨id, binding, resolution_model bound, atId, stands.trans ?_⟩
  have unnamed : ({ chain with segments := chain.segments ++ keys ++ [.ofLiteral kind text] } :
      Chain).isUnnamed = false := named
  rw [pairs.key, bind_some, spells.entryKey?]
  refine filter_eq_some_iff.2 ⟨rfl, ?_⟩
  rw [unnamed]
  simp

theorem exists_holder (proper : tree.Proper) (analysed : ofTree tree blocks limits = .ok model)
    (evaluated : tree.Evaluated site) (declares : tree.Declares site name literal)
    (isObject : tree.kind literal = .object) (found : model.shapeOf? literal = some object) :
    ∃ id binding, model.resolution name = .bound id ∧ model.scopes.binding? id = some binding ∧
      binding.path = none ∧ binding.shape = some object := by
  obtain ⟨final, run, rfl⟩ := ofTree_eq_ok.1 analysed
  rw [shapeOf?_object isObject] at found
  obtain ⟨id, binding, shape, bound, atId, pathless, holds, same, _⟩ :=
    (visited_of_evaluated proper run evaluated).exists_held proper declares (by rw [isObject]; rfl)
  exact ⟨id, binding, resolution_model bound, atId, pathless,
    holds.trans (congrArg some (same object found))⟩

/-- A literal key means the same field in literals, in patterns and, unless it is a number that is no word, in
subscripts. A pair of a literal sets the field to its value, an entry of a pattern gives a name to the field,
and a subscript goes on to the field. So from a name that was given a literal, later subscripts and
patterns with the key of a pair lead to the value of the pair, until the field is written again. A subscript
by a number that is no word goes on by an unknown key, and leads nowhere. -/
theorem literal_keys (proper : tree.Proper) (analysed : ofTree tree blocks limits = .ok model)
    (kind : Kind) (text : String) :
    (∀ object index node, tree.Subscripts object index node → tree.Spells kind text index →
      (Key.IsIndex kind text →
        model.chain? node = (model.origin? object).map (·.step (some (.ofLiteral kind text)))) ∧
      (¬Key.IsIndex kind text → model.chain? node = (model.origin? object).map (·.step none))) ∧
    (∀ site source keys key name chain, tree.Extracts site source keys key name → tree.Spells kind text key →
      model.chain? source = some chain → chain.isUnnamed = false → chain.unknownTail = false →
      ∃ id binding, model.resolution name = .bound id ∧ model.scopes.binding? id = some binding ∧
        binding.path = some { chain with segments := chain.segments ++ keys ++ [.ofLiteral kind text] }) ∧
    ∀ literal key value pair, tree.Evaluated literal → tree.kind literal = .object →
      tree.Pairs literal key value pair → tree.Spells kind text key →
      ∃ object shape later, model.Sets literal pair value (.ofLiteral kind text) object shape later ∧
        ∀ site name, tree.Evaluated site → tree.Declares site name literal →
          ∃ id, model.resolution name = .bound id ∧
            (∀ reference index node, tree.kind reference = .identifier →
              model.resolution reference = .bound id → tree.Subscripts reference index node →
              tree.Spells kind text index →
              (Key.IsIndex kind text → model.Sees literal (.ofLiteral kind text) later node →
                model.shapeOf? node = some shape) ∧
              (¬Key.IsIndex kind text → model.shapeOf? node = none)) ∧
            ∀ taker source other extracted inner reference, tree.kind source = .identifier →
              model.resolution source = .bound id → tree.Extracts taker source [] other extracted →
              tree.Spells kind text other → model.resolution extracted = .bound inner →
              tree.kind reference = .identifier → model.resolution reference = .bound inner →
              model.Sees literal (.ofLiteral kind text) later reference →
              model.shapeOf? reference = some shape := by
  have goes {object index node : NodeId} (subscripts : tree.Subscripts object index node) :=
    chain?_of_accesses analysed subscripts.accesses
  refine ⟨fun object index node subscripts spells => ⟨fun indexes => ?_, fun other => ?_⟩,
    fun site source keys key name chain extracts spells => exists_extracted proper analysed extracts spells,
    fun literal key value pair evaluated isObject pairs spells => ?_⟩
  · rw [goes subscripts, spells.indexKey? indexes]
  · rw [goes subscripts, spells.indexKey?_eq_none other]
  · obtain ⟨object, shape, later, sets⟩ := exists_sets proper analysed evaluated isObject pairs spells
    refine ⟨object, shape, later, sets, fun site name declared declares => ?_⟩
    obtain ⟨id, binding, bound, atId, pathless, holds⟩ :=
      exists_holder proper analysed declared declares isObject sets.found
    have starts {reference : NodeId} (identifier : tree.kind reference = .identifier)
        (refers : model.resolution reference = .bound id) :=
      (exists_chain?_of_reference proper analysed identifier refers atId).1 pathless
    refine ⟨id, bound, fun reference index node identifier refers subscripts spelled => ?_,
      fun taker source other extracted inner reference identifier refers extracts spelled bound named again
        sees => ?_⟩
    · obtain ⟨label, start⟩ := starts identifier refers
      have access : (model.tree.kind reference).isAccess = true := by
        rw [tree_of_ofTree analysed, identifier]
        rfl
      have path := goes subscripts
      rw [origin?_of_isAccess access, start, map_some] at path
      rw [shapeOf?_of_isAccess proper analysed subscripts.accesses.isAccess, path, bind_some]
      refine ⟨fun indexes sees => ?_, fun unknown => ?_⟩
      · rw [spelled.indexKey? indexes]
        exact sets.terminus sees atId holds
      · rw [spelled.indexKey?_eq_none unknown]
        rfl
    · obtain ⟨label, start⟩ := starts identifier refers
      obtain ⟨_, _, same, atInner, stands⟩ := exists_extracted proper analysed extracts spelled start rfl rfl
      cases Resolution.bound.inj (bound.symm.trans same)
      have path := (exists_chain?_of_reference proper analysed named again atInner).2 _ stands
      rw [shapeOf?_of_isAccess proper analysed (by rw [named]; rfl), path, bind_some]
      exact sets.terminus sees atId holds

/-- In `const o = { 1: "x", 1.5: "y" }; const { 1.5: z } = o; sink(o[1], o[1.5], z);` the subscript `o[1]` and
the name `z` lead to the values of the pairs, while `o[1.5]` leads nowhere. -/
theorem literal_keys_fraction :
    let tree := Script.tree "keys.js"
      "const o = \x7b 1: \"x\", 1.5: \"y\" \x7d;\nconst \x7b 1.5: z \x7d = o;\nsink(o[1], o[1.5], z);\n"
    ∃ model, tree.Proper ∧ ofTree tree false {} = .ok model ∧ tree.Declares 8 0 7 ∧
      tree.Pairs 7 1 2 3 ∧ tree.Spells .number "1" 1 ∧ tree.Pairs 7 4 5 6 ∧ tree.Spells .number "1.5" 4 ∧
      tree.Subscripts 18 19 20 ∧ tree.Spells .number "1" 19 ∧
      model.shapeOf? 2 = some 0 ∧ model.shapeOf? 20 = some 0 ∧
      tree.Extracts 15 14 [] 10 11 ∧ tree.Spells .number "1.5" 10 ∧
      model.shapeOf? 5 = some 1 ∧ model.shapeOf? 24 = some 1 ∧
      tree.Subscripts 21 22 23 ∧ tree.Spells .number "1.5" 22 ∧
      model.chain? 23 = some { root := .binding 0 "o", unknownTail := true } ∧ model.shapeOf? 23 = none := by
  intro tree
  have proper : tree.Proper := Outline.proper_toTree _ _ _ _
  obtain ⟨model, analysed, atO, atSource, atFirst, atSecond, atZ, atUse, fixedX, fixedY, shapeX, shapeY, start,
      shapeO, distinct, after⟩ : ∃ model, ofTree tree false {} = .ok model ∧
      model.resolution 0 = .bound 0 ∧ model.resolution 14 = .bound 0 ∧ model.resolution 18 = .bound 0 ∧
      model.resolution 21 = .bound 0 ∧ model.resolution 11 = .bound 1 ∧ model.resolution 24 = .bound 1 ∧
      model.fixed[2]? = some 0 ∧ model.fixed[5]? = some 1 ∧ model.shapeOf? 2 = some 0 ∧
      model.shapeOf? 5 = some 1 ∧ model.chain? 21 = some { root := .binding 0 "o" } ∧
      model.shapeOf? 7 = some 2 ∧ (∀ last ∈ model.shapes.get? 2, (last.history.map Write.key).Nodup) ∧
      ∀ inner ∈ tree.subtree 7, model.epochOf inner ≤ model.epochOf 20 ∧
        model.epochOf inner ≤ model.epochOf 24 := by
    decide +kernel
  obtain ⟨⟨statement, declaration, value, taking, taker⟩, ⟨declares, pairX, pairY, entry, whole, fraction⟩,
      ⟨keyX, indexX, keyY, entryY, indexY⟩, ⟨literal, source, first, second, use⟩, takes, top, isObject,
      identifier, labelled⟩ :
      (9 ∈ tree.operands tree.root ∧ 8 ∈ tree.operands 9 ∧ 7 ∈ tree.operands 8 ∧
        16 ∈ tree.operands tree.root ∧ 15 ∈ tree.operands 16) ∧
      (tree.Declares 8 0 7 ∧ tree.Pairs 7 1 2 3 ∧ tree.Pairs 7 4 5 6 ∧ tree.Pairs 13 10 11 12 ∧
        tree.Subscripts 18 19 20 ∧ tree.Subscripts 21 22 23) ∧
      (tree.Spells .number "1" 1 ∧ tree.Spells .number "1" 19 ∧ tree.Spells .number "1.5" 4 ∧
        tree.Spells .number "1.5" 10 ∧ tree.Spells .number "1.5" 22) ∧
      (tree.kind 7 = .object ∧ tree.kind 14 = .identifier ∧ tree.kind 18 = .identifier ∧
        tree.kind 21 = .identifier ∧ tree.kind 24 = .identifier) ∧
      tree.source? 15 = some 14 ∧ tree.pattern? 15 = some 13 ∧ tree.kind 13 = .objectPattern ∧
      tree.kind 11 = .identifier ∧ (tree.text 11).isSome := by
    decide +kernel
  have extracts : tree.Extracts 15 14 [] 10 11 :=
    ⟨.operand (.operand .root taking) taker, takes, ⟨13, 13, 12, top, .top, isObject, entry⟩, identifier,
      labelled⟩
  have declared : tree.Evaluated 8 := .operand (.operand .root statement) declaration
  have unwritten {pair value : NodeId} {field : Key} {object shape : ShapeId} {later : List Write}
      (sets : model.Sets 7 pair value field object shape later) : ∀ write ∈ later, write.key ≠ field := by
    cases sets.found.symm.trans shapeO
    obtain ⟨_, _, _, _, last, _, atLast, history⟩ := sets.built
    have distinct := distinct last atLast
    rw [history, map_append, map_cons] at distinct
    intro write member same
    exact (nodup_cons.1 (nodup_append.1 distinct).2.1).1 (mem_map.2 ⟨write, member, same⟩)
  have wordX : Key.IsIndex .number "1" := .inr ⟨1, by decide +kernel⟩
  have wordless : ¬Key.IsIndex .number "1.5" := by
    have none : Text.word? "1.5" = none := by decide +kernel
    simp [Key.IsIndex, none]
  rw [← tree_of_ofTree analysed] at after
  obtain ⟨_, _, storedX⟩ := literal_keys proper analysed .number "1"
  obtain ⟨subscripts, _, storedY⟩ := literal_keys proper analysed .number "1.5"
  have evaluated : tree.Evaluated 7 := .operand declared value
  obtain ⟨_, x, laterX, setsX, namedX⟩ := storedX 7 1 2 3 evaluated literal pairX keyX
  obtain ⟨_, y, laterY, setsY, namedY⟩ := storedY 7 4 5 6 evaluated literal pairY keyY
  obtain ⟨id, bound, readX, _⟩ := namedX 8 0 declared declares
  obtain ⟨other, boundY, readY, extractedY⟩ := namedY 8 0 declared declares
  cases Resolution.bound.inj (atO.symm.trans bound)
  cases Resolution.bound.inj (atO.symm.trans boundY)
  cases shapeX.symm.trans (setsX.known 0 fixedX)
  cases shapeY.symm.trans (setsY.known 1 fixedY)
  have seesX : model.Sees 7 (.ofLiteral .number "1") laterX 20 :=
    ⟨fun inner inside => (after inner inside).1,
      fun write among same => absurd same (unwritten setsX write among)⟩
  have seesY : model.Sees 7 (.ofLiteral .number "1.5") laterY 24 :=
    ⟨fun inner inside => (after inner inside).2,
      fun write among same => absurd same (unwritten setsY write among)⟩
  have path := (subscripts 21 22 23 fraction indexY).2 wordless
  rw [origin?_of_isAccess (by rw [tree_of_ofTree analysed, second]; rfl), start] at path
  exact ⟨model, proper, analysed, declares, pairX, keyX, pairY, keyY, whole, indexX, shapeX,
    (readX 18 19 20 first atFirst whole indexX).1 wordX seesX, extracts, entryY, shapeY,
    extractedY 15 14 10 11 1 24 source atSource extracts entryY atZ use atUse seesY, fraction, indexY, path,
    (readY 21 22 23 second atSecond fraction indexY).2 wordless⟩

end Model

end LeakTrace
