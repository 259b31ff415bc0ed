import LeakTrace.Proofs.Pattern.Balance
import LeakTrace.Proofs.Pattern.Simulation

namespace LeakTrace

open Option LeakTrace.Tree

variable {rest : Template} {pattern : Pattern}

mutual

/-- The template without its marks. What was marked and variadic becomes `rest`. -/
def Template.unmarked (rest : Template) : Template → Template
  | .node kind text anchored children => .node kind text anchored (children.unmarked rest)
  | .capture name kinds => .capture name kinds
  | .wildcard => .wildcard
  | .variadic => .variadic
  | .either first second => .either (Template.unmarked rest first) (Template.unmarked rest second)
  | .focus inner => if inner.isVariadic then rest else Template.unmarked rest inner

def Slots.unmarked (rest : Template) : Slots → Slots
  | .none => .none
  | .some role template others => .some role (Template.unmarked rest template) (others.unmarked rest)

end

mutual

/-- No mark stands before a variadic part. -/
def Template.marksSingle : Template → Bool
  | .node _ _ _ children => children.marksSingle
  | .capture _ _ => true
  | .wildcard => true
  | .variadic => true
  | .either first second => first.marksSingle && second.marksSingle
  | .focus inner => !inner.isVariadic && inner.marksSingle

def Slots.marksSingle : Slots → Bool
  | .none => true
  | .some _ template rest => template.marksSingle && rest.marksSingle

end

namespace Tree

variable {tree : Tree}

/-- Both runs have captured the same. -/
abbrev SameCaptures (found other : Partial) : Prop := found.captures = other.captures

theorem isVariadic_unmarked : (template : Template) → rest = .wildcard ∨ template.marksSingle = true →
    (Template.unmarked rest template).isVariadic = template.isVariadic
  | .node .., _ | .capture .., _ | .wildcard, _ | .variadic, _ | .either .., _ => rfl
  | .focus inner, apt => by
    rw [Template.marksSingle, Bool.and_eq_true] at apt
    rw [Template.unmarked]
    split
    · rename_i variadic
      rw [variadic] at apt
      rcases apt with rfl | ⟨single, _⟩
      · rfl
      · cases single
    · rename_i single
      rw [isVariadic_unmarked inner (apt.imp_right And.right)]
      exact Bool.eq_false_iff.2 single

theorem rel_code {id : NodeId} {found other : Partial} (same : SameCaptures found other) :
    Option.Rel SameCaptures (if tree.kind id == .comment then none else some found)
      (if tree.kind id == .comment then none else some other) := by
  split
  · exact .none
  · exact .some same

mutual

/-- The marks of a template make no difference to where it fits and to what it captures, but for one: what
is marked and variadic asks for one node. -/
theorem fit_unmarked : (template : Template) → {id : NodeId} → {found other : Partial} →
    rest = .wildcard ∨ template.marksSingle = true → SameCaptures found other →
    Option.Rel SameCaptures (tree.fit template id found) (tree.fit (Template.unmarked rest template) id other)
  | .wildcard, id, found, other, apt, same => by
    exact rel_code same
  | .variadic, id, found, other, apt, same => by
    exact rel_code same
  | .capture name kinds, id, found, other, apt, same => by
    rw [Template.unmarked, fit, fit, capture?, capture?, same]
    split
    · exact .none
    split
    · exact .none
    split
    · split
      · exact .some same
      · exact .none
    · exact .some rfl
  | .either first second, id, found, other, apt, same => by
    rw [Template.marksSingle, Bool.and_eq_true] at apt
    rw [Template.unmarked, fit_either, fit_either]
    exact rel_or (fit_unmarked first (apt.imp_right And.left) same)
      (fit_unmarked second (apt.imp_right And.right) same)
  | .focus inner, id, found, other, apt, same => by
    rw [Template.marksSingle, Bool.and_eq_true] at apt
    have inside : Option.Rel SameCaptures (tree.fit inner id found)
        (tree.fit (Template.unmarked rest (.focus inner)) id other) := by
      rw [Template.unmarked]
      split
      · rename_i variadic
        cases Slots.Parallel.eq_variadic variadic
        rcases apt with rfl | ⟨single, _⟩
        · rw [fit, fit]
          exact rel_code same
        · cases single
      · exact fit_unmarked inner (apt.imp_right And.right) same
    rw [fit]
    generalize tree.fit inner id found = success, tree.fit _ id other = twin at inside
    cases inside with
    | some same => exact .some same
    | none => exact .none
  | .node kind text anchored children, id, found, other, apt, same => by
    exact (parallel_unmarked children apt _).fit_node rfl rfl (List.map_id _).symm same kind text anchored

theorem parallel_unmarked : (slots : Slots) → rest = .wildcard ∨ slots.marksSingle = true →
    (nodes : List NodeId) →
    slots.Parallel id tree tree nodes (fun _ => SameCaptures) (slots.unmarked rest)
  | .none, _, nodes => .none
  | .some role template others, apt, nodes => by
    rw [Slots.marksSingle, Bool.and_eq_true] at apt
    have here := apt.imp_right And.left
    refine .slot (isVariadic_unmarked template here) (fun _ _ _ => id) (fun _ id _ found other same => ?_)
      (parallel_unmarked others (apt.imp_right And.right) nodes)
    rw [attempt, attempt, id_eq]
    split
    · exact fit_unmarked template here same
    · exact .none

end

end Tree

/-- Where a match was found, and what it captured. -/
def Match.extent (found : Match) : NodeId × Captures := (found.root, found.captures)

namespace Pattern

def unmarked (rest : Template) (pattern : Pattern) : Pattern :=
  { pattern with template := Template.unmarked rest pattern.template, focused := false }

theorem extent_unmarked
    (apt : rest = .wildcard ∨ pattern.template.marksSingle = true) (tree : Tree) (id : NodeId) :
    ((pattern.unmarked rest).matchAt? tree id).map Match.extent =
      (pattern.matchAt? tree id).map Match.extent := by
  have alike : Option.Rel SameCaptures (tree.fit pattern.template id {})
      (tree.fit (pattern.unmarked rest).template id {}) := fit_unmarked pattern.template apt rfl
  rw [matchAt?, matchAt?]
  split
  · rfl
  · rw [map_map, map_map]
    exact (map_eq_of_rel alike fun _ _ same => congrArg (id, ·) same).symm

/-- Marks change the reported node alone. With them taken off, a pattern matches at the same nodes with the
same captures, unless a mark stands before a variadic part: then the pattern matches as if one node were
asked for there. -/
theorem marks_unseen (pattern : Pattern) (tree : Tree) (id : NodeId) :
    (pattern.template.marksSingle = true → ((pattern.unmarked .variadic).matchAt? tree id).map Match.extent =
      (pattern.matchAt? tree id).map Match.extent) ∧
    ((pattern.unmarked .wildcard).matchAt? tree id).map Match.extent =
      (pattern.matchAt? tree id).map Match.extent :=
  ⟨fun single => extent_unmarked (.inr single) tree id, extent_unmarked (.inl rfl) tree id⟩

/-- The mark on an argument makes no difference; on a variadic part it makes the call without arguments fail. -/
theorem marks_unseen_argument :
    ∃ single rest, compile .javascript "r" "f($<!>$<X>)" = .ok single ∧ single.template.marksSingle = true ∧
      ((single.unmarked .variadic).matchAt? (Script.tree "f.js" "f(a);\n") 3).map Match.extent =
        some (3, ⟨[("X", 1)]⟩) ∧
      compile .javascript "r" "f($<!>$<...>)" = .ok rest ∧
      (rest.matchAt? (Script.tree "f.js" "f();\n") 2).map Match.extent = none ∧
      ((rest.unmarked .variadic).matchAt? (Script.tree "f.js" "f();\n") 2).map Match.extent =
        some (2, {}) := by
  obtain ⟨single, compiled, apt, found, rest, also, lost, kept⟩ :
      ∃ single, compile .javascript "r" "f($<!>$<X>)" = .ok single ∧ single.template.marksSingle = true ∧
      (single.matchAt? (Script.tree "f.js" "f(a);\n") 3).map Match.extent = some (3, ⟨[("X", 1)]⟩) ∧
      ∃ rest, compile .javascript "r" "f($<!>$<...>)" = .ok rest ∧
      (rest.matchAt? (Script.tree "f.js" "f();\n") 2).map Match.extent = none ∧
      ((rest.unmarked .variadic).matchAt? (Script.tree "f.js" "f();\n") 2).map Match.extent = some (2, {}) := by
    decide +kernel
  exact ⟨single, rest, compiled, apt, ((marks_unseen single _ 3).1 apt).trans found, also, lost, kept⟩

end Pattern

namespace Template

/-- The template without a mark on the whole of it. -/
def bare : Template → Template
  | .focus inner => inner
  | template => template

theorem isSome_fit_bare (template : Template) (tree : Tree) (id : NodeId) (found : Partial) :
    (tree.fit template.bare id found).isSome = (tree.fit template id found).isSome := by
  cases template with
  | focus inner =>
    rw [fit, isSome_map]
    rfl
  | _ => rfl

/-- A node of some kind, or one of two such. -/
inductive Concrete : Template → Prop
  | node (kind : Kind) (text : Option String) (anchored : Bool) (children : Slots) :
      Concrete (.node kind text anchored children)
  | either (kind second : Kind) (text texts : Option String) (anchored also : Bool) (children slots : Slots) :
      Concrete (.either (.node kind text anchored children) (.node second texts also slots))

/-- A concrete template fits nodes of two kinds at most. -/
theorem Concrete.exists_kinds {template : Template} (concrete : template.Concrete) :
    ∃ kind second, ∀ (tree : Tree) id found, tree.kind id ≠ kind → tree.kind id ≠ second →
      tree.fit template id found = none := by
  cases concrete with
  | node kind =>
    refine ⟨kind, kind, fun tree id found different _ => ?_⟩
    rw [fit, if_pos (by simp [different])]
  | either kind second =>
    refine ⟨kind, second, fun tree id found different unlike => ?_⟩
    rw [fit_either, fit, if_pos (by simp [different]), fit, if_pos (by simp [unlike])]
    rfl

end Template

/-- Under its mark, the template of a node is concrete, or that of a placeholder. -/
theorem Stencil.exists_inner (stencil : Stencil) (id : NodeId) :
    ∃ inner, stencil.template id = stencil.focused id inner ∧
      (inner.Concrete ∨ ∃ placeholder : Placeholder, inner = placeholder.template) := by
  cases stands : stencil.placeholder? id with
  | some placeholder => exact ⟨_, template_of_some stands, .inr ⟨placeholder, rfl⟩⟩
  | none =>
    refine ⟨_, template_of_none stands, ?_⟩
    have made := stencil.assembled_assemble id (stencil.parts id)
    generalize stencil.assemble id (stencil.parts id) = template at made
    cases made with
    | pair => exact .inr ⟨_, rfl⟩
    | plain => exact .inl (.node ..)
    | access => exact .inl (.either ..)
    | key => exact .inl (.either ..)

namespace Pattern

variable {language : Language} {rule source : String}

theorem concrete_of_compile (compiled : compile language rule source = .ok pattern) :
    pattern.template.bare.Concrete ∨
      ∃ placeholder : Placeholder, pattern.template = .focus placeholder.template := by
  obtain ⟨_, single, _, stencil, _, focus, _, same⟩ := template_of_compile compiled
  obtain ⟨inner, made, shape⟩ := Stencil.exists_inner { stencil with focus := focus } _
  rw [← same, Stencil.focused] at made
  split at made
  · rw [made]
    rcases shape with concrete | ⟨placeholder, rfl⟩
    · exact .inl concrete
    · exact .inr ⟨placeholder, rfl⟩
  rw [made] at single ⊢
  rcases shape with concrete | ⟨placeholder, rfl⟩
  · cases concrete
    · exact .inl (.node ..)
    · exact .inl (.either ..)
  · cases placeholder <;> cases single

/-- An accepted pattern is concrete under its mark, or it is a placeholder with the mark before it. It
matches every node of code if and only if it is a marked placeholder that captures nothing. -/
theorem accepted_concrete (compiled : compile language rule source = .ok pattern) :
    (pattern.template.bare.Concrete ∨
      ∃ placeholder : Placeholder, pattern.template = .focus placeholder.template) ∧
    ((∀ tree id, tree.kind id ≠ .comment → (pattern.matchAt? tree id).isSome = true) ↔
      pattern.template = .focus .wildcard ∨ pattern.template = .focus .variadic) := by
  have form := concrete_of_compile compiled
  refine ⟨form, fun everywhere => ?_, ?_⟩
  · -- a text that is compared is not captured, and three nodes of different kinds are not of two kinds
    let tree := Script.tree "f.js" "\"x\" == y;\n"
    have kinds : (tree.kind 0 = .string ∧ tree.isCompared 0 = true) ∧ tree.kind 1 = .identifier ∧
        tree.kind 2 = .binary := by
      decide +kernel
    have fits {id : NodeId} (code : tree.kind id ≠ .comment) :
        tree.fit pattern.template.bare id {} ≠ none := by
      have success := everywhere tree id code
      rwa [matchAt?, if_neg (by simpa using code), isSome_map, ← Template.isSome_fit_bare,
        isSome_iff_ne_none] at success
    rcases form with concrete | ⟨placeholder, marked⟩
    · obtain ⟨kind, second, refuses⟩ := concrete.exists_kinds
      obtain ⟨id, code, different, unlike⟩ : ∃ id, tree.kind id ≠ .comment ∧ tree.kind id ≠ kind ∧
          tree.kind id ≠ second := by
        grind
      exact absurd (refuses tree id {} different unlike) (fits code)
    · rw [marked] at fits ⊢
      cases placeholder with
      | capture name sorts =>
        have string : tree.kind 0 ≠ .comment := by simp [kinds.1.1]
        refine absurd ?_ (fits string)
        rw [Template.bare, Placeholder.template, fit, capture?, kinds.1.1, kinds.1.2]
        simp
      | wildcard => exact .inl rfl
      | variadic => exact .inr rfl
  · rintro (same | same) tree id code <;> simp [matchAt?, same, fit, code]

/-- The marked placeholder is accepted, and it matches every node of code. -/
theorem accepted_concrete_variadic :
    ∃ pattern, compile .javascript "r" "$<!>$<...>" = .ok pattern ∧
      ∀ tree id, tree.kind id ≠ .comment → (pattern.matchAt? tree id).isSome = true := by
  obtain ⟨pattern, compiled, variadic⟩ : ∃ pattern, compile .javascript "r" "$<!>$<...>" = .ok pattern ∧
      pattern.template.bare.isVariadic = true := by
    decide +kernel
  have accepted := accepted_concrete compiled
  refine ⟨pattern, compiled, accepted.2.2 ?_⟩
  rcases accepted.1 with concrete | ⟨placeholder, marked⟩
  · rw [Slots.Parallel.eq_variadic variadic] at concrete
    cases concrete
  · rw [marked] at variadic ⊢
    exact .inr (congrArg _ (Slots.Parallel.eq_variadic variadic))

end Pattern

end LeakTrace
