import LeakTrace.Proofs.Pattern.Embedding
import LeakTrace.Proofs.Pattern.Lowering

namespace LeakTrace

open List LeakTrace.Tree Template Placement

variable {tree : Tree} {pattern : Pattern} {children : List (Option Role × Template)}

mutual

/-- Both sides of every alternative capture nodes under the same names. -/
def Template.Balanced : Template → Prop
  | .node _ _ _ children => children.Balanced
  | .capture _ _ => True
  | .wildcard => True
  | .variadic => True
  | .either first second => first.Balanced ∧ second.Balanced ∧
    ∀ name, name ∈ first.captureNames ↔ name ∈ second.captureNames
  | .focus inner => inner.Balanced

def Slots.Balanced : Slots → Prop
  | .none => True
  | .some _ template rest => template.Balanced ∧ rest.Balanced

end

/-- The name to which a placement gives its node. -/
def Placement.name? (place : Placement) : Option String :=
  match place.part with
  | .capture name _ => some name
  | _ => none

theorem Placement.isSome_given? (name : String) (place : Placement) :
    (place.given? name).isSome = true ↔ place.name? = some name := by
  obtain ⟨part, node⟩ := place
  cases part with
  | capture key kinds => by_cases same : key = name <;> simp [given?, name?, same]
  | _ => simp [given?, name?]

theorem names_concat {placed : List Placement} {place : Placement} (nameless : place.name? = none) :
    (placed ++ [place]).filterMap name? = placed.filterMap name? := by
  simp [nameless]

namespace Tree

mutual

/-- The names of a balanced template are all given a node, whichever alternatives it takes. -/
theorem Embeds.names {template : Template} {id : NodeId} {placed : List Placement} :
    tree.Embeds template id placed → template.Balanced →
      ∀ name, name ∈ placed.filterMap name? ↔ name ∈ template.captureNames
  | .wildcard _, _, name => by simp [name?, captureNames]
  | .variadic _, _, name => by simp [name?, captureNames]
  | .capture _, _, name => by simp [name?, captureNames]
  | .first inner, balanced, name => by
    rw [names_concat rfl, inner.names balanced.1, captureNames, mem_append,
      ← balanced.2.2, or_self]
  | .second inner, balanced, name => by
    rw [names_concat rfl, inner.names balanced.2.1, captureNames, mem_append,
      balanced.2.2, or_self]
  | .focus inner, balanced, name => by
    rw [names_concat rfl, inner.names balanced, captureNames]
  | .anchored _ _ children, balanced, name => by
    obtain ⟨_, _, each⟩ := children.oneEach
    rw [names_concat rfl, each.names balanced, captureNames]
  | .loose _ _ _ children, balanced, name => by
    rw [names_concat rfl, children.names balanced, captureNames]

theorem OneEach.names {slots : Slots} {chosen : List NodeId} {placed : List Placement} :
    tree.OneEach slots chosen placed → slots.Balanced →
      ∀ name, name ∈ placed.filterMap name? ↔ name ∈ slots.captureNames
  | .done, _, name => by simp [Slots.captureNames]
  | .skip others, balanced, name => by
    simpa [Slots.captureNames, captureNames] using others.names balanced.2 name
  | .next _ _ inner others, balanced, name => by
    rw [filterMap_append, mem_append, Slots.captureNames, mem_append,
      inner.names balanced.1, others.names balanced.2]

end

end Tree

namespace Pattern

variable {id : NodeId} {found : Match}

/-- The pattern lists the names in its template, each of them once. -/
structure Listed (pattern : Pattern) : Prop where
  nodup : pattern.captures.Nodup
  mem : ∀ name, name ∈ pattern.captures ↔ name ∈ pattern.template.captureNames

theorem listed_of_eq (same : pattern.captures = pattern.template.captureNames.foldl Placeholder.note []) :
    pattern.Listed := by
  refine ⟨?_, fun name => ?_⟩
  · rw [same]
    exact Placeholder.nodup_foldl_note nodup_nil _
  · rw [same, Placeholder.mem_foldl_note, or_iff_right not_mem_nil]

/-- A match of a balanced pattern has a node under each of its names, and under no other. -/
theorem isSome_get?_of_matchAt? (listed : pattern.Listed) (balanced : pattern.template.Balanced)
    (run : pattern.matchAt? tree id = some found) (name : String) :
    (found.captures.get? name).isSome = true ↔ name ∈ pattern.captures := by
  obtain ⟨_, placed, result, embeds, takes, rfl⟩ := embeds_matchAt? run
  rw [listed.mem, ← embeds.names balanced, takes.get?, findSome?_isSome_iff, mem_filterMap]
  simp only [isSome_given?]

theorem names_of_matchAt? (listed : pattern.Listed) (balanced : pattern.template.Balanced)
    (run : pattern.matchAt? tree id = some found) :
    (found.captures.entries.map Prod.fst).Perm pattern.captures := by
  have distinct : found.captures.Distinct := by
    obtain ⟨_, placed, result, _, takes, rfl⟩ := embeds_matchAt? run
    exact takes.distinct
  refine (perm_ext_iff_of_nodup distinct listed.nodup).2 fun name => ?_
  rw [← isSome_get?_of_matchAt? listed balanced run, Option.isSome_iff_exists, mem_map]
  constructor
  · rintro ⟨entry, mem, rfl⟩
    exact ⟨entry.2, distinct.mem_entries.1 mem⟩
  · rintro ⟨node, given⟩
    exact ⟨(name, node), distinct.mem_entries.2 given, rfl⟩

end Pattern

namespace Slots

theorem balanced_ofList (balanced : ∀ child ∈ children, child.2.Balanced) : (ofList children).Balanced := by
  induction children with
  | nil => trivial
  | cons child rest ih =>
    exact ⟨balanced child mem_cons_self,
      ih fun other mem => balanced other (.tail _ mem)⟩

end Slots

theorem Placeholder.balanced_template (placeholder : Placeholder) : placeholder.template.Balanced := by
  cases placeholder <;> trivial

namespace Stencil

/-- In the access to a property, placeholders stand only in the object, or in the place of the property,
which then is not written out. -/
def Confined (stencil : Stencil) : Prop :=
  ∀ access < stencil.tree.size, stencil.tree.kind access = .member →
    ∀ child ∈ stencil.tree.codeChildren access, ∀ id ∈ stencil.tree.subtree child,
      (stencil.placeholder? id).isSome = true →
        stencil.tree.child? access .object = some child ∨
          stencil.tree.child? access .property = some child ∧ stencil.property? access = none

instance (stencil : Stencil) : Decidable stencil.Confined := by
  delta Confined
  infer_instance

variable {stencil : Stencil} {id : NodeId} {name : String} {placeholder : Placeholder}

theorem balanced_focused {template : Template} (balanced : template.Balanced) :
    (stencil.focused id template).Balanced := by
  unfold focused
  split
  · exact balanced
  · exact balanced

section

/-- The names of a node are those of its children, unless a placeholder stands for a whole pair. -/
theorem mem_captureNames_assemble (mem : name ∈ (stencil.assemble id children).captureNames) :
    (∃ child ∈ children, name ∈ child.2.captureNames) ∨
      ∃ value, stencil.tree.child? id .value = some value ∧ (stencil.placeholder? value).isSome = true := by
  have made := stencil.assembled_assemble id children
  generalize stencil.assemble id children = template at made mem
  cases made with
  | pair _ found =>
    obtain ⟨value, isValue, stands⟩ := value_of_pairPlaceholder? found
    exact .inr ⟨value, isValue, by rw [stands, Option.isSome_some]⟩
  | plain =>
    rw [captureNames, Slots.captureNames_ofList] at mem
    exact .inl (mem_flatMap.1 mem)
  | access =>
    rw [captureNames, mem_append, mem_captureNames_subscript, captureNames,
      Slots.captureNames_ofList] at mem
    rcases mem with direct | ⟨child, found, inside⟩
    · exact .inl (mem_flatMap.1 direct)
    · exact .inl ⟨child, mem_of_find?_eq_some found, inside⟩
  | key => simp [captureNames, leaf, Slots.captureNames] at mem

theorem exists_placeholder_of_mem (mem : name ∈ (stencil.template id).captureNames) :
    ∃ holder ∈ stencil.tree.subtree id, (stencil.placeholder? holder).isSome = true := by
  induction id using Nat.strongRecOn with | ind id ih
  cases stands : stencil.placeholder? id with
  | some placeholder =>
    exact ⟨id, stencil.tree.mem_subtree_self id, by rw [stands, Option.isSome_some]⟩
  | none =>
    rw [template_of_none stands, captureNames_focused] at mem
    rcases mem_captureNames_assemble mem with ⟨part, among, inside⟩ | ⟨value, isValue, holds⟩
    · obtain ⟨child, isChild, rfl⟩ := mem_map.1 among
      obtain ⟨holder, below, holds⟩ := ih child (lt_of_mem_codeChildren isChild) inside
      exact ⟨holder, mem_subtree_of_child (mem_children_of_codeChildren isChild) below, holds⟩
    · exact ⟨value, mem_subtree_of_child (mem_children_of_child? isValue)
        (stencil.tree.mem_subtree_self value), holds⟩

theorem balanced_subscript (balanced : ∀ child ∈ children, child.2.Balanced) (property : String) :
    (subscript children property).Balanced := by
  refine ⟨?_, trivial, trivial⟩
  split
  · rename_i found
    exact balanced _ (mem_of_find?_eq_some found)
  · trivial

/-- The template of a node is balanced if those of its children are, and if in an access to a property
only the object captures anything. -/
theorem balanced_assemble (balanced : ∀ child ∈ children, child.2.Balanced)
    (object : stencil.tree.kind id =
      .member → ∀ property, stencil.property? id = some property → ∀ child ∈ children, ∀ name ∈
      child.2.captureNames, children.find? (fun child => child.1 == some Role.object) = some child) :
    (stencil.assemble id children).Balanced := by
  have made := stencil.assembled_assemble id children
  generalize stencil.assemble id children = template at made
  cases made with
  | pair => exact Placeholder.balanced_template _
  | plain => exact Slots.balanced_ofList balanced
  | access isMember found =>
    refine ⟨Slots.balanced_ofList balanced, balanced_subscript balanced _, fun name => ?_⟩
    rw [mem_captureNames_subscript, captureNames, Slots.captureNames_ofList, mem_flatMap]
    constructor
    · rintro ⟨child, mem, inside⟩
      exact ⟨child, object isMember _ found child mem name inside, inside⟩
    · rintro ⟨child, first, inside⟩
      exact ⟨child, mem_of_find?_eq_some first, inside⟩
  | key => exact ⟨trivial, trivial, fun name => Iff.rfl⟩

end

theorem find?_parts {child : NodeId} (found : stencil.tree.child? id .object = some child)
    (code : child ∈ stencil.tree.codeChildren id) :
    (stencil.parts id).find? (fun part => part.1 == some Role.object) =
      some (stencil.tree.role child, stencil.template child) := by
  obtain ⟨plays, before, after, split, earlier⟩ := find?_eq_some_iff_append.1 found
  have isCode := (mem_filter.1 code).2
  have codes : stencil.tree.codeChildren id =
      (before.filter fun node => stencil.tree.kind node != .comment) ++
        child :: after.filter fun node => stencil.tree.kind node != .comment := by
    rw [codeChildren, split, filter_append,
      filter_cons_of_pos (p := fun node => stencil.tree.kind node != .comment) isCode]
  rw [parts, find?_map, Option.map_eq_some_iff]
  refine ⟨child, find?_eq_some_iff_append.2 ⟨plays, _, _, codes, fun other mem => ?_⟩, rfl⟩
  exact earlier other (mem_filter.1 mem).1

theorem lt_size_of_member (isMember : stencil.tree.kind id = .member) : id < stencil.tree.size := by
  rcases stencil.tree.node_eq id with outside | inside
  · rw [kind, outside] at isMember
    cases isMember
  · exact (Array.getElem?_eq_some_iff.1 inside).1

/-- The alternatives of a confined stencil's templates capture under the same names: what the subscript
form of a property leaves out holds no placeholder. -/
theorem balanced_template (confined : stencil.Confined) (id : NodeId) :
    (stencil.template id).Balanced := by
  induction id using Nat.strongRecOn with | ind id ih
  cases stands : stencil.placeholder? id with
  | some placeholder =>
    rw [template_of_some stands]
    exact balanced_focused placeholder.balanced_template
  | none =>
    rw [template_of_none stands]
    refine balanced_focused (balanced_assemble ?_ ?_)
    · intro part mem
      obtain ⟨child, isChild, rfl⟩ := mem_map.1 mem
      exact ih child (lt_of_mem_codeChildren isChild)
    -- the subscript form keeps the object only, so no other child may capture anything
    intro isMember property written part mem name inside
    obtain ⟨child, isChild, rfl⟩ := mem_map.1 mem
    obtain ⟨holder, below, holds⟩ := exists_placeholder_of_mem inside
    rcases confined id (lt_size_of_member isMember) isMember child isChild holder below holds with
      object | ⟨_, unwritten⟩
    · exact find?_parts object isChild
    · rw [unwritten] at written
      cases written

end Stencil

namespace Pattern

/-- The tree that the text of a pattern is read as, with its placeholders. -/
def drawn? (language : Language) (source : String) : Option Stencil := do
  let snippet ← (Snippet.ofText source).toOption
  let tree ← (Source.snippet language snippet.text).toOption
  return { tree, placeholders := snippet.placeholders }

/-- Placeholders stand in the accesses to properties only where the stencil of the text may have them. -/
def Confined (language : Language) (source : String) : Prop :=
  ∀ stencil ∈ drawn? language source, stencil.Confined

instance (language : Language) (source : String) : Decidable (Confined language source) := by
  delta Confined
  infer_instance

variable {language : Language} {rule source : String}

/-- The template of a pattern is that of the topmost node of the tree that its text is read as. It is no
placeholder by itself. -/
theorem template_of_compile (compiled : compile language rule source = .ok pattern) :
    pattern.source = source ∧ pattern.template.isPlaceholder = false ∧ pattern.Listed ∧
      ∃ stencil ∈ drawn? language source, ∃ focus, pattern.focused = focus.isSome ∧
        pattern.template = { stencil with focus := focus }.template
          (stencil.tree.unwrapped stencil.tree.root) := by
  unfold compile at compiled
  split at compiled
  · rename_i text
    cases compiled
    obtain ⟨snippet, read, text⟩ := bind_eq_ok.1 text
    simp only [throw, throwThe, MonadExceptOf.throw, bind, Except.bind, pure, Except.pure,
      Stencil.lower_eq] at text
    split at text
    · rename_i tree parsed
      have drawn : drawn? language source = some { tree, placeholders := snippet.placeholders } := by
        rw [drawn?, read, Except.toOption, Option.bind_eq_bind, Option.bind_some, parsed]
        rfl
      split at text
      · cases text
      split at text
      · split at text
        · split at text
          · cases text
          · rename_i concrete
            cases text
            exact ⟨rfl, Bool.eq_false_iff.2 concrete, listed_of_eq rfl, _, drawn, _, rfl, rfl⟩
        · cases text
      · split at text
        · cases text
        · rename_i concrete
          cases text
          exact ⟨rfl, Bool.eq_false_iff.2 concrete, listed_of_eq rfl, _, drawn, _, rfl, rfl⟩
    · cases text
  · cases compiled

theorem balanced_of_compile (compiled : compile language rule source = .ok pattern)
    (confined : Confined language source) : pattern.template.Balanced := by
  obtain ⟨_, _, _, stencil, drawn, focus, _, same⟩ := template_of_compile compiled
  have refocused : Stencil.Confined { stencil with focus := focus } := confined stencil drawn
  rw [same]
  exact Stencil.balanced_template refocused _

end Pattern

end LeakTrace
