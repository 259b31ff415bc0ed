import LeakTrace.Proofs.Pattern.Alignment
import LeakTrace.Proofs.Pattern.Marker
import LeakTrace.Proofs.Tree.Respelled

namespace LeakTrace

open List LeakTrace.Tree Respelling

variable {r : Respelling} {id : NodeId}

section Mapped

variable (place : NodeId → NodeId) (captures : Captures)

/-- The captures with every node in its place in another tree. -/
def Captures.mapped : Captures :=
  ⟨captures.entries.map fun entry => (entry.1, place entry.2)⟩

def Partial.mapped (found : Partial) : Partial := ⟨found.captures.mapped place, found.focus.map place⟩

def Match.mapped (found : Match) : Match :=
  ⟨place found.node, place found.root, found.captures.mapped place⟩

theorem Captures.get?_mapped (name : String) :
    (captures.mapped place).get? name = (captures.get? name).map place := by
  rw [get?, get?, mapped]
  induction captures.entries with
  | nil => rfl
  | cons entry rest ih =>
    rw [map_cons, lookup_cons, lookup_cons]
    split
    · rfl
    · exact ih

theorem Captures.insert_mapped (name : String) (node : NodeId) :
    (captures.mapped place).insert name (place node) = (captures.insert name node).mapped place := by
  simp only [insert, mapped, span_eq_takeWhile_dropWhile, takeWhile_map, dropWhile_map,
    map_append, map_cons]
  rfl

end Mapped

/-- An access to a property whose name is written out: it fits a member, or a subscript with the name. -/
def Template.access (object : Template) (name : String) : Template :=
  .either
    (.node .member none true
      (.ofList [(some .object, object), (some .property, .leaf .identifier (some name))]))
    (.node .index none true (.ofList [(some .object, object), (some .index, .leaf .string (some name))]))

namespace Respelling

variable {found : Partial} {tree : Tree} {kind : Kind} {children : List (Option Role × Template)}
  {object : Template}

/-- The node is not the name of an access that is written anew. -/
def Unnamed (r : Respelling) (id : NodeId) : Prop :=
  ∀ access, r.Chosen access → r.base.child? access .property ≠ some id

/-- A run over the other tree has found the same, and the names of the slots are not taken. -/
def Mapped (r : Respelling) (slots : Slots) (found other : Partial) : Prop :=
  found = other.mapped r.rename ∧ other.FreeOf slots.captureNames

/-- The template fits corresponding nodes alike, as long as its names are not taken. -/
def Alike (r : Respelling) (template : Template) : Prop :=
  template.capturesOnce = true → ∀ id found, r.Unnamed id → found.FreeOf template.captureNames →
    Option.Rel (r.Mapped .none) (r.other.fit template (r.rename id) (found.mapped r.rename))
      (r.base.fit template id found)

theorem mapped_nothing (found : Partial) : r.Mapped .none (found.mapped r.rename) found :=
  ⟨rfl, forall_mem_nil _⟩

theorem isCompared_eq (id : NodeId) : r.other.isCompared (r.rename id) = r.base.isCompared id := by
  rw [isCompared, isCompared, r.parent]
  cases r.base.parent id with
  | none => rfl
  | some outer =>
    have same := r.kind_eq_iff (by decide : Kind.binary ∉ _) outer
    rw [Option.map_some, Option.any_some, Option.any_some, r.text, Bool.eq_iff_iff, Bool.and_eq_true,
      Bool.and_eq_true, beq_iff_eq, beq_iff_eq, same]

theorem rel_code : Option.Rel (r.Mapped .none)
      (if r.other.kind (r.rename id) == .comment then none else some (found.mapped r.rename))
      (if r.base.kind id == .comment then none else some found) := by
  simp only [beq_iff_eq, r.kind_eq_iff (by decide : Kind.comment ∉ _) id]
  split
  · exact .none
  · exact .some (mapped_nothing found)

theorem alike_capture (name : String) : r.Alike (.capture name []) := by
  intro _ id found unnamed free
  have unused := free name (.head _)
  have string : r.other.kind (r.rename id) = .string ↔ r.base.kind id = .string := by
    by_cases chosen : r.Chosen id
    · rw [r.access id chosen, kind_chosen chosen]
      exact iff_of_false Kind.noConfusion Kind.noConfusion
    · rw [r.kind id chosen unnamed]
  have comment := r.kind_eq_iff (by decide : Kind.comment ∉ _) id
  have taken : (found.mapped r.rename).captures.get? name = none := by
    rw [Partial.mapped, Captures.get?_mapped, unused]
    rfl
  rw [fit, fit, capture?, capture?, isCompared_eq, taken, unused]
  simp only [isEmpty_nil, Bool.not_true, Bool.false_and, Bool.or_false, beq_iff_eq, comment,
    Bool.and_eq_true, string]
  split
  · exact .none
  · split
    · exact .none
    · refine .some ⟨?_, forall_mem_nil _⟩
      rw [Partial.mapped, Partial.mapped, Captures.insert_mapped]

theorem rel_attempt {role twin : Option Role} {template other : Template} {rest : Slots}
    (agree : r.other.rolesAgree role (r.rename id) = r.base.rolesAgree twin id)
    (inner : r.base.rolesAgree twin id = true → Option.Rel (r.Mapped .none)
      (r.other.fit template (r.rename id) (found.mapped r.rename)) (r.base.fit other id found))
    (free : found.FreeOf rest.captureNames) (apart : ∀ name ∈ other.captureNames, name ∉ rest.captureNames) :
    Option.Rel (r.Mapped rest) (r.other.attempt (role, template) (found.mapped r.rename) (r.rename id))
      (r.base.attempt (twin, other) found id) := by
  rw [attempt, attempt, agree]
  split
  · rename_i agrees
    exact rel_mono (inner agrees) fun _ _ _ run mapped => ⟨mapped.1, freeOf_fit run free apart⟩
  · exact .none

theorem rolesAgree_eq (unnamed : r.Unnamed id) (role : Option Role) :
    r.other.rolesAgree role (r.rename id) = r.base.rolesAgree role id := by
  unfold rolesAgree
  rw [r.role id unnamed]

theorem parallel_alike {nodes : List NodeId} (unnamed : ∀ node ∈ nodes, r.Unnamed node) :
    {children : List (Option Role × Template)} → (∀ child ∈ children, r.Alike child.2) →
    (Slots.ofList children).capturesOnce = true →
    (Slots.ofList children).Parallel r.rename r.other r.base nodes r.Mapped (.ofList children)
  | [], _, _ => .none
  | (role, template) :: rest, alike, once => by
    obtain ⟨here, later, apart⟩ := Slots.capturesOnce_some.1 once
    have others := subset_append_right template.captureNames (Slots.ofList rest).captureNames
    refine .slot rfl (fun _ _ _ mapped => ⟨mapped.1, mapped.2.mono others⟩) ?_
      (parallel_alike unnamed (fun child mem => alike child (.tail _ mem)) later)
    rintro _ id mem _ found ⟨rfl, free⟩
    refine rel_attempt (rolesAgree_eq (unnamed id mem) role) (fun _ => ?_) (free.mono others) apart
    exact alike _ (.head _) here id found (unnamed id mem)
      (free.mono (subset_append_left _ _))

theorem fit_refused (different : tree.kind id ≠ kind) (text : Option String) (anchored : Bool)
    (slots : Slots) (found : Partial) : tree.fit (.node kind text anchored slots) id found = none := by
  rw [fit, if_pos]
  rw [bne_iff_ne.2 different, Bool.true_or]

/-- A node that is not written anew is fitted alike, whatever its kind. -/
theorem rel_kept (kept : ¬r.Chosen id) (unnamed : r.Unnamed id)
    (alike : ∀ child ∈ children, r.Alike child.2) (once : (Slots.ofList children).capturesOnce = true)
    (free : found.FreeOf (Slots.ofList children).captureNames) (kind : Kind) (text : Option String)
    (anchored : Bool) : Option.Rel (r.Mapped .none)
      (r.other.fit (.node kind text anchored (.ofList children)) (r.rename id) (found.mapped r.rename))
      (r.base.fit (.node kind text anchored (.ofList children)) id found) :=
  (parallel_alike (fun node mem => not_key (plain_codeChildren kept node mem)) alike once).fit_node
    (r.kind id kept unnamed) (r.text id) (r.codeChildren_eq id) ⟨rfl, free⟩ kind text anchored

theorem alike_node (mem : kind ≠ .member) (index : kind ≠ .index) (text : Option String)
    (anchored : Bool) (alike : ∀ child ∈ children, r.Alike child.2) :
    r.Alike (.node kind text anchored (.ofList children)) := by
  intro once id found unnamed free
  by_cases chosen : r.Chosen id
  · rw [fit_refused (by rw [r.access id chosen]; exact index.symm),
      fit_refused (by rw [kind_chosen chosen]; exact mem.symm)]
    exact .none
  · exact rel_kept chosen unnamed alike once free kind text anchored

theorem alike_leaf (mem : kind ≠ .member) (index : kind ≠ .index) (text : Option String) :
    r.Alike (.leaf kind text) :=
  have none : ∀ child ∈ ([] : List (Option Role × Template)), r.Alike child.2 :=
    forall_mem_nil _
  alike_node mem index text true none

theorem alike_either {first second : Template} (one : r.Alike first) (two : r.Alike second) :
    r.Alike (.either first second) := by
  intro once id found unnamed free
  rw [Template.capturesOnce, Bool.and_eq_true] at once
  rw [fit_either, fit_either]
  exact rel_or (one once.1 id found unnamed (free.mono (subset_append_left _ _)))
    (two once.2 id found unnamed (free.mono (subset_append_right _ _)))

theorem attempt_refused {actual role : Role} (played : tree.role id = some actual)
    (different : role ≠ actual) (template : Template) (found : Partial) :
    tree.attempt (some role, template) found id = none := by
  unfold attempt rolesAgree
  rw [played]
  exact if_neg (by simpa using different)

theorem named_parts (named : ¬r.Unnamed id) : r.base.role id = some .property ∧
    r.other.role (r.rename id) = some .index ∧ r.base.kind id = .identifier ∧
    r.other.kind (r.rename id) = .string ∧ r.base.codeChildren id = [] := by
  obtain ⟨access, chosen, found⟩ : ∃ access, r.Chosen access ∧
      r.base.child? access .property = some id := by
    simpa [Unnamed] using named
  obtain ⟨key, _, alsoFound, kind, _⟩ := (r.dotted access chosen).name
  cases found.symm.trans alsoFound
  obtain ⟨string, index⟩ := r.key access id chosen found
  refine ⟨role_of_child? found, index, kind, string, ?_⟩
  rw [codeChildren, (extra_of_key chosen found).part.1, filter_nil]

/-- The name of an access fits where the string of the subscript does. -/
theorem rel_name (chosen : r.Chosen id) {node : NodeId} (inside : node ∈ r.base.codeChildren id)
    (name : String) (found : Partial) :
    Option.Rel (r.Mapped .none)
      (r.other.attempt (some .index, .leaf .string (some name)) (found.mapped r.rename) (r.rename node))
      (r.base.attempt (some .property, .leaf .identifier (some name)) found node) := by
  by_cases unnamed : r.Unnamed node
  · obtain ⟨object, rest, children, isObject, parts⟩ := (r.dotted id chosen).parts
    have mem := mem_children_of_codeChildren inside
    rw [children, mem_cons] at mem
    rcases mem with rfl | later
    · rw [attempt_refused ((r.role node unnamed).trans isObject) (by decide),
        attempt_refused isObject (by decide)]
      exact .none
    have token : r.base.kind node = .comment ∨ r.base.kind node = .other :=
      (parts node later).2.elim (fun key => absurd key (unnamed id chosen)) And.right
    have lasting (kind : Kind) (other : kind ≠ .comment ∧ kind ≠ .other) : r.base.kind node ≠ kind := by
      rcases token with same | same
      · exact same ▸ other.1.symm
      · exact same ▸ other.2.symm
    have kept : ¬r.Chosen node := kept_of_kind (lasting .member (by decide))
    unfold attempt
    rw [Template.leaf, Template.leaf, fit_refused (lasting .identifier (by decide)),
      fit_refused (by rw [r.kind node kept unnamed]; exact lasting .string (by decide)), ite_self, ite_self]
    exact .none
  · obtain ⟨role, twinRole, kind, twinKind, childless⟩ := named_parts unnamed
    refine rel_attempt ?_ (fun _ => ?_) (fun _ absent => absurd absent not_mem_nil)
      fun _ _ => not_mem_nil
    · unfold rolesAgree
      rw [role, twinRole]
      rfl
    rw [Template.leaf, Template.leaf, fit, fit, kind, twinKind, r.text, codeChildren_eq, childless]
    simp only [bne_self_eq_false, Bool.false_or]
    split
    · exact .none
    · rw [if_pos trivial, if_pos trivial, fitSequence, fitSequence]
      exact .some (mapped_nothing found)

/-- The parts of an access, which is a member in one tree and a subscript in the other. -/
theorem parallel_access (alike : r.Alike object) (once : object.capturesOnce = true) (name : String)
    (chosen : r.Chosen id) :
    (Slots.ofList [(some .object, object), (some .index, .leaf .string (some name))]).Parallel r.rename
      r.other r.base (r.base.codeChildren id) r.Mapped
      (.ofList [(some .object, object), (some .property, .leaf .identifier (some name))]) := by
  refine .slot rfl (fun _ _ _ mapped => ⟨mapped.1, mapped.2.mono (subset_append_right _ _)⟩) ?_
    (.slot rfl (fun impossible => by cases impossible) ?_ .none)
  · rintro _ node _ _ found ⟨rfl, free⟩
    by_cases unnamed : r.Unnamed node
    · refine rel_attempt (rolesAgree_eq unnamed _) (fun _ => ?_) (free.mono (subset_append_right _ _))
        fun _ _ => not_mem_nil
      exact alike once node found unnamed (free.mono (subset_append_left _ _))
    · obtain ⟨role, twinRole, _⟩ := named_parts unnamed
      rw [attempt_refused role (by decide), attempt_refused twinRole (by decide)]
      exact .none
  · rintro _ node inside _ found ⟨rfl, _⟩
    exact rel_name chosen inside name found

theorem alike_access (alike : r.Alike object) (name : String) : r.Alike (.access object name) := by
  intro once id found unnamed free
  obtain ⟨once, alsoOnce⟩ := Bool.and_eq_true_iff.1 once
  have alsoFree := free.mono (subset_append_right _ _)
  rw [Template.access, fit_either, fit_either]
  by_cases chosen : r.Chosen id
  · have index := r.access id chosen
    have mem := kind_chosen chosen
    have notMember : r.other.kind (r.rename id) ≠ .member := by rw [index]; decide
    have notIndex : r.base.kind id ≠ .index := by rw [mem]; decide
    rw [fit_refused notMember, fit_refused notIndex, Option.none_or, Option.or_none, fit, fit, index,
      mem, codeChildren_eq]
    have parallel := parallel_access alike (Slots.capturesOnce_some.1 once).1 name chosen
    exact parallel.fitSequence (Subset.refl _) ⟨rfl, alsoFree⟩
  · have inner {role : Role} {kind : Kind} (notMember : kind ≠ .member) (notIndex : kind ≠ .index) :
        ∀ child ∈ [(some Role.object, object), (some role, .leaf kind (some name))], r.Alike child.2 := by
      intro child among
      rcases mem_cons.1 among with rfl | among
      · exact alike
      · cases mem_singleton.1 among
        exact alike_leaf notMember notIndex _
    exact rel_or
      (rel_kept chosen unnamed (inner (by decide) (by decide)) once (free.mono (subset_append_left _ _)) ..)
      (rel_kept chosen unnamed (inner (by decide) (by decide)) alsoOnce alsoFree ..)

end Respelling

/-- The access has an object and a name, and nothing else: it is not an optional one. -/
def Tree.isPath (tree : Tree) (access : NodeId) : Bool :=
  (tree.codeChildren access).map tree.role == [some .object, some .property] &&
    (tree.child? access .property).any fun key =>
      tree.kind key == .identifier && (tree.codeChildren key).isEmpty

def Placeholder.isUntyped : Placeholder → Bool
  | .capture _ kinds => kinds.isEmpty
  | .wildcard | .variadic => true

namespace Stencil

/-- No placeholder asks for kinds, there are no subscripts, and every access is a path whose name is
written out. -/
def Literal (stencil : Stencil) : Prop :=
  (∀ placeholder ∈ stencil.placeholders, placeholder.isUntyped = true) ∧
    ∀ id ∈ stencil.tree.preorder, stencil.tree.kind id ≠ .index ∧ (stencil.tree.kind id = .member →
      (stencil.property? id).isSome = true ∧ stencil.tree.isPath id = true)

instance (stencil : Stencil) : Decidable stencil.Literal := by
  delta Literal
  infer_instance

variable {stencil : Stencil}

theorem alike_placeholder (literal : stencil.Literal) {placeholder : Placeholder}
    (stands : stencil.placeholder? id = some placeholder) : r.Alike placeholder.template := by
  have untyped : placeholder.isUntyped = true := by
    unfold placeholder? at stands
    split at stands
    · obtain ⟨number, _, found⟩ := Option.bind_eq_some_iff.1 stands
      exact literal.1 placeholder (Array.mem_of_getElem? found)
    · cases stands
  cases placeholder with
  | capture name kinds =>
    cases isEmpty_iff.1 untyped
    exact alike_capture name
  | wildcard | variadic =>
    intro _ id found _ _
    exact rel_code

section

variable (unfocused : stencil.focus = none)
include unfocused

theorem focused_eq (template : Template) : stencil.focused id template = template := by
  rw [focused, unfocused]
  rfl

theorem template_name (stands : stencil.placeholder? id = none) (kind : stencil.tree.kind id = .identifier)
    (role : stencil.tree.role id = some .property) (childless : stencil.tree.codeChildren id = []) :
    stencil.template id = .leaf .identifier (stencil.tree.text id) := by
  simp only [template_of_none stands, focused_eq unfocused, assemble, concrete, parts, kind, role, childless]
  rfl

theorem assemble_path (isMember : stencil.tree.kind id = .member) {name : String}
    (written : stencil.property? id = some name) (path : stencil.tree.isPath id = true) :
    ∃ object ∈ stencil.tree.codeChildren id,
      stencil.assemble id (stencil.parts id) = .access (stencil.template object) name := by
  unfold isPath at path
  rw [Bool.and_eq_true, beq_iff_eq, Option.any_eq_true] at path
  obtain ⟨roles, key, found, leaf⟩ := path
  rw [Bool.and_eq_true, beq_iff_eq, List.isEmpty_iff] at leaf
  have isName := role_of_child? found
  obtain ⟨object, rest, children, isObject, roles⟩ := map_eq_cons_iff.1 roles
  obtain ⟨second, rest, rfl, _, roles⟩ := map_eq_cons_iff.1 roles
  cases map_eq_nil_iff.1 roles
  have among : key ∈ stencil.tree.codeChildren id :=
    mem_filter.2 ⟨mem_children_of_child? found, by rw [leaf.1]; rfl⟩
  rw [children, mem_cons, mem_singleton] at among
  rcases among with rfl | rfl
  · cases isObject.symm.trans isName
  have stated := written
  simp only [property?, found, bind, Option.bind] at stated
  split at stated
  · cases stated
  rename_i named
  have stands : stencil.placeholder? key = none := by simpa using named
  have parts : stencil.parts id = [(some .object, stencil.template object),
      (some .property, .leaf .identifier (some name))] := by
    rw [parts, children, map_cons, map_singleton, isObject, isName,
      template_name unfocused stands leaf.1 isName leaf.2, stated]
  refine ⟨object, by rw [children]; exact .head _, ?_⟩
  simp only [parts, assemble, access, concrete, isMember, written]
  rfl

end

/-- Templates of literal stencils do not tell the spellings of accesses apart. -/
theorem alike_template (literal : stencil.Literal) (unfocused : stencil.focus = none)
    (inside : id ∈ stencil.tree.preorder) : r.Alike (stencil.template id) := by
  induction id using Nat.strongRecOn with | ind id ih
  have below : ∀ child ∈ stencil.tree.codeChildren id, r.Alike (stencil.template child) :=
    fun child isChild => ih child (lt_of_mem_codeChildren isChild) (mem_subtree_trans
      (mem_subtree_of_child (mem_children_of_codeChildren isChild)
        (stencil.tree.mem_subtree_self child)) inside)
  have parts : ∀ part ∈ stencil.parts id, r.Alike part.2 := by
    intro part mem
    obtain ⟨child, isChild, rfl⟩ := mem_map.1 mem
    exact below child isChild
  obtain ⟨notIndex, access⟩ := literal.2 id inside
  cases stands : stencil.placeholder? id with
  | some placeholder =>
    rw [template_of_some stands, focused_eq unfocused]
    exact alike_placeholder literal stands
  | none =>
    rw [template_of_none stands, focused_eq unfocused]
    by_cases isMember : stencil.tree.kind id = .member
    · obtain ⟨written, path⟩ := access isMember
      obtain ⟨name, written⟩ := Option.isSome_iff_exists.1 written
      obtain ⟨object, isChild, same⟩ := assemble_path unfocused isMember written path
      rw [same]
      exact alike_access (below object isChild) name
    · have made := stencil.assembled_assemble id (stencil.parts id)
      generalize stencil.assemble id (stencil.parts id) = template at made
      cases made with
      | pair _ found =>
        obtain ⟨value, _, stands⟩ := value_of_pairPlaceholder? found
        exact alike_placeholder literal stands
      | plain => exact alike_node isMember notIndex _ _ parts
      | access found => exact absurd found isMember
      | key =>
        exact alike_either (alike_leaf (by decide) (by decide) _)
          (alike_leaf (by decide) (by decide) _)

end Stencil

namespace Pattern

/-- A pattern whose names are all written out, each behind its object alone, does not tell `o.p` and `o["p"]`
apart: it matches corresponding nodes with corresponding captures. -/
theorem spelling_unseen {language : Language} {rule source : String} {pattern : Pattern}
    (compiled : compile language rule source = .ok pattern) (unfocused : pattern.focused = false)
    (once : pattern.template.capturesOnce = true)
    (literal : ∀ stencil ∈ drawn? language source, stencil.Literal) (r : Respelling) {id : NodeId}
    (unnamed : r.Unnamed id) :
    pattern.matchAt? r.other (r.rename id) = (pattern.matchAt? r.base id).map (Match.mapped r.rename) := by
  obtain ⟨_, _, _, stencil, drawn, focus, marked, same⟩ := template_of_compile compiled
  rw [unfocused, eq_comm, Option.isSome_eq_false_iff, Option.isNone_iff_eq_none] at marked
  subst marked
  have literal : Stencil.Literal { stencil with focus := none } := literal stencil drawn
  have alike : r.Alike pattern.template := by
    rw [same]
    exact Stencil.alike_template literal rfl (stencil.tree.mem_subtree_unwrapped stencil.tree.root)
  have runs := alike once id {} unnamed (Partial.freeOf_nothing _)
  have comment := r.kind_eq_iff (by decide : Kind.comment ∉ _) id
  simp only [matchAt?, beq_iff_eq, comment]
  split
  · rfl
  · rw [Option.map_map]
    refine map_eq_of_rel runs ?_
    rintro _ found ⟨rfl, _⟩
    simp only [Function.comp, Match.mapped, Partial.mapped, Match.mk.injEq, and_true]
    cases found.focus <;> rfl

/-- The pattern `$<X>.b.c` matches `a["b"].c` as it matches `a.b.c`. An optional access is not written with the
object and the name alone: `a?.b` does not match `a.b`, and it does match `a["b"]`. -/
theorem spelling_unseen_path :
    ∃ (r : Respelling) (pattern optional : Pattern),
      r.base = Script.tree "f.js" "a.b.c;\n" ∧ r.other = Script.tree "f.js" "a[\"b\"].c;\n" ∧ r.Chosen 2 ∧
      compile .javascript "r" "$<X>.b.c" = .ok pattern ∧ (pattern.matchAt? r.base 4).isSome = true ∧
      pattern.matchAt? r.other (r.rename 4) = (pattern.matchAt? r.base 4).map (Match.mapped r.rename) ∧
      compile .javascript "r" "a?.b" = .ok optional ∧
      optional.matchAt? (Script.tree "f.js" "a.b;\n") 2 = none ∧
      (optional.matchAt? (Script.tree "f.js" "a[\"b\"];\n") 2).isSome = true := by
  let base := Script.tree "f.js" "a.b.c;\n"
  have same : base.RespeltAt (Script.tree "f.js" "a[\"b\"].c;\n") [(2, 0, 1)] := by
    decide +kernel
  let r := inPlace (Outline.proper_toTree _ _ _ _) same
  have role : base.role 4 ≠ some .property := by
    decide +kernel
  obtain ⟨pattern, compiled, whole, once, fits⟩ : ∃ pattern, compile .javascript "r" "$<X>.b.c" = .ok pattern ∧
      pattern.focused = false ∧ pattern.template.capturesOnce = true ∧
      (pattern.matchAt? base 4).isSome = true := by
    decide +kernel
  have literal : ∀ stencil ∈ drawn? .javascript "$<X>.b.c", stencil.Literal := by
    decide +kernel
  obtain ⟨optional, differs⟩ : ∃ optional, compile .javascript "r" "a?.b" = .ok optional ∧
      optional.matchAt? (Script.tree "f.js" "a.b;\n") 2 = none ∧
      (optional.matchAt? (Script.tree "f.js" "a[\"b\"];\n") 2).isSome = true := by
    decide +kernel
  have unnamed : r.Unnamed 4 := fun _ _ found => role (role_of_child? found)
  exact ⟨r, pattern, optional, rfl, rfl, (by decide : 2 ∈ [2]), compiled, fits,
    spelling_unseen compiled whole once literal r unnamed, differs⟩

end Pattern

end LeakTrace
