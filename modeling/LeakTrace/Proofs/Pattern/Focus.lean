import LeakTrace.Proofs.Pattern.Alignment
import LeakTrace.Proofs.Pattern.Marker

namespace LeakTrace

open List LeakTrace.Tree

variable {children : List (Option Role × Template)} {tree : Tree} {kind : Kind} {text : Option String}
  {anchored : Bool} {part : Template}

mutual

/-- No part of the template is marked as the one to report. -/
def Template.isPlain : Template → Bool
  | .node _ _ _ children => children.isPlain
  | .capture _ _ => true
  | .wildcard => true
  | .variadic => true
  | .either first second => first.isPlain && second.isPlain
  | .focus _ => false

def Slots.isPlain : Slots → Bool
  | .none => true
  | .some _ template rest => template.isPlain && rest.isPlain

end

theorem Slots.isPlain_ofList :
    (ofList children).isPlain = true ↔ ∀ child ∈ children, child.2.isPlain = true := by
  induction children with
  | nil => simp [ofList, isPlain]
  | cons child rest ih => simp [ofList, isPlain, ih]

/-- The placements of the parts that are marked. -/
def marksOf (placed : List Placement) : List Placement :=
  placed.filter fun place => place.focused?.isSome

theorem focused_eq_marksOf (placed : List Placement) :
    placed.filterMap Placement.focused? = (marksOf placed).map Placement.node := by
  induction placed with
  | nil => rfl
  | cons place rest ih =>
    obtain ⟨part, node⟩ := place
    cases part with
    | focus inner => exact congrArg (node :: ·) ih
    | _ => exact ih

theorem marksOf_append (here there : List Placement) :
    marksOf (here ++ there) = marksOf here ++ marksOf there := filter_append ..

theorem marksOf_of_isPlain {placed : List Placement}
    (plain : ∀ place ∈ placed, place.part.isPlain = true) : marksOf placed = [] := by
  refine filter_eq_nil_iff.2 fun place mem focused => ?_
  have unmarked := plain place mem
  obtain ⟨part, node⟩ := place
  cases part with
  | focus => cases unmarked
  | _ => cases focused

namespace Tree

theorem plain_concat {id : NodeId} {placed : List Placement}
    (whole : part.isPlain = true) (inner : ∀ place ∈ placed, place.part.isPlain = true) :
    ∀ place ∈ placed ++ [⟨part, id⟩], place.part.isPlain = true :=
  forall_mem_append.2 ⟨inner, forall_mem_singleton.2 whole⟩

mutual

theorem Embeds.plain {template : Template} {id : NodeId} {placed : List Placement} :
    tree.Embeds template id placed → template.isPlain = true →
      ∀ place ∈ placed, place.part.isPlain = true
  | .wildcard _, plain | .variadic _, plain | .capture _, plain =>
    plain_concat plain (forall_mem_nil _)
  | .first inner, plain => plain_concat plain (inner.plain (Bool.and_eq_true_iff.1 plain).1)
  | .second inner, plain => plain_concat plain (inner.plain (Bool.and_eq_true_iff.1 plain).2)
  | .anchored _ _ children, plain =>
    have ⟨_, _, each⟩ := children.oneEach
    plain_concat plain (each.plain plain)
  | .loose _ _ _ children, plain => plain_concat plain (children.plain plain)

theorem OneEach.plain {slots : Slots} {chosen : List NodeId} {placed : List Placement} :
    tree.OneEach slots chosen placed → slots.isPlain = true →
      ∀ place ∈ placed, place.part.isPlain = true
  | .done, _ => forall_mem_nil _
  | .skip others, plain => others.plain (Bool.and_eq_true_iff.1 plain).2
  | .next _ _ inner others, plain => forall_mem_append.2
    ⟨inner.plain (Bool.and_eq_true_iff.1 plain).1, others.plain (Bool.and_eq_true_iff.1 plain).2⟩

end

/-- What the placements have of marks lies inside the template. -/
def Holds (tree : Tree) (template : Template) (placed : List Placement) : Prop :=
  ∃ target here, tree.Embeds template target here ∧ here ⊆ placed ∧ marksOf placed = marksOf here ∧
    ∀ place ∈ placed, place.part.isPlain = false → place ∈ here

section

variable {template : Template} {here there : List Placement}

theorem Holds.append_plain (holds : tree.Holds template here)
    (plain : ∀ place ∈ there, place.part.isPlain = true) : tree.Holds template (here ++ there) := by
  obtain ⟨target, inner, embeds, among, same, only⟩ := holds
  refine ⟨target, inner, embeds, fun _ inside => mem_append_left _ (among inside), ?_, ?_⟩
  · rw [marksOf_append, marksOf_of_isPlain plain, append_nil, same]
  intro place mem marked
  rcases mem_append.1 mem with early | late
  · exact only place early marked
  · rw [plain place late] at marked
    cases marked

theorem Holds.plain_append (holds : tree.Holds template there)
    (plain : ∀ place ∈ here, place.part.isPlain = true) : tree.Holds template (here ++ there) := by
  obtain ⟨target, inner, embeds, among, same, only⟩ := holds
  refine ⟨target, inner, embeds, fun _ inside => mem_append_right _ (among inside), ?_, ?_⟩
  · rw [marksOf_append, marksOf_of_isPlain plain, nil_append, same]
  intro place mem marked
  rcases mem_append.1 mem with early | late
  · rw [plain place early] at marked
    cases marked
  · exact only place late marked

end

end Tree

/-- One of the children is marked, and no other one. -/
structure OneMarked (children : List (Option Role × Template)) (template : Template) : Prop where
  among : ∃ child ∈ children, child.2 = template
  marked : template.isPlain = false
  pairs : children.Pairwise fun one two => one.2.isPlain = true ∨ two.2.isPlain = true

theorem OneMarked.cases {child : Option Role × Template} {template : Template}
    (one : OneMarked (child :: children) template) :
    (child.2 = template ∧ (Slots.ofList children).isPlain = true) ∨
      (child.2.isPlain = true ∧ OneMarked children template) := by
  obtain ⟨⟨other, mem, rfl⟩, marked, pairs⟩ := one
  obtain ⟨apart, pairs⟩ := pairwise_cons.1 pairs
  have unmarked : ¬other.2.isPlain = true := Bool.eq_false_iff.1 marked
  rcases mem_cons.1 mem with rfl | later
  · exact .inl ⟨rfl, Slots.isPlain_ofList.2 fun child among => (apart child among).resolve_left unmarked⟩
  · exact .inr ⟨(apart other later).resolve_right unmarked, ⟨other, later, rfl⟩, marked, pairs⟩

namespace Tree

variable {template : Template} {placed : List Placement} {id : NodeId}

theorem OneEach.holds {chosen : List NodeId} (each : tree.OneEach (.ofList children) chosen placed)
    (one : OneMarked children template) : tree.Holds template placed := by
  induction children generalizing chosen placed with
  | nil =>
    obtain ⟨⟨_, mem, _⟩, _⟩ := one
    cases mem
  | cons child rest ih =>
    rw [Slots.ofList] at each
    have marked := one.marked
    rcases one.cases with ⟨rfl, plain⟩ | ⟨plain, one⟩
    · generalize child.2 = template at each marked ⊢
      cases each with
      | skip => cases marked
      | next _ _ inner others =>
        refine Holds.append_plain ⟨_, _, inner, fun _ inside => inside, rfl, fun _ inside _ => inside⟩ ?_
        exact others.plain plain
    · generalize child.2 = head at each plain
      cases each with
      | skip others => exact ih others one
      | next _ _ inner others => exact (ih others one).plain_append (inner.plain plain)

/-- What is placed for a part with one marked child is what is placed for the children, and the part. -/
theorem Embeds.exists_holds (embeds : tree.Embeds (.node kind text anchored (.ofList children)) id placed)
    (one : OneMarked children template) : ∃ inside, tree.Holds template inside ∧
      placed = inside ++ [⟨.node kind text anchored (.ofList children), id⟩] := by
  cases embeds with
  | anchored _ _ ordered =>
    obtain ⟨_, _, each⟩ := ordered.oneEach
    exact ⟨_, each.holds one, rfl⟩
  | loose _ _ _ each => exact ⟨_, each.holds one, rfl⟩

theorem Embeds.kind_node {slots : Slots} (embeds : tree.Embeds (.node kind text anchored slots) id placed) :
    tree.kind id = kind := by
  cases embeds with
  | anchored sort => exact sort
  | loose sort => exact sort

end Tree

theorem Placeholder.isPlain_template (placeholder : Placeholder) :
    placeholder.template.isPlain = true := by
  cases placeholder <;> rfl

namespace Stencil

variable {stencil : Stencil} {mark id child : NodeId} {property : String}

/-- The template of the node is made of those of its children. It is not where a placeholder stands,
also one for a whole pair, and not for the name of a field. -/
structure Composed (stencil : Stencil) (id : NodeId) : Prop where
  concrete : stencil.placeholder? id = none
  pair : stencil.tree.kind id = .pair → stencil.pairPlaceholder? id = none
  key : stencil.tree.kind id = .identifier → stencil.tree.role id ≠ some .key

/-- The marked node is the node itself, or nodes that are made of their children lead to it. -/
inductive Leads (stencil : Stencil) (mark : NodeId) : NodeId → Prop
  | here : Leads stencil mark mark
  | part {id child : NodeId} (composed : stencil.Composed id)
      (isChild : child ∈ stencil.tree.codeChildren id) (leads : Leads stencil mark child) :
      Leads stencil mark id

theorem Leads.mem_subtree (leads : stencil.Leads mark id) : mark ∈ stencil.tree.subtree id := by
  induction leads with
  | here => exact stencil.tree.mem_subtree_self mark
  | part _ isChild _ ih => exact mem_subtree_of_child (mem_children_of_codeChildren isChild) ih

theorem Leads.unique (proper : stencil.tree.Proper) {other : NodeId}
    (isChild : child ∈ stencil.tree.codeChildren id) (alsoChild : other ∈ stencil.tree.codeChildren id)
    (leads : stencil.Leads mark child) (alsoLeads : stencil.Leads mark other) : child = other := by
  by_contra different
  exact proper.disjoint (mem_children_of_codeChildren isChild)
    (mem_children_of_codeChildren alsoChild) different leads.mem_subtree alsoLeads.mem_subtree

/-- The object of an access, as its subscript form has it. -/
def object? (stencil : Stencil) (id : NodeId) : Option NodeId :=
  (stencil.tree.codeChildren id).find? fun child => stencil.tree.role child == some .object

theorem subscript_parts (stencil : Stencil) (id : NodeId) (property : String) :
    subscript (stencil.parts id) property = .node .index none true (.ofList
      [(some .object, ((stencil.object? id).map stencil.template).getD .wildcard),
        (some .index, .leaf .string (some property))]) := by
  have object : (stencil.parts id).find? (fun part => part.1 == some Role.object) =
      (stencil.object? id).map fun child => (stencil.tree.role child, stencil.template child) :=
    find?_map ..
  rw [subscript, object]
  cases stencil.object? id with
  | none => rfl
  | some child => rfl

theorem assemble_of_access (isMember : stencil.tree.kind id = .member)
    (written : stencil.property? id = some property) (children : List (Option Role × Template)) :
    stencil.assemble id children =
      .either (.node .member none true (.ofList children)) (subscript children property) := by
  simp only [assemble, access, concrete, isMember, written]
  rfl

/-- The template of a node that is made of its children is one node with them, or the node is an access
to a property that is written out. -/
theorem assemble_of_composed (composed : stencil.Composed id) (children : List (Option Role × Template)) :
    (∃ kind text anchored, stencil.assemble id children = .node kind text anchored (.ofList children)) ∨
      stencil.tree.kind id = .member ∧ ∃ property, stencil.property? id = some property := by
  have made := stencil.assembled_assemble id children
  generalize stencil.assemble id children = template at made
  cases made with
  | pair isPair found => cases (composed.pair isPair).symm.trans found
  | plain => exact .inl ⟨_, _, _, rfl⟩
  | access isMember found => exact .inr ⟨isMember, _, found⟩
  | key _ isIdentifier isKey => exact absurd isKey (composed.key isIdentifier)

theorem isPlain_subscript (plain : ∀ object ∈ stencil.object? id, (stencil.template object).isPlain = true) :
    (subscript (stencil.parts id) property).isPlain = true := by
  rw [subscript_parts]
  cases found : stencil.object? id with
  | none => rfl
  | some object => simp [Template.isPlain, Template.leaf, Slots.isPlain, Slots.ofList, plain object found]

theorem isPlain_assemble (plain : stencil.Composed id → ∀ child ∈ stencil.tree.codeChildren id,
    (stencil.template child).isPlain = true) (concrete : stencil.placeholder? id = none) :
    (stencil.assemble id (stencil.parts id)).isPlain = true := by
  have parts (composed : stencil.Composed id) : (Slots.ofList (stencil.parts id)).isPlain = true := by
    refine Slots.isPlain_ofList.2 fun part mem => ?_
    obtain ⟨child, isChild, rfl⟩ := mem_map.1 mem
    exact plain composed child isChild
  have made := stencil.assembled_assemble id (stencil.parts id)
  generalize stencil.assemble id (stencil.parts id) = template at made
  cases made with
  | pair => exact Placeholder.isPlain_template _
  | plain _ _ pair key => exact parts ⟨concrete, pair, key⟩
  | access isMember =>
    have composed : stencil.Composed id := ⟨concrete, by simp [isMember], by simp [isMember]⟩
    rw [Template.isPlain, Template.isPlain, parts composed, isPlain_subscript, Bool.and_self]
    exact fun object found => plain composed object (mem_of_find?_eq_some found)
  | key => rfl

section

variable (marked : stencil.focus = some mark)
include marked

theorem focused_of_ne (different : id ≠ mark) (template : Template) :
    stencil.focused id template = template := by
  refine if_neg fun here => different ?_
  rw [marked, beq_iff_eq] at here
  exact (Option.some.inj here).symm

theorem isPlain_of_not_leads (apart : ¬stencil.Leads mark id) : (stencil.template id).isPlain = true := by
  induction id using Nat.strongRecOn with | ind id ih
  have different : id ≠ mark := by
    rintro rfl
    exact apart .here
  cases stands : stencil.placeholder? id with
  | some placeholder =>
    rw [template_of_some stands, focused_of_ne marked different]
    exact placeholder.isPlain_template
  | none =>
    rw [template_of_none stands, focused_of_ne marked different]
    refine isPlain_assemble (fun composed child isChild => ?_) stands
    exact ih child (lt_of_mem_codeChildren isChild) fun leads => apart (.part composed isChild leads)

theorem template_mark : ∃ inner, stencil.template mark = .focus inner ∧ inner.isPlain = true := by
  have focused (template : Template) : stencil.focused mark template = .focus template :=
    if_pos (by rw [marked, beq_self_eq_true])
  cases stands : stencil.placeholder? mark with
  | some placeholder =>
    exact ⟨_, by rw [template_of_some stands, focused], placeholder.isPlain_template⟩
  | none =>
    refine ⟨_, by rw [template_of_none stands, focused], isPlain_assemble (fun _ child isChild => ?_) stands⟩
    refine isPlain_of_not_leads marked fun leads => ?_
    exact not_mem_subtree_child (mem_children_of_codeChildren isChild) leads.mem_subtree

theorem Leads.isPlain (leads : stencil.Leads mark id) : (stencil.template id).isPlain = false := by
  obtain ⟨inner, focus, _⟩ := template_mark marked
  induction leads with
  | here =>
    rw [focus]
    rfl
  | @part id child composed isChild _ ih =>
    by_cases same : id = mark
    · rw [same, focus]
      rfl
    have parts : (Slots.ofList (stencil.parts id)).isPlain = false := by
      refine Bool.eq_false_iff.2 fun plain => ?_
      rw [Slots.isPlain_ofList.1 plain (stencil.tree.role child, stencil.template child)
        (mem_map.2 ⟨child, isChild, rfl⟩)] at ih
      cases ih
    rw [template_of_none composed.concrete, focused_of_ne marked same]
    rcases assemble_of_composed composed (stencil.parts id) with
      ⟨kind, text, anchored, made⟩ | ⟨isMember, property, written⟩
    · rw [made]
      exact parts
    · rw [assemble_of_access isMember written, Template.isPlain, Template.isPlain, parts]
      rfl

theorem oneMarked_parts (proper : stencil.tree.Proper) (isChild : child ∈ stencil.tree.codeChildren id)
    (leads : stencil.Leads mark child) : OneMarked (stencil.parts id) (stencil.template child) := by
  refine ⟨⟨_, mem_map.2 ⟨child, isChild, rfl⟩, rfl⟩, leads.isPlain marked, pairwise_map.2 ?_⟩
  refine ((proper.distinct id).filter _).pairwise_of_forall_ne fun one isOne two isTwo different => ?_
  by_cases first : stencil.Leads mark one
  · exact .inr (isPlain_of_not_leads marked fun second =>
      different (Leads.unique proper isOne isTwo first second))
  · exact .inl (isPlain_of_not_leads marked first)

end

/-- An access to a property that is written out leads to the mark, and not by its object: the subscript
form of the access leaves the mark out. -/
structure Beside (stencil : Stencil) (mark access : NodeId) : Prop where
  isMember : stencil.tree.kind access = .member
  written : ∃ property, stencil.property? access = some property
  different : access ≠ mark
  leads : stencil.Leads mark access
  object : ∀ object ∈ stencil.object? access, ¬stencil.Leads mark object

theorem template_of_access (marked : stencil.focus = some mark) (isMember : stencil.tree.kind id = .member)
    (written : stencil.property? id = some property) (different : id ≠ mark) :
    stencil.template id = .either (.node .member none true (.ofList (stencil.parts id)))
      (subscript (stencil.parts id) property) := by
  have concrete : stencil.placeholder? id = none := by
    rw [placeholder?, isMember]
    rfl
  rw [template_of_none concrete, focused_of_ne marked different, assemble_of_access isMember written]

theorem Beside.template (beside : stencil.Beside mark id) (marked : stencil.focus = some mark) :
    ∃ first second, stencil.template id = .either first second ∧ second.isPlain = true := by
  obtain ⟨property, written⟩ := beside.written
  refine ⟨_, _, template_of_access marked beside.isMember written beside.different, ?_⟩
  exact isPlain_subscript fun object found => isPlain_of_not_leads marked (beside.object object found)

/-- Among the placements is an access beside the mark in its subscript form. -/
def Bypassed (stencil : Stencil) (mark : NodeId) (tree : Tree) (placed : List Placement) : Prop :=
  ∃ access node, stencil.Beside mark access ∧ ⟨stencil.template access, node⟩ ∈ placed ∧
    tree.kind node = .index

/-- The template of the marked node is placed once if it is not bypassed, and otherwise not. -/
structure Reports (stencil : Stencil) (mark : NodeId) (tree : Tree) (placed : List Placement) : Prop where
  lost : stencil.Bypassed mark tree placed → marksOf placed = []
  kept : ¬stencil.Bypassed mark tree placed → ∃ target inner,
    marksOf placed = [⟨stencil.template mark, target⟩] ∧ tree.Embeds (stencil.template mark) target inner

variable {node : NodeId} {placed more : List Placement}

theorem Reports.congr (reports : stencil.Reports mark tree placed) (same : marksOf more = marksOf placed)
    (alike : stencil.Bypassed mark tree more ↔ stencil.Bypassed mark tree placed) :
    stencil.Reports mark tree more := by
  refine ⟨fun bypassed => ?_, fun direct => ?_⟩
  · rw [same, reports.lost (alike.1 bypassed)]
  · rw [same]
    exact reports.kept (mt alike.2 direct)

theorem Reports.concat (reports : stencil.Reports mark tree placed)
    (unmarked : Placement.focused? ⟨part, node⟩ = none)
    (other : ∀ access, stencil.Beside mark access → stencil.template access = part →
      tree.kind node ≠ .index) : stencil.Reports mark tree (placed ++ [⟨part, node⟩]) := by
  refine reports.congr (by simp [LeakTrace.marksOf, unmarked]) ⟨?_, ?_⟩
  · rintro ⟨access, place, beside, mem, isIndex⟩
    rcases mem_append.1 mem with old | last
    · exact ⟨access, place, beside, old, isIndex⟩
    · obtain ⟨same, rfl⟩ := Placement.mk.inj (mem_singleton.1 last)
      exact absurd isIndex (other access beside same)
  · rintro ⟨access, place, beside, mem, isIndex⟩
    exact ⟨access, place, beside, mem_append_left _ mem, isIndex⟩

theorem reports_node (marked : stencil.focus = some mark) {template : Template}
    (embeds : tree.Embeds (.node kind text anchored (.ofList children)) node placed)
    (one : OneMarked children template)
    (inner : ∀ {target here}, tree.Embeds template target here → stencil.Reports mark tree here) :
    stencil.Reports mark tree placed := by
  obtain ⟨inside, ⟨target, here, within, among, same, only⟩, rfl⟩ := embeds.exists_holds one
  have reports : stencil.Reports mark tree inside := by
    refine (inner within).congr same ⟨?_, ?_⟩
    · rintro ⟨access, node, beside, mem, isIndex⟩
      exact ⟨access, node, beside, only _ mem (beside.leads.isPlain marked), isIndex⟩
    · rintro ⟨access, node, beside, mem, isIndex⟩
      exact ⟨access, node, beside, among mem, isIndex⟩
  refine reports.concat rfl fun access beside same => ?_
  obtain ⟨first, second, either, _⟩ := beside.template marked
  cases either.symm.trans same

theorem reports_mark (marked : stencil.focus = some mark)
    (embeds : tree.Embeds (stencil.template mark) node placed) : stencil.Reports mark tree placed := by
  obtain ⟨inner, focus, plain⟩ := template_mark marked
  have whole := embeds
  rw [focus] at embeds
  cases embeds with | @focus _ _ inside lies
  have unmarked := lies.plain plain
  refine ⟨?_, fun _ => ⟨node, _, ?_, whole⟩⟩
  · rintro ⟨access, place, beside, mem, _⟩
    have leads := beside.leads.isPlain marked
    rcases mem_append.1 mem with old | last
    · rw [unmarked _ old] at leads
      cases leads
    · obtain ⟨same, _⟩ := Placement.mk.inj (mem_singleton.1 last)
      obtain ⟨first, second, either, _⟩ := beside.template marked
      cases either.symm.trans same
  · rw [marksOf_append, marksOf_of_isPlain unmarked, focus]
    rfl

/-- The template of a node that leads to the mark is placed with the mark, unless the mark is bypassed. -/
theorem Leads.reports (marked : stencil.focus = some mark) (proper : stencil.tree.Proper)
    (leads : stencil.Leads mark id) (embeds : tree.Embeds (stencil.template id) node placed) :
    stencil.Reports mark tree placed := by
  induction leads generalizing node placed with
  | here => exact reports_mark marked embeds
  | @part id child composed isChild leads ih =>
    by_cases different : id = mark
    · rw [different] at embeds
      exact reports_mark marked embeds
    have one := oneMarked_parts marked proper isChild leads
    rcases assemble_of_composed composed (stencil.parts id) with
      ⟨kind, text, anchored, made⟩ | ⟨isMember, property, written⟩
    · rw [template_of_none composed.concrete, focused_of_ne marked different, made] at embeds
      exact reports_node marked embeds one ih
    have whole := template_of_access marked isMember written different
    rw [whole] at embeds
    cases embeds with
    | first inner =>
      refine (reports_node marked inner one ih).concat rfl fun _ _ _ isIndex => ?_
      rw [inner.kind_node] at isIndex
      cases isIndex
    | second inner =>
      by_cases beside : ∀ object ∈ stencil.object? id, ¬stencil.Leads mark object
      · have plain : (subscript (stencil.parts id) property).isPlain = true :=
          isPlain_subscript fun object found => isPlain_of_not_leads marked (beside object found)
        refine ⟨fun _ => ?_, fun direct => absurd ⟨id, node, ?_, ?_, inner.kind_node⟩ direct⟩
        · rw [marksOf_append, marksOf_of_isPlain (inner.plain plain)]
          rfl
        · exact ⟨isMember, ⟨property, written⟩, different, .part composed isChild leads, beside⟩
        · rw [whole]
          exact mem_append_right _ (mem_singleton_self _)
      · -- only one child leads to the mark, so it is the object, which the subscript form has too
        simp only [not_forall, not_not] at beside
        obtain ⟨object, found, alsoLeads⟩ := beside
        cases Leads.unique proper isChild (mem_of_find?_eq_some found) leads alsoLeads
        rw [subscript_parts, found] at inner
        have marks := leads.isPlain marked
        refine (reports_node marked inner ⟨⟨_, .head _, rfl⟩, marks, ?_⟩ ih).concat rfl ?_
        · exact .cons (fun _ mem => .inr (mem_singleton.1 mem ▸ rfl)) (.cons (by simp) .nil)
        intro access beside same
        obtain ⟨first, second, either, plain⟩ := beside.template marked
        cases either.symm.trans same
        rw [subscript_parts, found] at plain
        simp [Template.isPlain, Slots.isPlain, Slots.ofList, marks] at plain

/-- The marked node is not in what is placed: nothing leads to it, or the match bypasses it. -/
def Misses (stencil : Stencil) (mark : NodeId) (tree : Tree) (placed : List Placement) : Prop :=
  ¬stencil.Leads mark (stencil.tree.unwrapped stencil.tree.root) ∨ stencil.Bypassed mark tree placed

end Stencil

namespace Pattern

/-- A match of a pattern with the marker reports the node over which the template of the node behind the
marker lies. It reports its root instead if that template is not placed: a placeholder stands for the pair
around it, or it is a part of a property, and the access is matched in the subscript form. -/
theorem focus_reported {language : Language} {rule source : String} {pattern : Pattern}
    (compiled : compile language rule source = .ok pattern) {before after : List Char}
    (spelled : source.toList = before ++ Snippet.marker ++ after) :
    pattern.focused = true ∧ ∃ stencil mark, Marked language source before stencil mark ∧
      pattern.template = stencil.template (stencil.tree.unwrapped stencil.tree.root) ∧
      ∀ tree id found, pattern.matchAt? tree id = some found →
        ∃ placed, found.Genuine tree pattern.template id placed ∧
          (stencil.Misses mark tree placed → marksOf placed = [] ∧ found.node = id) ∧
          (¬stencil.Misses mark tree placed →
            marksOf placed = [⟨stencil.template mark, found.node⟩] ∧
            ∃ inner, tree.Embeds (stencil.template mark) found.node inner) := by
  obtain ⟨focused, stencil, mark, marked, same⟩ := marked_of_compile compiled spelled
  refine ⟨focused, stencil, mark, marked, same, fun tree id found run => ?_⟩
  obtain ⟨code, placed, result, embeds, takes, whole⟩ := embeds_matchAt? run
  have genuine : found.Genuine tree pattern.template id placed := whole ▸ .of_takes code embeds takes
  have node := genuine.node
  rw [focused_eq_marksOf] at node
  refine ⟨placed, genuine, ?_⟩
  rw [same] at embeds
  by_cases leads : stencil.Leads mark (stencil.tree.unwrapped stencil.tree.root)
  · have reports := leads.reports marked.marked marked.proper embeds
    refine ⟨fun misses => ?_, fun seen => ?_⟩
    · have lost := reports.lost (misses.resolve_left (not_not.2 leads))
      exact ⟨lost, by rw [node, lost]; rfl⟩
    · obtain ⟨target, inner, kept, lies⟩ := reports.kept fun bypassed => seen (.inr bypassed)
      have reported : found.node = target := by rw [node, kept]; rfl
      rw [reported]
      exact ⟨kept, inner, lies⟩
  · have lost := marksOf_of_isPlain (embeds.plain (Stencil.isPlain_of_not_leads marked.marked leads))
    exact ⟨fun _ => ⟨lost, by rw [node, lost]; rfl⟩, fun seen => absurd (.inl leads) seen⟩

/-- The marked property is reported where it is a node of its own, and not where it is written as a text in
a subscript. -/
theorem focus_reported_property :
    ∃ pattern stencil mark found placed,
      compile .javascript "r" "a.$<!>b" = .ok pattern ∧
      Marked .javascript "a.$<!>b" ['a', '.'] stencil mark ∧
      pattern.matchAt? (Script.tree "f.js" "a.b;\n") 2 = some found ∧
      found.Genuine (Script.tree "f.js" "a.b;\n") pattern.template 2 placed ∧
      ¬stencil.Misses mark (Script.tree "f.js" "a.b;\n") placed ∧ found.node = 1 ∧
      (pattern.matchAt? (Script.tree "f.js" "a[\"b\"];\n") 2).map Match.node = some 2 := by
  let tree := Script.tree "f.js" "a.b;\n"
  obtain ⟨pattern, compiled, found, fits, property, lost⟩ :
      ∃ pattern, compile .javascript "r" "a.$<!>b" = .ok pattern ∧ ∃ found ∈ pattern.matchAt? tree 2,
      found.node = 1 ∧ (pattern.matchAt? (Script.tree "f.js" "a[\"b\"];\n") 2).map Match.node = some 2 := by
    decide +kernel
  have spelled : "a.$<!>b".toList = ['a', '.'] ++ Snippet.marker ++ ['b'] := rfl
  obtain ⟨_, stencil, mark, marked, _, reports⟩ := focus_reported compiled spelled
  obtain ⟨placed, genuine, missed, _⟩ := reports tree 2 found fits
  refine ⟨pattern, stencil, mark, found, placed, compiled, marked, fits, genuine, fun misses => ?_,
    property, lost⟩
  cases property.symm.trans (missed misses).2

end Pattern

end LeakTrace
