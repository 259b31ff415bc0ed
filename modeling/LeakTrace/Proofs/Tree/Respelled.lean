import LeakTrace.Proofs.Tree.Pairing

namespace LeakTrace

open List LeakTrace.Tree

namespace Tree

/-- A member access that is written with a dot: first its object, then its name, with nothing but
comments and tokens besides. -/
structure Dotted (tree : Tree) (access : NodeId) : Prop where
  kind : tree.kind access = .member
  parts : ∃ object rest, tree.children access = object :: rest ∧ tree.role object = some .object ∧
    ∀ part ∈ rest, tree.children part = [] ∧ (tree.child? access .property = some part ∨
      tree.role part = none ∧ (tree.kind part = .comment ∨ tree.kind part = .other))
  name : ∃ key text, tree.child? access .property = some key ∧ tree.kind key = .identifier ∧
    tree.text key = some text

end Tree

/-- A tree and the same tree with some of its accesses `o.p` written as `o["p"]`. -/
structure Respelling where
  base : Tree
  other : Tree
  /-- The node of the other tree that stands in the place of a node. -/
  rename : NodeId → NodeId
  /-- The accesses that are written anew. -/
  Chosen : NodeId → Prop
  proper : base.Proper
  injective : Function.Injective rename
  inside : ∀ access, Chosen access → access ∈ base.preorder
  dotted : ∀ access, Chosen access → base.Dotted access
  root : other.root = rename base.root
  children : ∀ node, other.children (rename node) = (base.children node).map rename
  parent : ∀ node, other.parent (rename node) = (base.parent node).map rename
  text : ∀ node, other.text (rename node) = base.text node
  access : ∀ access, Chosen access → other.kind (rename access) = .index
  key : ∀ access key, Chosen access → base.child? access .property = some key →
    other.kind (rename key) = .string ∧ other.role (rename key) = some .index
  kind : ∀ node, ¬Chosen node → (∀ access, Chosen access → base.child? access .property ≠ some node) →
    other.kind (rename node) = base.kind node
  role : ∀ node, (∀ access, Chosen access → base.child? access .property ≠ some node) →
    other.role (rename node) = base.role node

namespace Respelling

variable (r : Respelling) {node child : NodeId} {role : Role}

/-- A part of an access that is written anew, other than its object. -/
def Extra (part : NodeId) : Prop :=
  ∃ access, r.Chosen access ∧ part ∈ r.base.children access ∧ r.base.role part ≠ some .object

variable {r} {key : NodeId}

theorem extra_of_key {access : NodeId} (chosen : r.Chosen access)
    (found : r.base.child? access .property = some key) : r.Extra key := by
  refine ⟨access, chosen, mem_children_of_child? found, ?_⟩
  rw [role_of_child? found]
  exact fun same => nomatch same

theorem not_key (plain : ¬r.Extra node) (access : NodeId) (chosen : r.Chosen access) :
    r.base.child? access .property ≠ some node :=
  fun found => plain (extra_of_key chosen found)

/-- An extra part is the name of an access that is written anew, a comment or a token. -/
theorem Extra.part (extra : r.Extra node) : r.base.children node = [] ∧
    ((∃ access, r.Chosen access ∧ r.base.child? access .property = some node) ∨
      r.base.kind node = .comment ∨ r.base.kind node = .other) := by
  obtain ⟨access, chosen, mem, beside⟩ := extra
  obtain ⟨object, rest, children, isObject, parts⟩ := (r.dotted access chosen).parts
  rw [children, mem_cons] at mem
  rcases mem with rfl | later
  · exact absurd isObject beside
  · exact (parts node later).imp_right (.imp (⟨access, chosen, ·⟩) And.right)

theorem plain_of_child (mem : child ∈ r.base.children node) : ¬r.Extra node := fun extra => by
  rw [extra.part.1] at mem
  cases mem

theorem plain_of_mem (kept : ¬r.Chosen node) (mem : child ∈ r.base.children node) :
    ¬r.Extra child := by
  rintro ⟨access, chosen, alsoMember, _⟩
  exact kept (r.proper.parent_unique alsoMember mem ▸ chosen)

theorem plain_codeChildren (kept : ¬r.Chosen node) :
    ∀ child ∈ r.base.codeChildren node, ¬r.Extra child :=
  fun _ mem => plain_of_mem kept (mem_children_of_codeChildren mem)

theorem plain_object (found : r.base.child? node .object = some child) : ¬r.Extra child := by
  rintro ⟨access, _, _, beside⟩
  exact beside (role_of_child? found)

theorem plain_root (r : Respelling) : ¬r.Extra r.base.root := by
  rintro ⟨access, chosen, mem, _⟩
  have above := lt_of_mem_children mem
  have below := le_of_mem_subtree (r.inside access chosen)
  exact absurd above (Nat.not_lt_of_le below)

theorem kind_chosen (chosen : r.Chosen node) : r.base.kind node = .member :=
  (r.dotted node chosen).kind

theorem kept_of_kind (kind : r.base.kind node ≠ .member) : ¬r.Chosen node :=
  fun chosen => kind (kind_chosen chosen)

theorem kind_kept (kept : ¬r.Chosen node) (plain : ¬r.Extra node) :
    r.other.kind (r.rename node) = r.base.kind node :=
  r.kind node kept (not_key plain)

theorem kind_cases (node : NodeId) :
    r.other.kind (r.rename node) = r.base.kind node ∨
      r.base.kind node = .member ∧ r.other.kind (r.rename node) = .index ∨
      r.base.kind node = .identifier ∧ r.other.kind (r.rename node) = .string := by
  by_cases chosen : r.Chosen node
  · exact .inr (.inl ⟨kind_chosen chosen, r.access node chosen⟩)
  by_cases isKey : ∃ access, r.Chosen access ∧ r.base.child? access .property = some node
  · obtain ⟨access, chosen, found⟩ := isKey
    obtain ⟨key, _, alsoFound, kind, _⟩ := (r.dotted access chosen).name
    cases found.symm.trans alsoFound
    exact .inr (.inr ⟨kind, (r.key access node chosen found).1⟩)
  · exact .inl (r.kind node chosen fun access chosen found => isKey ⟨access, chosen, found⟩)

theorem kind_eq_iff {kind : Kind} (lasting : kind ∉ [Kind.member, .index, .identifier, .string])
    (node : NodeId) : r.other.kind (r.rename node) = kind ↔ r.base.kind node = kind := by
  simp only [mem_cons, not_mem_nil, or_false, not_or] at lasting
  obtain ⟨mem, index, identifier, string⟩ := lasting
  rcases r.kind_cases node with same | ⟨first, second⟩ | ⟨first, second⟩
  · rw [same]
  · rw [first, second]
    exact ⟨fun same => absurd same.symm index, fun same => absurd same.symm mem⟩
  · rw [first, second]
    exact ⟨fun same => absurd same.symm string, fun same => absurd same.symm identifier⟩

theorem role_plain (plain : ¬r.Extra node) : r.other.role (r.rename node) = r.base.role node :=
  r.role node (not_key plain)

/-- What stands after the object of an access that is written anew. -/
theorem chosen_parts (chosen : r.Chosen node) :
    ∃ object rest, r.base.children node = object :: rest ∧ r.base.child? node .object = some object ∧
      r.other.child? (r.rename node) .object = some (r.rename object) ∧ ¬r.Extra object ∧
      ∀ part ∈ rest, r.base.role part ≠ some .object := by
  obtain ⟨object, rest, children, isObject, parts⟩ := (r.dotted node chosen).parts
  have found : r.base.child? node .object = some object := by
    rw [child?, children, find?_cons_of_pos (by simp [isObject])]
  refine ⟨object, rest, children, found, ?_, plain_object found, fun part mem => ?_⟩
  · rw [child?, r.children, children, map_cons, find?_cons_of_pos]
    rw [role_plain (plain_object found), isObject]
    rfl
  rcases (parts part mem).2 with key | ⟨bare, _⟩
  · rw [role_of_child? key]
    decide
  · rw [bare]
    decide

theorem Extra.kind (extra : r.Extra node) :
    r.other.kind (r.rename node) = .string ∨ r.other.kind (r.rename node) = .comment ∨
      r.other.kind (r.rename node) = .other := by
  rcases extra.part.2 with ⟨access, chosen, key⟩ | comment | token
  · exact .inl (r.key access node chosen key).1
  · exact .inr (.inl ((r.kind_eq_iff (by decide) node).2 comment))
  · exact .inr (.inr ((r.kind_eq_iff (by decide) node).2 token))

theorem child?_index (chosen : r.Chosen node) (found : r.base.child? node .property = some key) :
    r.other.child? (r.rename node) .index = some (r.rename key) := by
  obtain ⟨object, rest, children, isObject, parts⟩ := (r.dotted node chosen).parts
  have atObject : r.base.child? node .object = some object := by
    rw [child?, children, find?_cons_of_pos (by simp [isObject])]
  have mem := mem_children_of_child? found
  have among : r.rename key ∈ r.other.children (r.rename node) := by
    rw [r.children]
    exact mem_map_of_mem mem
  -- No other child is an index, so that the search ends at the key.
  have alone : ∀ part ∈ r.other.children (r.rename node),
      r.other.role part = some .index → part = r.rename key := by
    intro image inside isIndex
    rw [r.children, children] at inside
    obtain ⟨part, partMember, rfl⟩ := mem_map.1 inside
    rcases mem_cons.1 partMember with rfl | later
    · rw [role_plain (plain_object atObject), isObject] at isIndex
      cases isIndex
    by_cases isKey : ∃ access, r.Chosen access ∧ r.base.child? access .property = some part
    · obtain ⟨access, alsoChosen, alsoFound⟩ := isKey
      cases r.proper.parent_unique (mem_children_of_child? alsoFound) (children ▸ partMember)
      cases found.symm.trans alsoFound
      rfl
    · have none : ∀ access, r.Chosen access → r.base.child? access .property ≠ some part :=
        fun access chosen found => isKey ⟨access, chosen, found⟩
      rw [r.role part none] at isIndex
      rcases (parts part later).2 with key | ⟨bare, _⟩
      · exact absurd key (none node chosen)
      · rw [bare] at isIndex
        cases isIndex
  cases search : r.other.child? (r.rename node) .index with
  | none =>
    have unfound := find?_eq_none.1 search (r.rename key) among
    rw [(r.key node key chosen found).2] at unfound
    exact absurd rfl unfound
  | some part =>
    rw [alone part (mem_children_of_child? search) (role_of_child? search)]

variable (node)

theorem codeChildren_eq :
    r.other.codeChildren (r.rename node) = (r.base.codeChildren node).map r.rename := by
  rw [codeChildren, codeChildren, r.children, filter_map]
  refine congrArg _ (filter_congr fun child _ => ?_)
  have comment := r.kind_eq_iff (by decide : Kind.comment ∉ _) child
  rw [Function.comp, Bool.eq_iff_iff, bne_iff_ne, bne_iff_ne, ne_eq, ne_eq, comment]

theorem isMethod_eq : Pass.isMethod r.other (r.rename node) = Pass.isMethod r.base node := by
  have classes (outer : Option NodeId) :
      (outer.map r.rename).any (fun id => r.other.kind id == .classDecl) =
        outer.any fun id => r.base.kind id == .classDecl := by
    cases outer with
    | none => rfl
    | some id =>
      have same := r.kind_eq_iff (by decide : Kind.classDecl ∉ _) id
      rw [Option.map_some, Option.any_some, Option.any_some, Bool.eq_iff_iff, beq_iff_eq, beq_iff_eq, same]
  rw [Pass.isMethod, Pass.isMethod, r.parent]
  cases r.base.parent node with
  | none => rfl
  | some outer =>
    simp only [Option.map_some, r.parent, classes]
    rcases r.kind_cases outer with same | ⟨first, second⟩ | ⟨first, second⟩
    · rw [same]
    · rw [first, second]
    · rw [first, second]

theorem functionBody_eq :
    (r.other.parent (r.rename node)).any (fun outer => r.other.kind outer == .function) =
      (r.base.parent node).any fun outer => r.base.kind outer == .function := by
  rw [r.parent]
  cases r.base.parent node with
  | none => rfl
  | some outer =>
    have same := r.kind_eq_iff (by decide : Kind.function ∉ _) outer
    rw [Option.map_some, Option.any_some, Option.any_some, Bool.eq_iff_iff, beq_iff_eq, beq_iff_eq, same]

theorem subtree_eq : r.other.subtree (r.rename node) = (r.base.subtree node).map r.rename := by
  induction node using Nat.strongRecOn with | ind node ih
  rw [Tree.subtree_eq, Tree.subtree_eq, below, below, r.children, map_cons,
    flatMap_map, map_flatMap]
  exact congrArg _ (flatMap_congr fun child mem => ih child (lt_of_mem_children mem))

/-- No access that is written anew is an entry of an object pattern, where a name would be bound. -/
def Apart (r : Respelling) : Prop :=
  ∀ access, r.Chosen access → ∀ outer ∈ r.base.parent access, r.base.kind outer ≠ .objectPattern

variable {node}

theorem anew (apart : r.Apart) (chosen : r.Chosen node) :
    r.base.Anew r.other r.rename (fun node => ¬r.Extra node) node := by
  obtain ⟨object, _, children, _⟩ := (r.dotted node chosen).parts
  obtain ⟨key, text, found, _, named⟩ := (r.dotted node chosen).name
  exact {
    plain := plain_of_child (by rw [children]; exact .head _)
    kind := kind_chosen chosen
    kindOther := r.access node chosen
    parts := chosen_parts chosen
    name := by
      refine ⟨key, text, found, named, child?_index chosen found, ?_⟩
      rw [indexKey?, (r.key node key chosen found).1, r.text, named]
      rfl
    extra := by
      intro part mem beside
      have extra : r.Extra part := ⟨node, chosen, mem, beside⟩
      refine ⟨not_not_intro extra, ?_, extra.kind⟩
      rw [r.children, extra.part.1, map_nil]
    alone := fun part mem outer among => r.proper.parent_unique among mem
    apart := fun outer mem => apart node chosen outer (r.proper.parent outer node mem) }

/-- The two trees have all nodes in common but the parts of the accesses that are written anew. -/
abbrev pairing (r : Respelling) (apart : r.Apart) : Pairing where
  base := r.base
  other := r.other
  rename := r.rename
  Plain node := ¬r.Extra node
  Chosen := r.Chosen
  injective := r.injective
  children node _ := r.children node
  subtree node _ := subtree_eq node
  text node _ := r.text node
  role _ := role_plain
  isMethod node _ := isMethod_eq node
  isBody node _ := functionBody_eq node
  kind _ plain kept := kind_kept kept plain
  part _ _ kept _ := plain_of_mem kept
  anew _ := anew apart

end Respelling

namespace Tree

/-- An access of two parts and its spelling in both trees: the access, its object and its name. -/
@[mk_iff] structure Respelt (base other : Tree) (access object key : NodeId) : Prop where
  inside : access ∈ base.preorder
  kind : base.kind access = .member
  children : base.children access = [object, key]
  object : base.role object = some .object
  childless : base.children key = []
  property : base.child? access .property = some key
  name : base.kind key = .identifier ∧ (base.text key).isSome = true
  index : other.kind access = .index
  string : other.kind key = .string ∧ other.role key = some .index

instance (base other : Tree) (access object key : NodeId) :
    Decidable (base.Respelt other access object key) :=
  decidable_of_iff _ (respelt_iff base other access object key).symm

variable {base other : Tree}

theorem forall_of_below (size : other.size = base.size) {P : NodeId → Node → Node → Prop}
    (blank : ∀ node, P node {} {}) (below : ∀ node < base.size, P node (base.node node) (other.node node))
    (node : NodeId) : P node (base.node node) (other.node node) := by
  have absent {tree : Tree} (outside : tree.size ≤ node) : tree.node node = {} := by
    rw [Tree.node, Array.getD_eq_getD_getElem?, Array.getElem?_eq_none outside]
    rfl
  rcases Nat.lt_or_ge node base.size with inside | outside
  · exact below node inside
  · rw [absent outside, absent (size ▸ outside)]
    exact blank node

theorem Respelt.dotted {access object key : NodeId} (respelt : base.Respelt other access object key) :
    base.Dotted access := by
  obtain ⟨text, named⟩ := Option.isSome_iff_exists.1 respelt.name.2
  refine ⟨respelt.kind, ⟨object, [key], respelt.children, respelt.object, fun part mem => ?_⟩,
    ⟨key, text, respelt.property, respelt.name.1, named⟩⟩
  cases mem_singleton.1 mem
  exact ⟨respelt.childless, .inl respelt.property⟩

/-- Two trees whose nodes have the same handles, and the accesses in which they differ. -/
@[mk_iff] structure RespeltAt (base other : Tree) (accesses : List (NodeId × NodeId × NodeId)) : Prop where
  root : other.root = base.root
  size : other.size = base.size
  respelt : ∀ entry ∈ accesses, base.Respelt other entry.1 entry.2.1 entry.2.2
  links : ∀ node < base.size, other.children node = base.children node ∧
    other.parent node = base.parent node ∧ other.text node = base.text node
  kinds : ∀ node < base.size, other.kind node = base.kind node ∨
    node ∈ accesses.map Prod.fst ∨ node ∈ accesses.map (Prod.snd ∘ Prod.snd)
  roles : ∀ node < base.size, other.role node = base.role node ∨
    node ∈ accesses.map (Prod.snd ∘ Prod.snd)

instance (base other : Tree) (accesses : List (NodeId × NodeId × NodeId)) :
    Decidable (base.RespeltAt other accesses) :=
  decidable_of_iff _ (respeltAt_iff base other accesses).symm

end Tree

/-- A respelling that can be checked node by node. -/
def Respelling.inPlace {base other : Tree} {accesses : List (NodeId × NodeId × NodeId)}
    (proper : base.Proper) (same : base.RespeltAt other accesses) : Respelling where
  base := base
  other := other
  rename := id
  Chosen access := access ∈ accesses.map Prod.fst
  proper := proper
  injective := Function.injective_id
  inside := by
    intro access chosen
    obtain ⟨entry, mem, rfl⟩ := mem_map.1 chosen
    exact (same.respelt entry mem).inside
  dotted := by
    intro access chosen
    obtain ⟨entry, mem, rfl⟩ := mem_map.1 chosen
    exact (same.respelt entry mem).dotted
  root := same.root
  children := by
    intro node
    rw [map_id]
    exact forall_of_below same.size (P := fun _ first second => second.children = first.children)
      (fun _ => rfl) (fun node below => (same.links node below).1) node
  parent := by
    intro node
    rw [Option.map_id]
    exact forall_of_below same.size (P := fun _ first second => second.parent = first.parent)
      (fun _ => rfl) (fun node below => (same.links node below).2.1) node
  text := forall_of_below same.size (P := fun _ first second => second.text = first.text)
    (fun _ => rfl) fun node below => (same.links node below).2.2
  access := by
    intro access chosen
    obtain ⟨entry, mem, rfl⟩ := mem_map.1 chosen
    exact (same.respelt entry mem).index
  key := by
    intro access key chosen found
    obtain ⟨entry, mem, rfl⟩ := mem_map.1 chosen
    cases found.symm.trans (same.respelt entry mem).property
    exact (same.respelt entry mem).string
  kind := by
    intro node kept unnamed
    have cases := forall_of_below same.size (P := fun node first second =>
      second.kind = first.kind ∨ node ∈ accesses.map Prod.fst ∨
        node ∈ accesses.map (Prod.snd ∘ Prod.snd)) (fun _ => .inl rfl) same.kinds node
    rcases cases with equal | chosen | key
    · exact equal
    · exact absurd chosen kept
    · obtain ⟨entry, mem, rfl⟩ := mem_map.1 key
      exact absurd (same.respelt entry mem).property (unnamed _ (mem_map_of_mem mem))
  role := by
    intro node unnamed
    have cases := forall_of_below same.size (P := fun node first second =>
      second.role = first.role ∨ node ∈ accesses.map (Prod.snd ∘ Prod.snd)) (fun _ => .inl rfl) same.roles
      node
    rcases cases with equal | key
    · exact equal
    · obtain ⟨entry, mem, rfl⟩ := mem_map.1 key
      exact absurd (same.respelt entry mem).property (unnamed _ (mem_map_of_mem mem))

end LeakTrace
