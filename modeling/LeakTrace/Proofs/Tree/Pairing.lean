import LeakTrace.Proofs.Tree.Proper
import Mathlib.Data.List.Find

namespace LeakTrace

open List LeakTrace.Tree Pass

/-- An access that names a property in one tree and is a subscript by a string in the other. Its object comes
first. The other parts stand by themselves: the name, comments and tokens. -/
structure Tree.Anew (base other : Tree) (rename : NodeId → NodeId) (Plain : NodeId → Prop) (access : NodeId) :
    Prop where
  plain : Plain access
  kind : base.kind access = .member
  kindOther : other.kind (rename access) = .index
  parts : ∃ object rest, base.children access = object :: rest ∧ base.child? access .object = some object ∧
    other.child? (rename access) .object = some (rename object) ∧ Plain object ∧
    ∀ part ∈ rest, base.role part ≠ some .object
  name : ∃ key text, base.child? access .property = some key ∧ base.text key = some text ∧
    other.child? (rename access) .index = some (rename key) ∧
    other.indexKey? (rename key) = some (.name text)
  extra : ∀ part ∈ base.children access, base.role part ≠ some .object → ¬Plain part ∧
    other.children (rename part) = [] ∧ (other.kind (rename part) = .string ∨
      other.kind (rename part) = .comment ∨ other.kind (rename part) = .other)
  alone : ∀ part ∈ base.children access, ∀ outer, part ∈ base.children outer → outer = access
  apart : ∀ outer, access ∈ base.children outer → base.kind outer ≠ .objectPattern

/-- Two trees that have nodes in common. -/
structure Pairing where
  base : Tree
  other : Tree
  /-- The node of the other tree that stands in the place of a node. -/
  rename : NodeId → NodeId
  /-- The nodes that both trees have. -/
  Plain : NodeId → Prop
  /-- The accesses that are written anew. -/
  Chosen : NodeId → Prop
  injective : Function.Injective rename
  children : ∀ node, Plain node → other.children (rename node) = (base.children node).map rename
  subtree : ∀ node, Plain node → other.subtree (rename node) = (base.subtree node).map rename
  text : ∀ node, Plain node → other.text (rename node) = base.text node
  role : ∀ node, Plain node → other.role (rename node) = base.role node
  isMethod : ∀ node, Plain node → isMethod other (rename node) = isMethod base node
  isBody : ∀ node, Plain node →
    (other.parent (rename node)).any (fun outer => other.kind outer == .function) =
      (base.parent node).any fun outer => base.kind outer == .function
  kind : ∀ node, Plain node → ¬Chosen node → other.kind (rename node) = base.kind node
  part : ∀ node, Plain node → ¬Chosen node → ∀ child ∈ base.children node, Plain child
  anew : ∀ access, Chosen access → base.Anew other rename Plain access

namespace Pairing

variable (r : Pairing) {node child : NodeId} {role : Role}

/-- A node that both trees have, and that is written in the same way. -/
structure Kept (node : NodeId) : Prop where
  plain : r.Plain node
  same : ¬r.Chosen node

/-- No access is written anew. -/
def Strict : Prop := ∀ node, ¬r.Chosen node

/-- A part of an access that is written anew, other than its object. -/
def Extra (part : NodeId) : Prop :=
  ∃ access, r.Chosen access ∧ part ∈ r.base.children access ∧ r.base.role part ≠ some .object

variable {r}

theorem Extra.alone (extra : r.Extra node) : ¬r.Plain node ∧ r.other.children (r.rename node) = [] ∧
    (r.other.kind (r.rename node) = .string ∨ r.other.kind (r.rename node) = .comment ∨
      r.other.kind (r.rename node) = .other) := by
  obtain ⟨access, chosen, mem, beside⟩ := extra
  exact (r.anew access chosen).extra node mem beside

theorem kept_of_kind (plain : r.Plain node) (kind : r.base.kind node ≠ .member) : r.Kept node :=
  ⟨plain, fun chosen => kind (r.anew node chosen).kind⟩

theorem kind_kept (kept : r.Kept node) : r.other.kind (r.rename node) = r.base.kind node :=
  r.kind node kept.plain kept.same

/-- Of the nodes that both trees have, those alone change their kind that are written anew. -/
theorem kind_plain (plain : r.Plain node) :
    r.other.kind (r.rename node) = r.base.kind node ∨
      r.base.kind node = .member ∧ r.other.kind (r.rename node) = .index := by
  by_cases chosen : r.Chosen node
  · exact .inr ⟨(r.anew node chosen).kind, (r.anew node chosen).kindOther⟩
  · exact .inl (r.kind node plain chosen)

@[elab_as_elim]
theorem kind_cases {motive : Kind → Kind → Prop} (plain : r.Plain node) (same : ∀ kind, motive kind kind)
    (anew : motive .index .member) : motive (r.other.kind (r.rename node)) (r.base.kind node) := by
  rcases r.kind_plain plain with alike | ⟨first, second⟩
  · exact alike ▸ same _
  · rwa [first, second]

section

variable (kept : r.Kept node)
include kept

theorem plain_of_mem (mem : child ∈ r.base.children node) : r.Plain child :=
  r.part node kept.plain kept.same child mem

theorem plain_of_child? (found : r.base.child? node role = some child) : r.Plain child :=
  plain_of_mem kept (mem_children_of_child? found)

theorem plain_codeChildren : ∀ child ∈ r.base.codeChildren node, r.Plain child :=
  fun _ mem => plain_of_mem kept (mem_children_of_codeChildren mem)

theorem filter_children {keep keepOther : NodeId → Bool}
    (same : ∀ child, r.Plain child → keepOther (r.rename child) = keep child) :
    (r.other.children (r.rename node)).filter keepOther =
      ((r.base.children node).filter keep).map r.rename := by
  rw [r.children node kept.plain, filter_map]
  refine congrArg _ (filter_congr fun child mem => ?_)
  exact same child (plain_of_mem kept mem)

theorem codeChildren_eq :
    r.other.codeChildren (r.rename node) = (r.base.codeChildren node).map r.rename :=
  filter_children kept fun _ plain => kind_cases plain (fun _ => rfl) rfl

theorem dynamic_children :
    ((r.other.children (r.rename node)).filter fun child => !isStaticKey r.other child) =
      ((r.base.children node).filter fun child => !isStaticKey r.base child).map r.rename := by
  refine filter_children kept fun child plain => ?_
  rw [isStaticKey, isStaticKey, r.role child plain]
  exact kind_cases plain (fun _ => rfl) rfl

theorem child?_kept (role : Role) :
    r.other.child? (r.rename node) role = (r.base.child? node role).map r.rename := by
  rw [child?, child?, r.children node kept.plain, find?_map]
  refine congrArg _ (find?_congr fun child mem => ?_)
  rw [Function.comp, r.role child (plain_of_mem kept mem)]

end

theorem child?_object (plain : r.Plain node) :
    r.other.child? (r.rename node) .object = (r.base.child? node .object).map r.rename ∧
      ∀ child ∈ r.base.child? node .object, r.Plain child := by
  by_cases chosen : r.Chosen node
  · obtain ⟨object, rest, _, found, foundOther, plainObject, _⟩ := (r.anew node chosen).parts
    rw [found, foundOther]
    exact ⟨rfl, fun child same => Option.some.inj same ▸ plainObject⟩
  · exact ⟨child?_kept ⟨plain, chosen⟩ .object, fun child => plain_of_child? ⟨plain, chosen⟩⟩

theorem entryKey?_eq (plain : r.Plain node) :
    r.other.entryKey? (r.rename node) = r.base.entryKey? node := by
  rw [entryKey?, entryKey?, r.text node plain]
  exact kind_cases plain (fun _ => rfl) rfl

theorem indexKey?_eq (plain : r.Plain node) :
    r.other.indexKey? (r.rename node) = r.base.indexKey? node := by
  rw [indexKey?, indexKey?, r.text node plain]
  exact kind_cases plain (fun _ => rfl) rfl

theorem childKey?_eq (kept : r.Kept node) (role : Role) :
    (r.other.child? (r.rename node) role).bind r.other.entryKey? =
      (r.base.child? node role).bind r.base.entryKey? := by
  rw [child?_kept kept, Option.bind_map]
  exact Option.bind_congr fun child found => entryKey?_eq (plain_of_child? kept found)

theorem rootIdentifier?_eq (plain : r.Plain node) :
    r.other.rootIdentifier? (r.rename node) = (r.base.rootIdentifier? node).map r.rename := by
  induction node using Nat.strongRecOn with | ind node ih
  obtain ⟨moved, inner⟩ := child?_object plain
  have object : (r.other.child? (r.rename node) .object).bind r.other.rootIdentifier? =
      ((r.base.child? node .object).bind r.base.rootIdentifier?).map r.rename := by
    rw [moved, Option.bind_map, Option.map_bind]
    exact Option.bind_congr fun child found => ih child (lt_of_child? found) (inner child found)
  rw [Tree.rootIdentifier?_eq, Tree.rootIdentifier?_eq r.base]
  rcases r.kind_plain plain with same | ⟨first, second⟩
  · rw [same]
    cases r.base.kind node with
    | identifier => rfl
    | member | index => exact object
    | _ => rfl
  · rw [first, second]
    exact object

theorem concatenation_eq (plain : r.Plain node) {part partOther : NodeId → Option String}
    (same : r.base.kind node = .template ∨ r.base.kind node = .binary → ∀ child ∈ r.base.children node,
      r.Plain child → partOther (r.rename child) = part child) :
    r.other.concatenation (r.rename node) partOther = r.base.concatenation node part := by
  rw [concatenation, concatenation, r.text node plain]
  rcases r.kind_plain plain with kind | ⟨first, second⟩
  · rw [kind]
    cases atNode : r.base.kind node with
    | template =>
      have kept := kept_of_kind plain (by rw [atNode]; decide)
      rw [codeChildren_eq kept, map_map]
      refine congrArg (some <| String.join ·) (map_congr_left fun child mem => ?_)
      have inside := mem_children_of_codeChildren mem
      have plainChild := plain_of_mem kept inside
      rw [Function.comp, same (.inl atNode) child inside plainChild, r.text child plainChild]
      exact kind_cases plainChild (fun _ => rfl) rfl
    | binary =>
      have kept := kept_of_kind plain (by rw [atNode]; decide)
      have side (role : Role) : (r.other.child? (r.rename node) role).bind partOther =
          (r.base.child? node role).bind part := by
        rw [child?_kept kept, Option.bind_map]
        exact Option.bind_congr fun child found =>
          same (.inr atNode) child (mem_children_of_child? found) (plain_of_child? kept found)
      simp only [side]
    | _ => rfl
  · rw [first, second]

theorem mem_subtree_rename (plain : r.Plain node) {inner : NodeId} :
    r.rename inner ∈ r.other.subtree (r.rename node) ↔ inner ∈ r.base.subtree node := by
  rw [r.subtree node plain]
  exact mem_map_of_injective r.injective

end Pairing

end LeakTrace
