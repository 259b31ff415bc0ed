import LeakTrace.Pattern.Match
import LeakTrace.Proofs.Suppression
import LeakTrace.Proofs.Tree.Pairing

namespace LeakTrace

open List String

/-- What a stretch of a text says does not depend on the text after it. -/
theorem Text.slice?_append {source : String} {start stop : Nat} (inside : stop ≤ source.utf8ByteSize)
    (rest : String) :
    Text.slice? (source ++ rest).toUTF8 start stop = Text.slice? source.toUTF8 start stop := by
  have bytes : (source ++ rest).toUTF8 = source.toUTF8 ++ rest.toUTF8 := toByteArray_append
  have size : source.toUTF8.size = source.utf8ByteSize := size_toByteArray
  by_cases ordered : start ≤ stop
  · have none : rest.toUTF8.extract (start - source.toUTF8.size) (stop - source.toUTF8.size) =
        ByteArray.empty := by
      rw [show start - source.toUTF8.size = 0 by omega, show stop - source.toUTF8.size = 0 by omega]
      exact ByteArray.extract_same
    rw [slice?, slice?, bytes, if_pos ⟨ordered, by rw [ByteArray.size_append]; omega⟩,
      if_pos ⟨ordered, by omega⟩, ByteArray.extract_append, none, ByteArray.append_empty]
  · rw [slice?, slice?, if_neg fun both => ordered both.1, if_neg fun both => ordered both.1]

namespace Tree

/-- The handle in `more` of a node of `base`: the program node of one is that of the other. -/
def site (base more : Tree) (node : NodeId) : NodeId := if node = base.root then more.root else node

/-- The tree `more` is `base` with further statements at the end of the program. Nodes below the
program node keep their handles; the program node stands behind all others. -/
@[mk_iff] structure Continues (base more : Tree) (added : List NodeId) : Prop where
  file : more.file = base.file
  language : more.language = base.language
  source : ∃ rest, more.source = base.source ++ rest
  program : base.kind base.root = .program
  programMore : more.kind more.root = .program
  last : base.size = base.root + 1
  lastMore : more.size = more.root + 1
  grows : base.root ≤ more.root
  node : ∀ node < base.root,
    more.node node = { base.node node with parent := (base.parent node).map (base.site more) }
  statements : more.children more.root = base.children base.root ++ added
  fresh : ∀ statement ∈ added, ∀ inner ∈ more.subtree statement, base.root ≤ inner

/-- The tree lies in its source: no node reaches past the end, and every statement starts on a line with
text. -/
@[mk_iff] structure Grounded (tree : Tree) : Prop where
  spans : ∀ node < tree.root, (tree.span node).stop ≤ tree.source.utf8ByteSize
  starts : ∀ node < tree.root,
    (∀ parent ∈ tree.parent node, tree.kind parent = .program ∨ tree.kind parent = .block) →
      0 < (tree.span node).line ∧
        ((Text.lines tree.source.toList)[(tree.span node).line - 1]?).any Text.hasText = true

instance (first second : String) : Decidable (∃ rest, second = first ++ rest) :=
  decidable_of_iff (first.toList <+: second.toList) <| by
    constructor
    · rintro ⟨rest, same⟩
      refine ⟨ofList rest, toList_injective ?_⟩
      rw [toList_append, toList_ofList, same]
    · rintro ⟨rest, rfl⟩
      exact ⟨rest.toList, toList_append.symm⟩

instance (base more : Tree) (added : List NodeId) : Decidable (base.Continues more added) :=
  decidable_of_iff _ (continues_iff base more added).symm

instance (tree : Tree) : Decidable tree.Grounded :=
  decidable_of_iff _ (grounded_iff tree).symm

variable {base more : Tree} {added : List NodeId} {node : NodeId} {bound : NodeId}

theorem children_below (inside : node < bound) : ∀ child ∈ base.children node, child < bound :=
  fun _ mem => Nat.lt_trans (lt_of_mem_children mem) inside

theorem child?_below {role : Role} (inside : node < bound) :
    ∀ child ∈ base.child? node role, child < bound :=
  fun _ found => Nat.lt_trans (lt_of_child? found) inside

theorem site_root (base more : Tree) : base.site more base.root = more.root := if_pos rfl

theorem site_of_lt (inside : node < base.root) : base.site more node = node :=
  if_neg (Nat.ne_of_lt inside)

theorem le_root_of_parent {parent : NodeId} (last : base.size = base.root + 1)
    (link : base.parent node = some parent) : node < base.root ∧ parent ≤ base.root := by
  obtain ⟨above, inside⟩ := lt_of_parent link
  have bound : parent ≤ base.root := Nat.le_of_lt_succ (Nat.lt_of_lt_of_eq inside last)
  exact ⟨Nat.lt_of_lt_of_le above bound, bound⟩

theorem parent_root (last : base.size = base.root + 1) : base.parent base.root = none := by
  cases link : base.parent base.root with
  | none => rfl
  | some parent => exact absurd (le_root_of_parent last link).1 (Nat.lt_irrefl _)

namespace Continues

variable (continues : base.Continues more added)
include continues

section

variable (inside : node < base.root)
include inside

theorem kind : more.kind node = base.kind node := by
  rw [Tree.kind, continues.node node inside]
  rfl

theorem role : more.role node = base.role node := by
  rw [Tree.role, continues.node node inside]
  rfl

theorem text : more.text node = base.text node := by
  rw [Tree.text, continues.node node inside]
  rfl

theorem span : more.span node = base.span node := by
  rw [Tree.span, continues.node node inside]
  rfl

theorem children : more.children node = base.children node := by
  rw [Tree.children, continues.node node inside]
  rfl

theorem parent : more.parent node = (base.parent node).map (base.site more) := by
  rw [Tree.parent, continues.node node inside]

end

theorem kind_site (inside : node ≤ base.root) : more.kind (base.site more node) = base.kind node := by
  rcases Nat.lt_or_eq_of_le inside with below | rfl
  · rw [site_of_lt below, continues.kind below]
  · rw [site_root, continues.programMore, continues.program]

theorem subtree (inside : node < base.root) : more.subtree node = base.subtree node := by
  induction node using Nat.strongRecOn with | ind node ih
  rw [subtree_eq, subtree_eq, below, below, continues.children inside]
  refine congrArg (node :: ·) (flatMap_congr fun child mem => ?_)
  have smaller := lt_of_mem_children mem
  exact ih child smaller (Nat.lt_trans smaller inside)

theorem below_root : more.below more.root = base.below base.root ++ added.flatMap more.subtree := by
  rw [below, continues.statements, flatMap_append]
  refine congrArg (· ++ _) (flatMap_congr fun child mem => ?_)
  exact continues.subtree (lt_of_mem_children mem)

theorem ancestors (inside : node ≤ base.root) :
    more.ancestors (base.site more node) = (base.ancestors node).map (base.site more) := by
  fun_induction Tree.ancestors base node with
  | case1 node top =>
    rcases Nat.lt_or_eq_of_le inside with below | rfl
    · rw [site_of_lt below, ancestors_of_none]
      · rfl
      · rw [continues.parent below, top]
        rfl
    · rw [site_root, ancestors_of_none (parent_root continues.lastMore)]
      rfl
  | case2 node parent link ih =>
    obtain ⟨below, bound⟩ := le_root_of_parent continues.last link
    rw [site_of_lt below, ancestors_of_some, ih bound]
    · rfl
    · rw [continues.parent below, link]
      rfl

theorem any_parent (inside : node < base.root) {test other : NodeId → Bool}
    (agree : ∀ parent ≤ base.root, other (base.site more parent) = test parent) :
    (more.parent node).any other = (base.parent node).any test := by
  rw [continues.parent inside, Option.any_map]
  cases link : base.parent node with
  | none => rfl
  | some parent => exact agree parent (le_root_of_parent continues.last link).2

theorem isMethod (inside : node < base.root) :
    Pass.isMethod more node = Pass.isMethod base node := by
  rw [Pass.isMethod, Pass.isMethod, continues.parent inside]
  cases link : base.parent node with
  | none => rfl
  | some parent =>
    have bound := (le_root_of_parent continues.last link).2
    simp only [Option.map_some, continues.kind_site bound]
    rcases Nat.lt_or_eq_of_le bound with below | rfl
    · rw [site_of_lt below, continues.any_parent below fun outer within => by
        rw [continues.kind_site within]]
    · rw [continues.program]

/-- The nodes below the program node are in both trees. -/
abbrev pairing : Pairing where
  base := base
  other := more
  rename := id
  Plain := (· < base.root)
  Chosen _ := False
  injective := Function.injective_id
  children _ inside := (continues.children inside).trans (map_id _).symm
  subtree _ inside := (continues.subtree inside).trans (map_id _).symm
  text _ := continues.text
  role _ := continues.role
  isMethod _ := continues.isMethod
  isBody _ inside := continues.any_parent inside fun _ bound => by rw [continues.kind_site bound]
  kind _ inside _ := continues.kind inside
  part _ inside _ := children_below inside
  anew := nofun

section

variable (inside : node < base.root)
include inside

theorem kept : continues.pairing.Kept node := ⟨inside, id⟩

theorem codeChildren : more.codeChildren node = base.codeChildren node :=
  (Pairing.codeChildren_eq (continues.kept inside)).trans (map_id _)

theorem child? (role : Role) : more.child? node role = base.child? node role :=
  (Pairing.child?_kept (continues.kept inside) role).trans Option.map_id_apply

theorem isCompared : more.isCompared node = base.isCompared node := by
  refine continues.any_parent inside fun parent bound => ?_
  rcases Nat.lt_or_eq_of_le bound with below | rfl
  · rw [site_of_lt below, continues.kind below, continues.text below]
  · rw [site_root, continues.program, continues.programMore]
    rfl

end

theorem content (grounded : base.Grounded) (inside : node < base.root) :
    more.content node = base.content node := by
  obtain ⟨rest, source⟩ := continues.source
  rw [Tree.content, Tree.content, continues.span inside, source]
  exact congrArg (·.getD "") (Text.slice?_append (grounded.spans node inside) rest)

end Continues

end Tree

end LeakTrace
