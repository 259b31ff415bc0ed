import LeakTrace.Proofs.Pattern.Embedding
import LeakTrace.Proofs.Pattern.Simulation
import LeakTrace.Proofs.Tree.Continues

namespace LeakTrace

open List

variable {Region : NodeId → Prop} {name : String}

namespace Captures

theorem mem_insert {captures : Captures} {node : NodeId} {entry : String × NodeId} :
    entry ∈ (captures.insert name node).entries ↔ entry = (name, node) ∨ entry ∈ captures.entries := by
  have whole := takeWhile_append_dropWhile (p := fun entry : String × NodeId =>
    decide (entry.1 < name)) (l := captures.entries)
  simp only [insert, span_eq_takeWhile_dropWhile, mem_append, mem_cons]
  rw [or_left_comm, ← mem_append, whole]

end Captures

/-- All nodes that were found lie in the region. -/
structure Partial.Within (Region : NodeId → Prop) (found : Partial) : Prop where
  captures : ∀ entry ∈ found.captures.entries, Region entry.2
  focus : ∀ node ∈ found.focus, Region node

theorem within_nothing (Region : NodeId → Prop) : Partial.Within Region {} := ⟨nofun, nofun⟩

namespace Partial.Within

variable {found : Partial}

theorem add (within : found.Within Region) {place : Placement} (inside : Region place.node) :
    (found.add place).Within Region := by
  unfold Partial.add
  split
  · split
    · exact within
    · refine ⟨fun entry mem => ?_, within.focus⟩
      rcases Captures.mem_insert.1 mem with rfl | old
      · exact inside
      · exact within.captures entry old
  · refine ⟨within.captures, fun node mem => ?_⟩
    cases mem
    exact inside
  · exact within

theorem after (within : found.Within Region) {placed : List Placement}
    (inside : ∀ place ∈ placed, Region place.node) : (found.after placed).Within Region := by
  induction placed generalizing found with
  | nil => exact within
  | cons place rest ih =>
    obtain ⟨here, there⟩ := forall_mem_cons.1 inside
    exact ih (within.add here) there

end Partial.Within

namespace Tree

variable {tree : Tree} {found result : Partial} {id : NodeId}

/-- A template that fits at a node finds nodes of the subtree there alone. -/
theorem within_fit (template : Template) (inside : ∀ inner ∈ tree.subtree id, Region inner)
    (within : found.Within Region) (run : tree.fit template id found = some result) :
    result.Within Region := by
  obtain ⟨placed, embeds, takes⟩ := embeds_fit template run
  rw [takes.after]
  exact within.after fun place mem => inside place.node (embeds.within place mem)

namespace Continues

variable {base more : Tree} {added : List NodeId} (continues : base.Continues more added)
include continues

theorem rolesAgree (expected : Option Role) (inside : id < base.root) :
    more.rolesAgree expected id = base.rolesAgree expected id := by
  simp only [Tree.rolesAgree, continues.role inside]

omit continues in
theorem subtree_below (inside : id < base.root) : ∀ inner ∈ base.subtree id, inner < base.root :=
  fun _ mem => Nat.lt_of_le_of_lt (le_of_mem_subtree mem) inside

theorem capture? (grounded : base.Grounded) {kinds : List Kind}
    (within : found.Within (· < base.root)) (inside : id < base.root) :
    more.capture? name kinds id found = base.capture? name kinds id found := by
  simp only [Tree.capture?, continues.kind inside, continues.isCompared inside]
  split
  · rfl
  split
  · rfl
  split
  · rename_i earlier taken
    have below := within.captures _ (Captures.mem_of_get? taken)
    rw [continues.content grounded below, continues.content grounded inside]
  · rfl

mutual

theorem fit (grounded : base.Grounded) : (template : Template) → {id : NodeId} →
    {found : Partial} → id < base.root → found.Within (· < base.root) →
    more.fit template id found = base.fit template id found
  | .wildcard, id, found, inside, within => by
    rw [Tree.fit, Tree.fit, continues.kind inside]
  | .variadic, id, found, inside, within => by
    rw [Tree.fit, Tree.fit, continues.kind inside]
  | .capture name kinds, id, found, inside, within => by
    rw [Tree.fit, Tree.fit, continues.capture? grounded within inside]
  | .either first second, id, found, inside, within => by
    rw [Tree.fit, Tree.fit, fit grounded first inside within, fit grounded second inside within]
  | .focus inner, id, found, inside, within => by
    rw [Tree.fit, Tree.fit, fit grounded inner inside within]
  | .node kind text anchored children, id, found, inside, within => by
    have below : ∀ child ∈ base.codeChildren id, child < base.root := fun child mem =>
      children_below inside child (mem_filter.1 mem).1
    exact eq_of_rel ((parallel grounded children below).fit_node (continues.kind inside)
      (continues.text inside) ((continues.codeChildren inside).trans (map_id _).symm) ⟨rfl, within⟩ kind
      text anchored)

theorem parallel (grounded : base.Grounded) : (slots : Slots) → {nodes : List NodeId} →
    (∀ node ∈ nodes, node < base.root) →
    slots.Parallel (fun node => node) more base nodes (fun _ => Same (Partial.Within (· < base.root))) slots
  | .none, nodes, inside => .none
  | .some role template rest, nodes, inside => by
    refine .slot rfl (fun _ _ _ => id) (fun _ id mem found other same => ?_)
      (parallel grounded rest inside)
    obtain ⟨rfl, within⟩ := same
    have below := inside id mem
    refine rel_of_eq ?_ fun result run => within_fit template (subtree_below below) within
      (attempt_eq_some.1 run).2
    rw [attempt, attempt, continues.rolesAgree role below, fit grounded template below within]

end

theorem matchAt? (grounded : base.Grounded) (pattern : Pattern) (inside : id < base.root) :
    pattern.matchAt? more id = pattern.matchAt? base id := by
  rw [Pattern.matchAt?, Pattern.matchAt?, continues.kind inside,
    continues.fit grounded pattern.template inside (within_nothing _)]

theorem matchesWithin (grounded : base.Grounded) (pattern : Pattern) (inside : id < base.root) :
    pattern.matchesWithin more id = pattern.matchesWithin base id := by
  rw [Pattern.matchesWithin, Pattern.matchesWithin, continues.subtree inside]
  exact filterMap_congr fun inner mem =>
    continues.matchAt? grounded pattern (subtree_below inside inner mem)

end Continues

end Tree

namespace Match

/-- The reported node and the captures lie in the region. -/
structure Inside (Region : NodeId → Prop) (found : Match) : Prop where
  node : Region found.node
  captures : ∀ entry ∈ found.captures.entries, Region entry.2

end Match

/-- A match reports and captures nodes of the subtree at which it was found. -/
theorem Pattern.inside_matchAt? {pattern : Pattern} {tree : Tree} {id : NodeId} {found : Match}
    (region : ∀ inner ∈ tree.subtree id, Region inner)
    (run : pattern.matchAt? tree id = some found) : found.Inside Region := by
  unfold matchAt? at run
  split at run
  · cases run
  obtain ⟨result, fits, rfl⟩ := Option.map_eq_some_iff.1 run
  have within := Tree.within_fit pattern.template region (within_nothing _) fits
  refine ⟨?_, within.captures⟩
  cases focus : result.focus with
  | none => exact region id (tree.mem_subtree_self id)
  | some node => exact within.focus node focus

end LeakTrace
