import LeakTrace.Proofs.Flow.Twin.Descend
import LeakTrace.Proofs.Tree.Continues

namespace LeakTrace

open Std.TreeMap

variable {Region : NodeId → Prop} {after : Pass}

theorem Chain.rename_id : Chain.rename id = id := by
  funext chain
  obtain ⟨root, segments, unknownTail⟩ := chain
  cases root <;> rfl

theorem Shape.eq_of_outline {shape twin : Shape} (outline : twin.outline = shape.outline)
    (writes : twin.writes = shape.writes) : twin = shape := by
  cases shape with
  | object name first =>
    cases twin with
    | object other second =>
      cases writes
      cases outline
      rfl
    | _ => cases outline
  | _ =>
    cases twin <;> cases outline
    rfl

namespace Pairing

variable {r : Pairing} {link : Link} {pass other : Pass}

theorem eq_some_of_rel {α : Type} {R : α → α → Prop} {a b : Option α} (related : Option.Rel R a b)
    (same : ∀ x y, R x y → y = x) : b = a := by
  cases related with
  | none => rfl
  | some related => rw [same _ _ related]

/-- Where no access is written anew and no handle changes, the passes differ in nodes alone that one of the
trees has. -/
theorem Twin.extends {epoch : Nat} (twin : r.Twin link pass other)
    (strict : r.Strict) (still : r.rename = id) (plain : ∀ node, ¬Region node → r.Plain node) :
    Pass.Extends Region epoch pass other := by
  have handle {id image : ShapeId} (held : link.Held id image) : image = id := by
    obtain ⟨birth, born⟩ := held
    exact (twin.store.exact strict).2 id image birth born
  have write (birth : Nat) (write copy : Write)
      (related : r.WriteTwin link (pass.moment other) birth write copy) : write = copy := by
    have key := related.key
    have node := related.node
    have shape := handle (related.value.imp fun _ both => both.2)
    have epoch := related.exact strict
    rw [still] at node
    cases copy
    cases key
    cases node
    cases shape
    cases epoch
    rfl
  refine ⟨fun id shape found => ⟨shape, ?_, .refl _ _⟩, fun id binding found => ?_, fun node outside => ?_,
    fun node outside => ?_, fun node outside => ?_⟩
  · have inside : id < pass.shapes.size := ShapeStore.lt_size_of_get? found
    obtain ⟨⟨image, birth⟩, born⟩ : ∃ entry, link[id]? = some entry := by
      rw [← Option.isSome_iff_exists, isSome_getElem?, twin.store.size]
      exact inside
    cases handle ⟨birth, born⟩
    obtain ⟨copy, atImage⟩ := ShapeStore.exists_of_lt_size (twin.store.handles id id birth born).1
    have related := twin.store.related id id birth shape copy born found atImage
    have writes := related.writes.imp (write birth)
    rw [List.forall₂_eq_eq_eq] at writes
    rw [atImage, Shape.eq_of_outline related.outline writes.symm]
  · rw [← found]
    refine eq_some_of_rel (twin.scopes.bindings id) fun binding copy related => ?_
    have shape := eq_some_of_rel related.shape fun _ _ => handle
    have path := related.path
    rw [still, Chain.rename_id, Option.map_id] at path
    obtain ⟨name, kind, scope, node, _, _⟩ := related
    rw [still] at node
    cases copy
    cases name
    cases kind
    cases scope
    cases node
    cases shape
    cases path
    rfl
  · have same := twin.scopes.references node (plain node outside)
    rwa [still] at same
  · have same := eq_some_of_rel (twin.marks node (plain node outside)) fun mark copy related => by
      have epoch := related.exact strict
      have scope := related.scope
      cases copy
      cases epoch
      cases scope
      rfl
    rwa [still] at same
  · have same := eq_some_of_rel (twin.fixed node (plain node outside)) fun _ _ => handle
    rwa [still] at same

end Pairing

namespace Pass

/-- All that a visit changes comes after the present epoch, since it begins with a mark. -/
theorem Visits.later {tree : Tree} {visit : Visit} {nodes : List NodeId}
    (visits : Visits tree visit) (inside : ∀ node ∈ nodes, ∀ inner ∈ tree.subtree node, Region inner)
    {before : Pass} (sound : before.Sound) (run : visitAll visit nodes before = .ok after) :
    Extends Region (before.epoch + 1) before after := by
  induction nodes generalizing before with
  | nil =>
    cases run
    exact .refl _ _ _
  | cons node rest ih =>
    rw [visitAll, List.foldlM_cons, bind_eq_ok] at run
    obtain ⟨middle, first, run⟩ := run
    have within := inside node (.head _)
    have here := visits first sound
    have marked : Extends Region (before.epoch + 1) before (before.mark node) :=
      extends_mark (within node (tree.mem_subtree_self node))
    have parts : Extends Region (before.epoch + 1) (before.mark node) middle :=
      here.grows.mono within (Nat.le_refl _)
    have others := ih (fun other mem => inside other (.tail _ mem))
      (here.sound (sound.mark node)) run
    refine (marked.trans parts).trans (others.mono (fun _ region => region) ?_)
    exact Nat.succ_le_succ (Nat.le_trans (Nat.le_succ _) here.epoch_le)

section

variable {tree : Tree} {blocks : Bool} {limits : Limits} {pass : Pass}
  (program : tree.kind tree.root = .program) (run : Pass.run tree blocks limits = .ok pass)
include program run

theorem program_run :
    visitAll (Pass.visit tree blocks limits.maxDepth limits.maxDepth)
      (tree.children tree.root) (start.mark tree.root) = .ok pass := by
  unfold Pass.run at run
  split at run
  · cases run
  rw [Pass.visit, visitBody, bind_eq_ok] at run
  obtain ⟨after, parts, finish⟩ := run
  rw [visitParts, program] at parts
  simp only [memoize, fixedShape, program] at finish
  cases finish
  exact parts

theorem program_node :
    pass.marks[tree.root]? = some ⟨1, Scopes.root⟩ ∧
      pass.scopes.resolution? tree.root = none ∧ pass.fixed[tree.root]? = none := by
  have visits := (visits_and_binds tree blocks limits.maxDepth limits.maxDepth).1
  have below : ∀ child ∈ tree.children tree.root, ∀ inner ∈ tree.subtree child, inner < tree.root :=
    fun child mem inner inside =>
      Nat.lt_of_le_of_lt (Tree.le_of_mem_subtree inside) (Tree.lt_of_mem_children mem)
  have extend := visits.later below (sound_start.mark tree.root) (program_run program run)
  have outside : ¬tree.root < tree.root := Nat.lt_irrefl _
  rw [extend.marks _ outside, extend.references _ outside, extend.fixed _ outside]
  exact ⟨getElem?_insert_self, getElem?_emptyc, getElem?_emptyc⟩

end

/-- What the pass knows after the first statements stays as it is when further ones follow. -/
theorem extends_run {base more : Tree} {added : List NodeId} (continues : base.Continues more added)
    {blocks : Bool} {limits limitsMore : Limits} {pass : Pass}
    (run : Pass.run base blocks limits = .ok pass) (runMore : Pass.run more blocks limitsMore = .ok after) :
    Extends (base.root ≤ ·) (pass.epoch + 1) pass after := by
  have statements := program_run continues.program run
  have all := program_run continues.programMore runMore
  rw [visitAll, continues.statements, List.foldlM_append, bind_eq_ok] at all
  obtain ⟨middle, first, rest⟩ := all
  have absent {root node : NodeId} (inside : node < root) : (start.mark root).marks[node]? = none :=
    (getElem?_insert_of_ne (Nat.ne_of_gt inside)).trans getElem?_emptyc
  have begin : continues.pairing.Twin [] (start.mark base.root) (start.mark more.root) := by
    refine Pairing.twin_start (sound_start.mark _) (sound_start.mark _) (fun _ => absent) fun node either => ?_
    rcases either with inside | ⟨_, chosen, _⟩
    · exact absent (Nat.lt_of_lt_of_le inside continues.grows)
    · cases chosen
  rw [← List.map_id (base.children base.root)] at first
  -- After the first statements the two passes differ in nodes outside of them alone.
  obtain ⟨link, _, twin⟩ := (Pairing.visitsTwin_visit (r := continues.pairing) blocks limits.maxDepth
    limitsMore.maxDepth limits.maxDepth limitsMore.maxDepth).1.all (fun _ => Tree.lt_of_mem_children) begin
    statements first
  have strict : continues.pairing.Strict := fun _ => id
  have visits := (visits_and_binds more blocks limitsMore.maxDepth limitsMore.maxDepth).1
  have extend := visits.later continues.fresh twin.soundTwin rest
  rw [twin.exact strict] at extend
  exact (twin.extends strict rfl fun _ => Nat.lt_of_not_le).trans extend

end Pass

end LeakTrace
