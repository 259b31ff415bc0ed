import LeakTrace.Proofs.Rule.Order
import LeakTrace.Regex.Read
import Mathlib.Order.WellFounded

namespace LeakTrace

open List Option

variable {id : String}

mutual

/-- The filter is the given one or has it inside, under any number of negations and choices. -/
inductive Filter.Contains (part : Filter) : Filter → Prop
  | self : Filter.Contains part part
  | not {inner : Filter} : Filter.Contains part inner → Filter.Contains part (.not inner)
  | either {choices : Filters} : Filters.Contains part choices →
      Filter.Contains part (.either choices)

inductive Filters.Contains (part : Filter) : Filters → Prop
  | first {filter : Filter} {rest : Filters} : Filter.Contains part filter →
      Filters.Contains part (.some filter rest)
  | later {filter : Filter} {rest : Filters} : Filters.Contains part rest →
      Filters.Contains part (.some filter rest)

end

mutual

theorem Filter.mem_references : (filter : Filter) →
    (id ∈ filter.references ↔ ∃ capture, Filter.Contains (.detection capture id) filter)
  | .not inner => by
    rw [Filter.references, inner.mem_references]
    refine exists_congr fun capture => ⟨.not, fun inside => ?_⟩
    cases inside
    assumption
  | .either choices => by
    rw [Filter.references, choices.mem_references]
    refine exists_congr fun capture => ⟨.either, fun inside => ?_⟩
    cases inside
    assumption
  | .detection capture rule => by
    rw [Filter.references, mem_singleton]
    constructor
    · rintro rfl
      exact ⟨capture, .self⟩
    · rintro ⟨other, inside⟩
      cases inside
      rfl
  | .fileName _ | .values _ _ | .regex _ _ | .stringRegex _ _ | .shorterThan _ _ | .compare _ _ _ => by
    refine iff_of_false not_mem_nil ?_
    rintro ⟨capture, inside⟩
    cases inside

theorem Filters.mem_references : (filters : Filters) →
    (id ∈ filters.references ↔ ∃ capture, Filters.Contains (.detection capture id) filters)
  | .none => by
    refine iff_of_false not_mem_nil ?_
    rintro ⟨capture, inside⟩
    cases inside
  | .some filter rest => by
    rw [Filters.references, mem_append, filter.mem_references, rest.mem_references,
      ← exists_or]
    refine exists_congr fun capture => ⟨fun either => either.elim .first .later, fun inside => ?_⟩
    cases inside with
    | first here => exact .inl here
    | later there => exact .inr there

end

/-- The rule runs the other one: as its sanitizer, or somewhere in a filter of one of its patterns. -/
def Rule.Runs (rule : Rule) (id : String) : Prop :=
  rule.sanitizer = some id ∨ ∃ pattern ∈ rule.patterns, ∃ filter ∈ pattern.filters,
    ∃ capture, Filter.Contains (.detection capture id) filter

theorem Rule.mem_references {rule : Rule} : id ∈ rule.references ↔ rule.Runs id := by
  rw [Rule.references, mem_eraseDups, mem_append, mem_toList]
  simp only [mem_flatMap, Filter.mem_references]
  rfl

namespace RuleSet

variable {set : RuleSet} {next : String} {order active done : List String} {ε α β : Type} {fuel : Nat}
  {error : SetupError}

/-- The reference graph: the rule of the first name runs that of the second. -/
def Refers (set : RuleSet) (first second : String) : Prop :=
  ∃ rule ∈ set.rules, rule.id = first ∧ rule.Runs second

/-- Every reference is to a rule of the set. -/
def Closed (set : RuleSet) : Prop := ∀ first second, set.Refers first second → second ∈ set.ids

/-- The rule leads back to itself. -/
def OnCycle (set : RuleSet) (id : String) : Prop := Relation.TransGen set.Refers id id

theorem refers_of_mem (reference : next ∈ set.referencesOf id) : set.Refers id next := by
  unfold referencesOf at reference
  split at reference
  · rename_i rule found
    obtain ⟨mem, same⟩ := mem_of_get? found
    exact ⟨rule, mem, same, Rule.mem_references.1 reference⟩
  · cases reference

theorem refers_iff (distinct : set.ids.Nodup) : set.Refers id next ↔ next ∈ set.referencesOf id := by
  refine ⟨?_, refers_of_mem⟩
  rintro ⟨rule, mem, rfl, runs⟩
  rw [referencesOf_of_mem distinct mem]
  exact Rule.mem_references.2 runs

theorem mem_ids_iff : id ∈ set.ids ↔ ∃ rule, set.get? id = some rule := by
  refine ⟨fun mem => ?_, fun ⟨_, found⟩ => mem_ids_of_get? found⟩
  obtain ⟨rule, among, rfl⟩ := mem_map.1 mem
  refine ne_none_iff_exists'.1 fun absent => ?_
  have different := find?_eq_none.1 absent rule among
  simp at different

theorem Ordered.closed (ordered : set.Ordered order) (mem : id ∈ order)
    (reference : next ∈ set.referencesOf id) : next ∈ order := by
  obtain ⟨rest, suffix, _, behind⟩ := ordered.behind mem
  exact suffix.subset (.tail _ (behind next reference))

theorem Stratified.closed (stratified : set.Stratified) : set.Closed := by
  obtain ⟨order, ordered, same⟩ := stratified.order
  intro first second refers
  have reference := (refers_iff stratified.distinct).1 refers
  obtain ⟨rule, mem, rfl, _⟩ := refers
  exact (same second).1 (ordered.closed ((same rule.id).2 (mem_map_of_mem mem)) reference)

/-- Whatever stands in an ordered list leads down along it, so that no reference goes on forever. -/
theorem Ordered.acc (distinct : set.ids.Nodup) (ordered : set.Ordered order) (mem : id ∈ order) :
    Acc (fun next id => set.Refers id next) id := by
  induction order generalizing id with
  | nil => cases mem
  | cons head rest ih =>
    obtain ⟨_, behind, restOrdered⟩ := ordered
    rcases mem_cons.1 mem with rfl | later
    · refine .intro _ fun next refers => ih restOrdered ?_
      exact behind next ((refers_iff distinct).1 refers)
    · exact ih restOrdered later

theorem Stratified.wellFounded (stratified : set.Stratified) :
    WellFounded fun next id => set.Refers id next := by
  obtain ⟨order, ordered, same⟩ := stratified.order
  refine ⟨fun id => ?_⟩
  by_cases mem : id ∈ order
  · exact ordered.acc stratified.distinct mem
  · refine .intro id ?_
    rintro next ⟨rule, among, rfl, _⟩
    exact absurd ((same rule.id).2 (mem_map_of_mem among)) mem

theorem Stratified.not_onCycle (stratified : set.Stratified) (id : String) : ¬set.OnCycle id := by
  intro cycle
  have down := Relation.transGen_swap.2 cycle
  exact stratified.wellFounded.transGen.irrefl.irrefl id down

theorem foldlM_eq_error {step : β → α → Except ε β} {items : List α} {before : β} {error : ε}
    (run : items.foldlM step before = .error error) :
    ∃ item ∈ items, ∃ reached, step reached item = .error error := by
  induction items generalizing before with
  | nil => cases run
  | cons item rest ih =>
    rw [foldlM_cons, bind_eq_error] at run
    rcases run with first | ⟨after, _, run⟩
    · exact ⟨item, .head _, before, first⟩
    · obtain ⟨later, mem, reached, fails⟩ := ih run
      exact ⟨later, mem_cons_of_mem _ mem, reached, fails⟩

/-- A walk fails only at a rule that leads back to itself. The rules on the way all lead to the one
that is walked over, so that a reference to one of them closes a cycle. -/
theorem walk_error (way : ∀ other ∈ active, Relation.ReflTransGen set.Refers other id)
    (run : set.walk fuel active done id = .error error) :
    ∃ next, error = .ruleCycle next ∧ set.OnCycle next := by
  induction fuel generalizing active done id with
  | zero => cases run
  | succ fuel ih =>
    rw [walk, bind_eq_error] at run
    rcases run with fails | ⟨_, _, finish⟩
    · obtain ⟨next, mem, reached, step⟩ := foldlM_eq_error fails
      have refers := refers_of_mem (mem_reverse.1 mem)
      have wayHere : ∀ other ∈ id :: active, Relation.ReflTransGen set.Refers other id :=
        forall_mem_cons.2 ⟨.refl, way⟩
      split at step
      · rename_i back
        cases step
        have onWay : next ∈ id :: active := by simpa using back
        exact ⟨next, rfl, .tail' (wayHere next onWay) refers⟩
      · split at step
        · cases step
        · exact ih (fun other onWay => (wayHere other onWay).tail refers) step
    · cases finish

theorem danglingReference?_eq_some (found : set.danglingReference? = some error) :
    ∃ rule reference, error = .unknownReference rule reference ∧ set.Refers rule reference ∧
      reference ∉ set.ids := by
  obtain ⟨rule, mem, first⟩ := exists_of_findSome?_eq_some found
  obtain ⟨reference, missing, rfl⟩ := map_eq_some_iff.1 first
  have runs := Rule.mem_references.1 (mem_of_find?_eq_some missing)
  refine ⟨rule.id, reference, rfl, ⟨rule, mem, rfl, runs⟩, fun known => ?_⟩
  have absent : set.get? reference = none := by simpa using find?_some missing
  obtain ⟨other, found⟩ := mem_ids_iff.1 known
  rw [absent] at found
  cases found

theorem danglingReference?_eq_none_iff (distinct : set.ids.Nodup) :
    set.danglingReference? = none ↔ set.Closed := by
  constructor
  · intro none first second refers
    exact danglingReference?_eq_none none first second ((refers_iff distinct).1 refers)
  intro closed
  cases found : set.danglingReference? with
  | none => rfl
  | some error =>
    obtain ⟨rule, reference, _, refers, missing⟩ := danglingReference?_eq_some found
    exact absurd (closed rule reference refers) missing

/-- The check ends in one of three ways, each with its cause. -/
theorem checkReferences_cases (distinct : set.ids.Nodup) :
    (∃ rule reference, set.checkReferences = .error (.unknownReference rule reference) ∧
      set.Refers rule reference ∧ reference ∉ set.ids) ∨
    (∃ id, set.checkReferences = .error (.ruleCycle id) ∧ set.Closed ∧ set.OnCycle id) ∨
    (set.checkReferences = .ok () ∧ set.Closed ∧ ∀ id, ¬set.OnCycle id) := by
  cases found : set.danglingReference? with
  | some error =>
    obtain ⟨rule, reference, rfl, refers, missing⟩ := danglingReference?_eq_some found
    have checked := checkWithin_of_dangling found set.size
    exact .inl ⟨rule, reference, (checkWithin_eq distinct (Nat.le_refl _)).symm.trans checked, refers, missing⟩
  | none =>
    have closed := (danglingReference?_eq_none_iff distinct).1 found
    cases checked : set.checkReferences with
    | ok nothing =>
      have stratified := stratified_of_checkReferences distinct checked
      exact .inr (.inr ⟨rfl, closed, stratified.not_onCycle⟩)
    | error error =>
      rw [← checkWithin_eq distinct (Nat.le_refl _), checkWithin_of_none found, bind_eq_error] at checked
      rcases checked with fails | ⟨_, _, finish⟩
      · obtain ⟨rule, _, reached, step⟩ := foldlM_eq_error fails
        split at step
        · cases step
        · obtain ⟨id, rfl, cycle⟩ := walk_error (forall_mem_nil _) step
          exact .inr (.inl ⟨id, rfl, closed, cycle⟩)
      · cases finish

theorem checkReferences_eq_ok_iff (distinct : set.ids.Nodup) :
    set.checkReferences = .ok () ↔ set.Closed ∧ ∀ id, ¬set.OnCycle id := by
  rcases checkReferences_cases distinct with
    ⟨rule, reference, checked, refers, missing⟩ | ⟨id, checked, _, cycle⟩ | ⟨checked, passes⟩
  · rw [checked]
    exact ⟨nofun, fun passes => absurd (passes.1 rule reference refers) missing⟩
  · rw [checked]
    exact ⟨nofun, fun passes => absurd cycle (passes.2 id)⟩
  · exact ⟨fun _ => passes, fun _ => checked⟩

/-- The check of the references is exact. It ends without running out of ways; it names a missing rule
exactly if there is a reference to one, else a rule on a cycle exactly if there is a cycle, and else
it passes. -/
theorem checkReferences_exact (set : RuleSet) (distinct : set.ids.Nodup) :
    (∀ fuel, set.size ≤ fuel → set.checkWithin fuel = set.checkReferences) ∧
    ((∃ rule reference, set.checkReferences = .error (.unknownReference rule reference)) ↔
      ∃ rule reference, set.Refers rule reference ∧ reference ∉ set.ids) ∧
    (∀ rule reference, set.checkReferences = .error (.unknownReference rule reference) →
      set.Refers rule reference ∧ reference ∉ set.ids) ∧
    (set.Closed → ((∃ id, set.checkReferences = .error (.ruleCycle id)) ↔ ∃ id, set.OnCycle id)) ∧
    (∀ id, set.checkReferences = .error (.ruleCycle id) → set.Closed ∧ set.OnCycle id) ∧
    (set.checkReferences = .ok () ↔ set.Closed ∧ ∀ id, ¬set.OnCycle id) := by
  suffices causes : _ ∧ _ ∧ _ ∧ _ from
    ⟨fun fuel => checkWithin_eq distinct, causes.1, causes.2.1, causes.2.2.1, causes.2.2.2,
      checkReferences_eq_ok_iff distinct⟩
  rcases checkReferences_cases distinct with
    ⟨rule, reference, checked, refers, missing⟩ | ⟨id, checked, closed, cycle⟩ |
      ⟨checked, closed, acyclic⟩
  · rw [checked]
    refine ⟨⟨fun _ => ⟨rule, reference, refers, missing⟩, fun _ => ⟨rule, reference, rfl⟩⟩, ?_,
      fun closed => absurd (closed rule reference refers) missing, nofun⟩
    rintro _ _ ⟨⟩
    exact ⟨refers, missing⟩
  · rw [checked]
    refine ⟨⟨nofun, fun ⟨first, second, refers, missing⟩ =>
      absurd (closed first second refers) missing⟩, nofun, fun _ => ⟨fun _ => ⟨id, cycle⟩,
        fun _ => ⟨id, rfl⟩⟩, ?_⟩
    rintro _ ⟨⟩
    exact ⟨closed, cycle⟩
  · rw [checked]
    exact ⟨⟨nofun, fun ⟨first, second, refers, missing⟩ =>
      absurd (closed first second refers) missing⟩, nofun, fun _ => ⟨nofun, fun ⟨id, cycle⟩ =>
        absurd cycle (acyclic id)⟩, nofun⟩

/-- A rule for the calls of a function, with what it runs. -/
def relay (id : String) (sanitizer : Option String) (filters : List FilterDraft) : RuleDraft where
  id
  title := "A call"
  description := "Any call of the function."
  severity := .low
  languages := ["javascript"]
  patterns := [{ pattern := "f($<X>)", filters }]
  sanitizer

/-- A rule that leads to the same rule on two ways, which runs one of those on the way in a filter
inside others. -/
def diamondWithRing : List RuleDraft := [
  relay "top" (some "left") [{ capture := "X", detection := "right" }],
  relay "left" (some "bottom") [],
  relay "right" (some "bottom") [],
  relay "bottom" none [{ not := some { either := some [{ capture := "X", detection := "right" }] } }]]

/-- The check names a rule of the ring, and not the rule that leads into it. -/
theorem checkReferences_exact_ring :
    ∃ set : RuleSet, compileAll [] diamondWithRing = .ok set.rules ∧
      set.ids = ["top", "left", "right", "bottom"] ∧ set.ids.Nodup ∧
      set.checkReferences = .error (.ruleCycle "right") ∧ set.checkWithin 100 = set.checkReferences ∧
      set.Closed ∧ set.OnCycle "right" := by
  obtain ⟨rules, compiled, ids, checked⟩ : ∃ rules, compileAll [] diamondWithRing = .ok rules ∧
      (RuleSet.mk rules).ids = ["top", "left", "right", "bottom"] ∧
      (RuleSet.mk rules).checkReferences = .error (.ruleCycle "right") := by
    decide +kernel
  have distinct : (RuleSet.mk rules).ids.Nodup := (compileAll_distinct compiled).1
  have size : (RuleSet.mk rules).size = 4 := by rw [← length_ids, ids]; rfl
  obtain ⟨ends, _, _, _, cyclic, _⟩ := checkReferences_exact ⟨rules⟩ distinct
  obtain ⟨closed, cycle⟩ := cyclic "right" checked
  exact ⟨⟨rules⟩, compiled, ids, distinct, checked, ends 100 (by omega), closed, cycle⟩

end RuleSet

end LeakTrace
