import LeakTrace.Proofs.Detection.Selection

namespace LeakTrace.RuleSet

open List

variable {set : RuleSet} {only exclude : List String} {steps : Nat} {first last id : String}

/-- A selection keeps what can be found from the rules that it asks for, in any number of references. -/
theorem mem_needed :
    id ∈ set.needed only exclude ↔
      ∃ rule ∈ set.rules, chosen only exclude rule.id = true ∧ ∃ steps, set.Leads steps rule.id id := by
  rw [needed, mem_gather]
  constructor
  · rintro ⟨first, asked, leads⟩
    obtain ⟨rule, mem, rfl⟩ := mem_map.1 (selected_subset_ids set only exclude first asked)
    exact ⟨rule, mem, (mem_selected mem).1 asked, leads⟩
  · rintro ⟨rule, mem, asked, leads⟩
    exact ⟨rule.id, (mem_selected mem).2 asked, leads⟩

theorem leads_select (kept : first ∈ set.needed only exclude)
    (leads : set.Leads steps first last) : (set.select only exclude).Leads steps first last := by
  induction steps generalizing first with
  | zero => exact leads
  | succ steps ih =>
    obtain ⟨next, reference, rest⟩ := leads
    exact ⟨next, by rwa [referencesOf_select set only exclude kept], ih (needed_closed kept reference) rest⟩

/-- The rule as it is left by a selection that keeps it. -/
def marked (only exclude : List String) (rule : Rule) : Rule :=
  { rule with auxiliary := rule.auxiliary || !chosen only exclude rule.id }

theorem kept_eq_marked {rule : Rule} (mem : rule ∈ set.rules) :
    kept (set.selected only exclude) rule = marked only exclude rule := by
  unfold marked
  cases asked : chosen only exclude rule.id with
  | true => rw [kept_of_mem ((mem_selected mem).2 asked), Bool.not_true, Bool.or_false]
  | false =>
    have absent : rule.id ∉ set.selected only exclude := fun member' => by
      rw [(mem_selected mem).1 member'] at asked
      cases asked
    rw [kept, if_neg (by simpa using absent), Bool.not_false, Bool.or_true]

theorem rules_select (set : RuleSet) (only exclude : List String) :
    (set.select only exclude).rules =
      (set.rules.filter fun rule => (set.needed only exclude).contains rule.id).map
        (marked only exclude) := by
  exact map_congr_left fun rule mem => kept_eq_marked (mem_filter.1 mem).1

/-- Asking for the same rules again changes nothing: all that was kept is found again, and its marks are
set already. -/
theorem select_select (set : RuleSet) (only exclude : List String) :
    (set.select only exclude).select only exclude = set.select only exclude := by
  have again : ∀ rule ∈ (set.select only exclude).rules,
      rule.id ∈ (set.select only exclude).needed only exclude ∧ marked only exclude rule = rule := by
    intro rule mem
    rw [rules_select] at mem
    obtain ⟨before, among, rfl⟩ := mem_map.1 mem
    obtain ⟨_, needed⟩ := mem_filter.1 among
    obtain ⟨first, inside, asked, steps, leads⟩ := mem_needed.1 (by simpa using needed)
    have firstNeeded : first.id ∈ set.needed only exclude :=
      mem_needed.2 ⟨first, inside, asked, 0, rfl⟩
    have firstKept : marked only exclude first ∈ (set.select only exclude).rules := by
      rw [rules_select]
      exact mem_map_of_mem (mem_filter.2 ⟨inside, by simpa using firstNeeded⟩)
    refine ⟨mem_needed.2 ⟨_, firstKept, asked, steps, ?_⟩, ?_⟩
    · exact leads_select firstNeeded leads
    · simp [marked]
  have whole : (set.select only exclude).rules.filter (fun rule =>
      ((set.select only exclude).needed only exclude).contains rule.id) =
        (set.select only exclude).rules :=
    filter_eq_self.2 fun rule mem => by simpa using (again rule mem).1
  have same : ((set.select only exclude).select only exclude).rules =
      (set.select only exclude).rules := by
    rw [rules_select (set.select only exclude), whole]
    exact (map_congr_left fun rule mem => (again rule mem).2).trans (map_id _)
  exact congrArg RuleSet.mk same

/-- What a selection leaves of a rule set, after any selections before it. The rules that remain are those
that can be found by references from the rules that are asked for, in the same order; one serves others
only if it did so before or is not asked for; no reference is lost; and the same selection again changes
nothing. -/
theorem select_exact [RegexEngine] (loaded : set.Loaded) (only exclude : List String) :
    (∃ keep : Rule → Bool,
      (∀ rule ∈ set.rules, keep rule = true ↔ ∃ first ∈ set.rules,
        chosen only exclude first.id = true ∧ ∃ steps, set.Leads steps first.id rule.id) ∧
      (set.select only exclude).rules = (set.rules.filter keep).map fun rule =>
        { rule with auxiliary := rule.auxiliary || !chosen only exclude rule.id }) ∧
    (∀ rule ∈ (set.select only exclude).rules, ∀ id ∈ rule.references,
      ∃ other ∈ (set.select only exclude).rules, other.id = id) ∧
    (set.select only exclude).select only exclude = set.select only exclude := by
  have stratified := loaded.stratified
  refine ⟨⟨fun rule => (set.needed only exclude).contains rule.id, fun rule _ => ?_,
    rules_select set only exclude⟩, fun rule member id reference => ?_,
    set.select_select only exclude⟩
  · rw [contains_iff_mem, mem_needed]
  · have runs := Rule.mem_references.1 reference
    exact mem_map.1 ((stratified.select only exclude).closed _ _ ⟨rule, member, rfl, runs⟩)

/-- The second of two selections asks for a rule that serves others only since the first. -/
theorem select_exact_twice :
    ∃ set : RuleSet, set.Loaded ∧
      (set.select ["MIDDLE"] []).rules.map (fun rule => (rule.id, rule.auxiliary)) =
        [("middle", true), ("bottom", true)] ∧
      (set.select ["MIDDLE"] []).select ["MIDDLE"] [] = set.select ["MIDDLE"] [] := by
  obtain ⟨set, loaded, marks⟩ : ∃ set, ofDrafts [relay "other" none [], relay "top" (some "middle") [],
      relay "middle" none [{ capture := "X", detection := "bottom" }], relay "bottom" none []] = .ok set ∧
      ((set.select [] ["other", "middle"]).select ["MIDDLE"] []).rules.map
        (fun rule => (rule.id, rule.auxiliary)) = [("middle", true), ("bottom", true)] := by
    decide +kernel
  have after : (set.select [] ["other", "middle"]).Loaded :=
    .select _ _ (.ofDrafts loaded)
  exact ⟨_, after, marks, (select_exact after ["MIDDLE"] []).2.2⟩

end LeakTrace.RuleSet
