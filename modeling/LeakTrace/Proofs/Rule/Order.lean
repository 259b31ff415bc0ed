import LeakTrace.Proofs.Rule.Search

namespace LeakTrace

open List

variable {id : String} {order : List String}

theorem Rule.id_of_ofDraft [RegexEngine] {draft : RuleDraft} {rule : Rule}
    (compiled : Rule.ofDraft draft = .ok rule) : rule.id = draft.id := by
  obtain ⟨_, _, compiled⟩ := bind_eq_ok.1 compiled
  obtain ⟨_, _, compiled⟩ := bind_eq_ok.1 compiled
  split at compiled
  · cases compiled
  · obtain ⟨_, _, compiled⟩ := bind_eq_ok.1 compiled
    cases compiled
    rfl

namespace RuleSet

section

variable {set : RuleSet}

/-- A list in which every rule stands in front of the rules that it refers to, and none twice. -/
def Ordered (set : RuleSet) : List String → Prop
  | [] => True
  | id :: rest => id ∉ rest ∧ (∀ next ∈ set.referencesOf id, next ∈ rest) ∧ set.Ordered rest

theorem Ordered.nodup (ordered : set.Ordered order) : order.Nodup := by
  induction order with
  | nil => exact .nil
  | cons id rest ih => exact nodup_cons.2 ⟨ordered.1, ih ordered.2.2⟩

theorem Ordered.behind (ordered : set.Ordered order) (mem : id ∈ order) :
    ∃ rest, id :: rest <:+ order ∧ set.Ordered rest ∧ ∀ next ∈ set.referencesOf id, next ∈ rest := by
  induction order with
  | nil => cases mem
  | cons head rest ih =>
    rcases mem_cons.1 mem with rfl | later
    · exact ⟨rest, suffix_rfl, ordered.2.2, ordered.2.1⟩
    · obtain ⟨deeper, suffix, behind⟩ := ih ordered.2.2 later
      exact ⟨deeper, suffix.trans (suffix_cons _ _), behind⟩

end

/-- The rules that were walked over: a list in order, and none of the rules on the way is in it. -/
structure Walked (set : RuleSet) (active done : List String) : Prop where
  ordered : set.Ordered done
  inside : ∀ id ∈ done, id ∈ set.ids
  apart : ∀ id ∈ active, id ∉ done

/-- A list that extends another one and has the rule in it. -/
def Reaching (done next : List String) (id : String) : Prop :=
  (∀ other ∈ done, other ∈ next) ∧ id ∈ next

variable {set : RuleSet}

/-- Steps that keep a list good and bring the name of each item into it do so for all items. -/
theorem foldlM_reaching {ε α : Type} {step : List String → α → Except ε (List String)}
    (Good : List String → Prop) (name : α → String) {items : List α}
    (keeps : ∀ item ∈ items, ∀ before after, Good before → step before item = .ok after →
      Good after ∧ Reaching before after (name item))
    {before after : List String} (good : Good before)
    (run : items.foldlM step before = .ok after) :
    Good after ∧ (∀ id ∈ before, id ∈ after) ∧ ∀ item ∈ items, name item ∈ after := by
  induction items generalizing before with
  | nil =>
    cases run
    exact ⟨good, fun _ mem => mem, fun _ mem => by cases mem⟩
  | cons first rest ih =>
    rw [foldlM_cons, bind_eq_ok] at run
    obtain ⟨middle, step, run⟩ := run
    obtain ⟨goodMiddle, kept, reached⟩ := keeps first (.head _) before middle good step
    obtain ⟨goodAfter, keptRest, reachedRest⟩ :=
      ih (fun item mem => keeps item (.tail _ mem)) goodMiddle run
    refine ⟨goodAfter, fun id mem => keptRest id (kept id mem), ?_⟩
    exact forall_mem_cons.2 ⟨keptRest _ reached, reachedRest⟩

/-- A walk that ends without a cycle leaves the rule and all that it leads to in order. The fuel does
not run out: the rules on the way differ, and no way is longer than there are rules. -/
theorem walk_walked (closed : ∀ id, ∀ next ∈ set.referencesOf id, next ∈ set.ids) {fuel : Nat}
    {active done next : List String} (distinct : (id :: active).Nodup)
    (inside : ∀ other ∈ id :: active, other ∈ set.ids) (enough : set.size ≤ fuel + active.length)
    (walked : set.Walked (id :: active) done) (run : set.walk fuel active done id = .ok next) :
    set.Walked active next ∧ Reaching done next id := by
  induction fuel generalizing active done next id with
  | zero =>
    -- A way without repetition is no longer than there are rules, so the fuel cannot run out.
    have short := way_short distinct inside
    simp only [length_cons] at short
    omega
  | succ fuel ih =>
    rw [walk, bind_eq_ok] at run
    obtain ⟨after, finished, last⟩ := run
    cases last
    have fold := foldlM_reaching (set.Walked (id :: active)) (fun other => other) (fun other mem
        before after progress step => ?_) walked finished
    · obtain ⟨walkedAfter, kept, reached⟩ := fold
      have unseen : id ∉ after := walkedAfter.apart id (.head _)
      refine ⟨⟨⟨unseen, ?_, walkedAfter.ordered⟩, ?_, ?_⟩, ?_, .head _⟩
      · exact fun other mem => reached other (mem_reverse.2 mem)
      · exact forall_mem_cons.2 ⟨inside id mem_cons_self, walkedAfter.inside⟩
      · intro other mem
        have different : other ≠ id := fun same => (nodup_cons.1 distinct).1 (same ▸ mem)
        have absent := walkedAfter.apart other (.tail _ mem)
        simp [different, absent]
      · exact fun other mem => mem_cons_of_mem _ (kept other mem)
    · split at step
      · cases step
      rename_i fresh
      split at step
      · rename_i old
        cases step
        exact ⟨progress, fun _ mem => mem, by simpa using old⟩
      rename_i unseen
      simp only [contains_eq_mem, decide_eq_true_eq] at fresh unseen
      have known := closed id other (mem_reverse.1 mem)
      refine ih (nodup_cons.2 ⟨fresh, distinct⟩) (forall_mem_cons.2 ⟨known, inside⟩) ?_
        ⟨progress.ordered, progress.inside,
          forall_mem_cons.2 ⟨unseen, progress.apart⟩⟩ step
      simp only [length_cons]
      omega

/-- A rule set whose identifiers differ and whose references can be put in order. -/
structure Stratified (set : RuleSet) : Prop where
  distinct : set.ids.Nodup
  order : ∃ order, set.Ordered order ∧ ∀ id, id ∈ order ↔ id ∈ set.ids

section

variable {set : RuleSet} {drafts : List RuleDraft}

theorem stratified_of_checkReferences (distinct : set.ids.Nodup) (checked : set.checkReferences = .ok ()) :
    set.Stratified := by
  refine ⟨distinct, ?_⟩
  rw [← checkWithin_eq distinct (Nat.le_refl _)] at checked
  unfold checkWithin at checked
  split at checked
  · cases checked
  rename_i none
  obtain ⟨order, run, _⟩ := bind_eq_ok.1 checked
  have closed := danglingReference?_eq_none none
  have nothing : set.Walked [] [] :=
    ⟨trivial, forall_mem_nil _, forall_mem_nil _⟩
  have fold := foldlM_reaching (set.Walked []) Rule.id (fun rule mem before after progress
      step => ?_) nothing run
  · obtain ⟨walked, _, reached⟩ := fold
    refine ⟨order, walked.ordered, fun id => ⟨walked.inside id, fun mem => ?_⟩⟩
    obtain ⟨rule, among, rfl⟩ := mem_map.1 mem
    exact reached rule among
  split at step
  · rename_i old
    cases step
    exact ⟨progress, fun _ mem => mem, by simpa using old⟩
  rename_i unseen
  simp only [contains_eq_mem, decide_eq_true_eq] at unseen
  refine walk_walked closed (nodup_singleton _) ?_ (Nat.le_add_right _ _)
    ⟨progress.ordered, progress.inside, ?_⟩ step
  · exact forall_mem_singleton.2 (mem_map_of_mem mem)
  · exact forall_mem_singleton.2 unseen

theorem compileAll_distinct [RegexEngine] {seen : List String} {rules : List Rule}
    (compiled : compileAll seen drafts = .ok rules) :
    (rules.map Rule.id).Nodup ∧ ∀ rule ∈ rules, rule.id ∉ seen := by
  induction drafts generalizing seen rules with
  | nil =>
    cases compiled
    exact ⟨.nil, forall_mem_nil _⟩
  | cons draft rest ih =>
    unfold compileAll at compiled
    split at compiled
    · cases compiled
    rename_i fresh
    obtain ⟨rule, first, compiled⟩ := bind_eq_ok.1 compiled
    obtain ⟨others, later, compiled⟩ := bind_eq_ok.1 compiled
    cases compiled
    obtain ⟨distinct, apart⟩ := ih later
    have same := Rule.id_of_ofDraft first
    simp only [contains_eq_mem, decide_eq_true_eq] at fresh
    refine ⟨nodup_cons.2 ⟨fun mem => ?_, distinct⟩, forall_mem_cons.2 ⟨same ▸ fresh,
      fun other mem seenOther => apart other mem (.tail _ seenOther)⟩⟩
    obtain ⟨other, among, equal⟩ := mem_map.1 mem
    exact apart other among (by rw [equal, same]; exact .head _)

theorem stratified_of_ofDrafts [RegexEngine] (loaded : ofDrafts drafts = .ok set) : set.Stratified := by
  obtain ⟨rules, compiled, loaded⟩ := bind_eq_ok.1 loaded
  obtain ⟨_, checked, loaded⟩ := bind_eq_ok.1 loaded
  cases loaded
  exact stratified_of_checkReferences (compileAll_distinct compiled).1 checked

theorem Stratified.length_order (stratified : set.Stratified) (ordered : set.Ordered order)
    (same : ∀ id, id ∈ order ↔ id ∈ set.ids) : order.length = set.size := by
  rw [← length_ids]
  exact ((perm_ext_iff_of_nodup ordered.nodup stratified.distinct).2 same).length_eq

end

/-- The rules that a selection asks for. -/
def selected (set : RuleSet) (only exclude : List String) : List String :=
  (set.rules.filter fun rule =>
    (only.isEmpty || named only rule.id) && !named exclude rule.id).map Rule.id

/-- The rules that a selection keeps: those asked for, and all that they lead to. -/
def needed (set : RuleSet) (only exclude : List String) : List String :=
  set.gather (set.selected only exclude) (set.selected only exclude)

section

variable (asked : List String) (rule : Rule)

/-- The rule as a selection keeps it: one that was not asked for serves others only. -/
def kept : Rule :=
  if asked.contains rule.id then rule else { rule with auxiliary := true }

@[simp]
theorem kept_id : (kept asked rule).id = rule.id := by
  unfold kept
  split <;> rfl

@[simp]
theorem kept_patterns : (kept asked rule).patterns = rule.patterns := by
  unfold kept
  split <;> rfl

@[simp]
theorem kept_sanitizer : (kept asked rule).sanitizer = rule.sanitizer := by
  unfold kept
  split <;> rfl

theorem kept_references : (kept asked rule).references = rule.references := by
  simp only [Rule.references, kept_patterns, kept_sanitizer]

end

section

variable (set : RuleSet) (only exclude : List String)

theorem select_rules :
    (set.select only exclude).rules =
      (set.rules.filter fun rule => (set.needed only exclude).contains rule.id).map
        (kept (set.selected only exclude)) := rfl

theorem selected_subset_ids : ∀ id ∈ set.selected only exclude, id ∈ set.ids := by
  intro id mem
  obtain ⟨rule, among, rfl⟩ := mem_map.1 mem
  exact mem_map_of_mem (mem_filter.1 among).1

theorem selected_subset_needed : ∀ id ∈ set.selected only exclude, id ∈ set.needed only exclude :=
  fun id mem => mem_gather.2 ⟨id, mem, 0, rfl⟩

variable {set only exclude} in
theorem needed_closed {next : String} (mem : id ∈ set.needed only exclude)
    (reference : next ∈ set.referencesOf id) : next ∈ set.needed only exclude := by
  obtain ⟨first, asked, steps, leads⟩ := mem_gather.1 mem
  exact mem_gather.2 ⟨first, asked, steps + 1, leads.extend reference⟩

theorem ids_select :
    (set.select only exclude).ids = set.ids.filter fun id => (set.needed only exclude).contains id := by
  rw [ids, select_rules, map_map, ids, filter_map]
  exact map_congr_left fun rule _ => kept_id _ rule

theorem get?_select (mem : id ∈ set.needed only exclude) :
    (set.select only exclude).get? id = (set.get? id).map (kept (set.selected only exclude)) := by
  rw [get?, select_rules, find?_map, find?_filter, get?]
  congr 2
  funext rule
  by_cases same : rule.id = id
  · simp [same, mem]
  · simp [same]

theorem referencesOf_select (mem : id ∈ set.needed only exclude) :
    (set.select only exclude).referencesOf id = set.referencesOf id := by
  unfold referencesOf
  rw [get?_select set only exclude mem]
  cases set.get? id with
  | none => rfl
  | some rule => exact kept_references _ rule

end

theorem Stratified.select (stratified : set.Stratified) (only exclude : List String) :
    (set.select only exclude).Stratified := by
  obtain ⟨order, ordered, same⟩ := stratified.order
  refine ⟨ids_select set only exclude ▸ stratified.distinct.filter _,
    order.filter fun id => (set.needed only exclude).contains id, ?_, fun id => ?_⟩
  · clear same
    induction order with
    | nil => trivial
    | cons id rest ih =>
      obtain ⟨fresh, behind, restOrdered⟩ := ordered
      by_cases mem : id ∈ set.needed only exclude
      · rw [filter_cons_of_pos (by simpa using mem)]
        refine ⟨fun again => fresh (mem_filter.1 again).1, fun next reference => ?_,
          ih restOrdered⟩
        rw [referencesOf_select set only exclude mem] at reference
        exact mem_filter.2 ⟨behind next reference, by simpa using needed_closed mem reference⟩
      · rw [filter_cons_of_neg (by simpa using mem)]
        exact ih restOrdered
  · rw [ids_select, mem_filter, mem_filter, same]

/-- A rule set that was loaded, and what selections leave of one. -/
inductive Loaded [RegexEngine] : RuleSet → Prop
  | ofDrafts {drafts : List RuleDraft} {set : RuleSet} :
      RuleSet.ofDrafts drafts = .ok set → Loaded set
  | select {set : RuleSet} (only exclude : List String) :
      Loaded set → Loaded (set.select only exclude)

theorem Loaded.stratified [RegexEngine] (loaded : set.Loaded) : set.Stratified := by
  induction loaded with
  | ofDrafts loaded => exact stratified_of_ofDrafts loaded
  | select only exclude _ ih => exact ih.select only exclude

end RuleSet

end LeakTrace
