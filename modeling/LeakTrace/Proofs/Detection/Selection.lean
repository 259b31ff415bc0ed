import LeakTrace.Proofs.Detection.Hits

namespace LeakTrace.RuleSet

open List

/-- Whether a selection asks for the rule. -/
def chosen (only exclude : List String) (id : String) : Bool :=
  (only.isEmpty || named only id) && !named exclude id

variable {set : RuleSet} {classifier : Classifier} {model : Model} {only exclude : List String}
  {rule : Rule} {pattern : RulePattern} {asked : List String}

theorem mem_selected (mem : rule ∈ set.rules) :
    rule.id ∈ set.selected only exclude ↔ chosen only exclude rule.id = true := by
  simp only [selected, mem_map, mem_filter]
  constructor
  · rintro ⟨other, ⟨_, asked⟩, same⟩
    exact same ▸ asked
  · exact fun asked => ⟨rule, ⟨mem, asked⟩, rfl⟩

/-- With the same fuel, a rule that a selection keeps accepts the same matches as before. -/
theorem Stratified.accepts_kept (stratified : set.Stratified) (fuel : Nat) (mem : rule ∈ set.rules)
    (needed : rule.id ∈ set.needed only exclude) (among : pattern ∈ rule.patterns) :
    set.accepts model fuel rule pattern =
      (set.select only exclude).accepts model fuel (kept (set.selected only exclude) rule) pattern := by
  induction fuel generalizing rule pattern with
  | zero => rfl
  | succ fuel ih =>
    refine acceptsBy_congr (kept_sanitizer _ _).symm fun id asked => ?_
    have reference : id ∈ set.referencesOf rule.id := by
      rw [referencesOf_of_mem stratified.distinct mem]
      exact asks_subset_references among id asked
    have idNeeded : id ∈ set.needed only exclude :=
      needed_closed needed reference
    unfold Alike
    rw [get?_select set only exclude idNeeded]
    cases found : set.get? id with
    | none => trivial
    | some other =>
      obtain ⟨otherMember, rfl⟩ := mem_of_get? found
      exact ⟨(kept_patterns _ _).symm, fun part inOther => ih otherMember idNeeded inOther⟩

theorem size_select_le (set : RuleSet) (only exclude : List String) :
    (set.select only exclude).size ≤ set.size := by
  rw [← length_ids, ids_select, ← length_ids]
  exact length_filter_le _ _

theorem kept_of_mem (mem : rule.id ∈ asked) : kept asked rule = rule :=
  if_pos (by simpa using mem)

theorem kept_auxiliary (absent : rule.id ∉ asked) : (kept asked rule).auxiliary = true := by
  rw [kept, if_neg (by simpa using absent)]

/-- A rule that is asked for reports after the selection what it reported before. -/
theorem Stratified.detectionsOf_select (stratified : set.Stratified) (mem : rule ∈ set.rules)
    (asked : rule.id ∈ set.selected only exclude) :
    (set.select only exclude).detectionsOf classifier model rule =
      set.detectionsOf classifier model rule := by
  have needed := selected_subset_needed set only exclude rule.id asked
  have inSelection : rule ∈ (set.select only exclude).rules := by
    rw [select_rules]
    refine mem_map.2 ⟨rule, mem_filter.2 ⟨mem, by simpa using needed⟩, ?_⟩
    exact kept_of_mem asked
  have reports : ∀ hit ∈ rule.hits model.tree,
      (set.select only exclude).reports classifier model hit = set.reports classifier model hit := by
    intro hit among
    obtain ⟨rfl, pattern, _⟩ := Rule.mem_hits.1 among
    have among := (mem_filter.1 pattern).1
    rw [RuleSet.reports, RuleSet.reports, (stratified.select only exclude).accepts_fuel inSelection among
      (size_select_le set only exclude), stratified.accepts_kept set.size mem needed among,
      kept_of_mem asked]
  rw [detectionsOf_eq, detectionsOf_eq, hitsOf, hitsOf, filter_congr reports]

/-- The rules that report after a selection are those that are asked for among the rules that
reported before. -/
theorem speaking_select (set : RuleSet) (only exclude : List String) (language : Language) :
    (set.select only exclude).speaking language =
      (set.speaking language).filter fun rule => chosen only exclude rule.id := by
  simp only [speaking, forLanguage, select_rules, filter_map, filter_filter]
  have silent : ∀ rule, (kept (set.selected only exclude) rule).auxiliary = false →
      rule.id ∈ set.selected only exclude := by
    intro rule loud
    by_contra absent
    rw [kept_auxiliary absent] at loud
    cases loud
  rw [map_congr_left (g := id), map_id]
  · refine filter_congr fun rule mem => ?_
    by_cases asked : rule.id ∈ set.selected only exclude
    · have needed := selected_subset_needed set only exclude rule.id asked
      have chosen := (mem_selected mem).1 asked
      simp [kept_of_mem asked, needed, chosen]
    · have unasked : chosen only exclude rule.id = false := by
        simpa using fun chosen => asked ((mem_selected mem).2 chosen)
      simp [kept_auxiliary asked, unasked]
  · intro rule mem
    have loud := (mem_filter.1 mem).2
    simp only [Function.comp_apply, Bool.and_eq_true, Bool.not_eq_true'] at loud
    exact kept_of_mem (silent rule loud.1)

theorem rule_of_mem_detectionsOf {detection : Detection}
    (mem : detection ∈ set.detectionsOf classifier model rule) : detection.rule = rule.id := by
  rw [detectionsOf_eq, mem_map] at mem
  obtain ⟨hit, among, rfl⟩ := mem
  obtain ⟨rfl, _⟩ := Rule.mem_hits.1 (mem_hitsOf.1 among).mem
  rfl

theorem flatMap_filter {α β : Type} {keep : α → Bool} {first second : α → List β} {items : List α}
    (kept : ∀ item ∈ items, keep item = true → first item = second item)
    (dropped : ∀ item ∈ items, keep item = false → second item = []) :
    (items.filter keep).flatMap first = items.flatMap second := by
  induction items with
  | nil => rfl
  | cons item rest ih =>
    have tail := ih (fun other mem => kept other (.tail _ mem))
      fun other mem => dropped other (.tail _ mem)
    by_cases keeps : keep item = true
    · rw [filter_cons_of_pos keeps, flatMap_cons, flatMap_cons, tail,
        kept item (.head _) keeps]
    · rw [filter_cons_of_neg keeps, flatMap_cons, tail,
        dropped item (.head _) (by simpa using keeps), nil_append]

/-- A selection of rules reports what the rules that it asks for reported before, and nothing
else. -/
theorem detect_select [RegexEngine] (loaded : set.Loaded) (only exclude : List String) (classifier : Classifier)
    (model : Model) :
    (set.select only exclude).detect classifier model =
      (set.detect classifier model).filter fun detection =>
        (only.isEmpty || named only detection.rule) && !named exclude detection.rule := by
  have stratified := loaded.stratified
  have before : set.detect classifier model =
      ((set.speaking model.tree.language).flatMap (set.detectionsOf classifier model)).mergeSort
        Detection.precedes := rfl
  have after : (set.select only exclude).detect classifier model =
      (((set.select only exclude).speaking model.tree.language).flatMap
        ((set.select only exclude).detectionsOf classifier model)).mergeSort
        Detection.precedes := rfl
  rw [after, before, filter_mergeSort Detection.precedes_trans Detection.precedes_total,
    speaking_select, filter_flatMap]
  congr 1
  refine flatMap_filter (fun rule speaking asked => ?_) fun rule _ unasked => ?_
  · have member := (mem_speaking.1 speaking).1
    rw [stratified.detectionsOf_select member ((mem_selected member).2 asked), eq_comm,
      filter_eq_self]
    exact fun detection among => rule_of_mem_detectionsOf among ▸ asked
  · rw [filter_eq_nil_iff]
    intro detection among
    rw [rule_of_mem_detectionsOf among]
    exact Bool.eq_false_iff.1 unasked

/-- A rule whose matches another rule cancels, and that rule. -/
def sinkAndSanitizer : List RuleDraft :=
  [{ id := "sink"
     title := "A sink"
     description := "Any call of the function."
     severity := .high
     languages := ["javascript"]
     patterns := [{ pattern := "f($<X>)" }]
     sanitizer := some "clean" },
   { id := "clean"
     title := "A safe call"
     description := "A call that does no harm."
     severity := .low
     languages := ["javascript"]
     patterns := [{ pattern := "f(safe)" }] }]

/-- The sanitizer still cancels a match when it was not asked for and no longer reports. -/
theorem detect_select_sanitized :
    ∃ set model, ofDrafts sinkAndSanitizer = .ok set ∧
      Model.ofTree (Script.tree "sink.js" "f(safe);\n") false {} = .ok model ∧
      (set.detect plainClassifier model).map Detection.rule = ["clean"] ∧
      (set.select ["SINK"] []).ids = ["sink", "clean"] ∧
      (set.select ["SINK"] []).detect plainClassifier model =
        (set.detect plainClassifier model).filter fun detection =>
          (["SINK"].isEmpty || named ["SINK"] detection.rule) && !named [] detection.rule := by
  obtain ⟨set, loaded, model, analysed, rules, ids⟩ : ∃ set, ofDrafts sinkAndSanitizer = .ok set ∧
      ∃ model, Model.ofTree (Script.tree "sink.js" "f(safe);\n") false {} = .ok model ∧
      (set.detect plainClassifier model).map Detection.rule = ["clean"] ∧
      (set.select ["SINK"] []).ids = ["sink", "clean"] := by
    decide +kernel
  exact ⟨set, model, loaded, analysed, rules, ids,
    detect_select (.ofDrafts loaded) ["SINK"] [] plainClassifier model⟩

end LeakTrace.RuleSet
