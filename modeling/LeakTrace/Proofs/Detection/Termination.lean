import LeakTrace.Proofs.Detection.Selection

namespace LeakTrace

/-- To decide over the match, its filters look for the rule at the node. -/
def Hit.Searches (hit : Hit) (id : String) (node : NodeId) : Prop :=
  ∃ filter ∈ hit.pattern.filters, ∃ capture,
    Filter.Contains (.detection capture id) filter ∧ hit.found.captures.get? capture = some node

/-- To decide over the match, the rule is run: by a filter, or as the sanitizer. -/
def Hit.Runs (hit : Hit) (id : String) : Prop :=
  hit.rule.sanitizer = some id ∨ ∃ node, hit.Searches id node

namespace RuleSet

/-- To decide over the first match, it is asked whether the second is accepted: a match of a rule that
a filter looks for, at the node or below it, or a match of the sanitizer at the same node. -/
inductive Calls (set : RuleSet) (model : Model) (caller : Hit) : Hit → Prop
  | filter {id : String} {node : NodeId} {rule : Rule} {pattern : RulePattern} {found : Match} :
      caller.Searches id node → set.get? id = some rule →
      pattern ∈ rule.patternsFor model.tree.language →
      found ∈ pattern.pattern.matchesWithin model.tree node →
      Calls set model caller { rule, pattern, found }
  | sanitizer {id : String} {rule : Rule} {pattern : RulePattern} {found : Match} :
      caller.rule.sanitizer = some id → set.get? id = some rule →
      pattern ∈ rule.patternsFor model.tree.language →
      pattern.pattern.matchAt? model.tree caller.found.node = some found →
      Calls set model caller { rule, pattern, found }

/-- A match of a pattern of a rule of the set. -/
structure Holds (set : RuleSet) (hit : Hit) : Prop where
  rule : hit.rule ∈ set.rules
  pattern : hit.pattern ∈ hit.rule.patterns

/-- One round of the recursion, as a judgement over matches. -/
def decides (set : RuleSet) (model : Model) (judge : Hit → Bool) (hit : Hit) : Bool :=
  set.acceptsBy model (fun rule pattern found => judge { rule, pattern, found }) hit.rule hit.pattern
    hit.found

/-- Whether the match is accepted. -/
def accepted (set : RuleSet) (model : Model) (fuel : Nat) (hit : Hit) : Bool :=
  set.accepts model fuel hit.rule hit.pattern hit.found

variable {set : RuleSet} {model : Model} {caller callee : Hit} {judge : Hit → Bool} {id : String}
  {hit : Hit}

theorem Calls.runs (call : set.Calls model caller callee) :
    ∃ id, caller.Runs id ∧ set.get? id = some callee.rule := by
  cases call with
  | filter searches found _ _ => exact ⟨_, .inr ⟨_, searches⟩, found⟩
  | sanitizer named found _ _ => exact ⟨_, .inl named, found⟩

theorem Calls.holds (call : set.Calls model caller callee) : set.Holds callee := by
  cases call with
  | filter _ found among _ | sanitizer _ found among _ =>
    exact ⟨(mem_of_get? found).1, (List.mem_filter.1 among).1⟩

/-- The decision over a match depends on the matches that it calls for alone. -/
theorem decides_of_calls {other : Hit → Bool}
    (agree : ∀ callee, set.Calls model caller callee → judge callee = other callee) :
    set.decides model judge caller = set.decides model other caller := by
  let test (judge : Hit → Bool) (rule : Rule) (pattern : RulePattern) (found : Match) : Bool :=
    judge { rule, pattern, found }
  have searched : ∀ id node, caller.Searches id node →
      set.findsWithin model (test judge) id node = set.findsWithin model (test other) id node := by
    intro id node searches
    rw [findsWithin_eq, findsWithin_eq]
    cases named : set.get? id with
    | none => rfl
    | some rule =>
      refine any_congr_of_mem fun pattern among => any_congr_of_mem fun found here => ?_
      exact agree _ (.filter searches named among here)
  have filters : (set.sceneOf model (test judge) caller.found).passes caller.pattern.filters =
      (set.sceneOf model (test other) caller.found).passes caller.pattern.filters := by
    refine FilterScene.passes_congr ⟨rfl, rfl, fun _ => rfl, fun _ => rfl, ?_⟩
    rintro capture id ⟨filter, mem, inside⟩ node found
    exact congrArg some (searched id node ⟨filter, mem, capture, inside, found⟩)
  have sanitized : set.sanitizedAt model (test judge) caller.rule caller.found.node =
      set.sanitizedAt model (test other) caller.rule caller.found.node := by
    rw [sanitizedAt_eq, sanitizedAt_eq]
    cases sanitizer : caller.rule.sanitizer with
    | none => rfl
    | some id =>
      simp only [Option.any_some]
      cases named : set.get? id with
      | none => rfl
      | some rule =>
        refine any_congr_of_mem fun pattern among => any_congr_of_mem fun found here => ?_
        exact agree _ (.sanitizer sanitizer named among (Option.mem_toList.1 here))
  exact congrArg₂ (fun passed cancelled => passed && !cancelled) filters sanitized

theorem Holds.references (holds : set.Holds caller) (runs : caller.Runs id) :
    id ∈ caller.rule.references := by
  rw [Rule.mem_references]
  rcases runs with sanitizer | ⟨node, filter, mem, capture, inside, _⟩
  · exact .inl sanitizer
  · exact .inr ⟨caller.pattern, holds.pattern, filter, mem, capture, inside⟩

theorem Holds.refers (holds : set.Holds caller) (runs : caller.Runs id) : set.Refers caller.rule.id id :=
  ⟨caller.rule, holds.rule, rfl, Rule.mem_references.1 (holds.references runs)⟩

/-- The first rule is found from the second by one reference or more. -/
def Below (set : RuleSet) (lower upper : String) : Prop := Relation.TransGen set.Refers upper lower

theorem Calls.below (call : set.Calls model caller callee) (holds : set.Holds caller) :
    set.Below callee.rule.id caller.rule.id := by
  obtain ⟨id, runs, found⟩ := call.runs
  obtain ⟨_, rfl⟩ := mem_of_get? found
  exact .single (holds.refers runs)

section

variable (stratified : set.Stratified)
include stratified

theorem Stratified.wellFounded_below : WellFounded set.Below :=
  Subrelation.wf Relation.transGen_swap.2 stratified.wellFounded.transGen

theorem Stratified.below (holds : set.Holds caller) (runs : caller.Runs id) :
    id ∈ caller.rule.references ∧ (∃ rule, set.get? id = some rule) ∧ set.Below id caller.rule.id := by
  have refers := holds.refers runs
  exact ⟨holds.references runs, mem_ids_iff.1 (stratified.closed _ _ refers), .single refers⟩

/-- Each call goes down in the order of the rules, so that no chain of calls goes on forever. -/
theorem Stratified.wellFounded_calls (model : Model) :
    WellFounded fun callee caller => set.Calls model caller callee := by
  have held : ∀ id hit, set.Holds hit → hit.rule.id = id →
      Acc (fun callee caller => set.Calls model caller callee) hit := by
    intro id
    induction id using stratified.wellFounded_below.induction with | _ id ih
    rintro hit holds rfl
    exact .intro hit fun callee call => ih _ (call.below holds) callee call.holds rfl
  -- Any match may call first, also one of a rule outside the set; what it calls is in the set.
  exact ⟨fun hit => .intro hit fun callee call => held _ callee call.holds rfl⟩

theorem Stratified.accepted_eq (holds : set.Holds hit) :
    set.accepted model set.size hit = set.decides model (set.accepted model set.size) hit :=
  congrFun (stratified.accepts_eq holds.rule holds.pattern) hit.found

theorem Stratified.eq_accepted (solves : ∀ hit, set.Holds hit → judge hit = set.decides model judge hit)
    (holds : set.Holds hit) : judge hit = set.accepted model set.size hit := by
  induction hit using (stratified.wellFounded_calls model).induction with | _ hit ih
  have called := decides_of_calls fun callee call => ih callee call call.holds
  exact (solves hit holds).trans (called.trans (stratified.accepted_eq holds).symm)

end

/-- A rule set that was loaded runs to its end, also after selections. Whatever rule is run to decide
over a match is one that the match's rule refers to, is there, and lies below it in an order without
endless descent. The decision depends on the matches of these rules alone, no chain of such calls is
endless, and the recursion has exactly one answer, which is found within as many rounds as there are
rules. -/
theorem run_terminates [RegexEngine] (loaded : set.Loaded) (model : Model) :
    WellFounded set.Below ∧
    (∀ hit, set.Holds hit → ∀ id, hit.Runs id →
      id ∈ hit.rule.references ∧ (∃ rule, set.get? id = some rule) ∧ set.Below id hit.rule.id) ∧
    (∀ fuel hit,
      set.accepted model (fuel + 1) hit = set.decides model (set.accepted model fuel) hit) ∧
    (∀ (judge other : Hit → Bool) (hit : Hit),
      (∀ callee, set.Calls model hit callee → judge callee = other callee) →
        set.decides model judge hit = set.decides model other hit) ∧
    (∀ hit callee, set.Calls model hit callee →
      set.Holds callee ∧ ∃ id, hit.Runs id ∧ set.get? id = some callee.rule) ∧
    WellFounded (fun callee caller => set.Calls model caller callee) ∧
    (∀ fuel, set.size ≤ fuel → ∀ hit, set.Holds hit →
      set.accepted model fuel hit = set.accepted model set.size hit) ∧
    (∀ hit, set.Holds hit →
      set.accepted model set.size hit = set.decides model (set.accepted model set.size) hit) ∧
    ∀ judge : Hit → Bool, (∀ hit, set.Holds hit → judge hit = set.decides model judge hit) →
      ∀ hit, set.Holds hit → judge hit = set.accepted model set.size hit := by
  have stratified := loaded.stratified
  refine ⟨stratified.wellFounded_below, fun hit holds id => stratified.below holds,
    fun fuel hit => rfl, fun judge other hit => decides_of_calls,
    fun hit callee call => ⟨call.holds, call.runs⟩,
    stratified.wellFounded_calls model, fun fuel enough hit holds => ?_,
    fun hit => stratified.accepted_eq, fun judge solves hit => stratified.eq_accepted solves⟩
  exact congrFun (stratified.accepts_fuel holds.rule holds.pattern enough).symm hit.found

/-- A match whose sanitizer was left as an auxiliary rule by one selection and stayed in the next: the
decision over it runs the sanitizer, which lies below, and is made. -/
theorem run_terminates_selected :
    let left (set : RuleSet) := (set.select ["SINK"] []).select [] ["other"]
    ∃ set model hit, ofDrafts sinkAndSanitizer = .ok set ∧
      Model.ofTree (Script.tree "sink.js" "f(safe);\n") false {} = .ok model ∧
      (left set).ids = ["sink", "clean"] ∧ (left set).Holds hit ∧ hit.Runs "clean" ∧
      (left set).Below "clean" hit.rule.id ∧ (∀ fuel, 2 ≤ fuel → (left set).accepted model fuel hit = false) ∧
      WellFounded fun callee caller => (left set).Calls model caller callee := by
  intro left
  obtain ⟨set, loaded, model, analysed, rule, first, pattern, among, found, _, ids, sanitizer, rejected⟩ :
      ∃ set, ofDrafts sinkAndSanitizer = .ok set ∧
      ∃ model, Model.ofTree (Script.tree "sink.js" "f(safe);\n") false {} = .ok model ∧
      ∃ rule ∈ (left set).rules, ∃ pattern ∈ rule.patterns, ∃ found ∈ pattern.pattern.matchesIn model.tree,
      (left set).ids = ["sink", "clean"] ∧ rule.sanitizer = some "clean" ∧
      (left set).accepted model 2 { rule, pattern, found } = false := by
    decide +kernel
  have holds : (left set).Holds { rule, pattern, found } := ⟨first, among⟩
  have runs : Hit.Runs { rule, pattern, found } "clean" := .inl sanitizer
  have size : (left set).size = 2 := by
    rw [← length_ids, ids]
    rfl
  have kept : (left set).Loaded := .select [] ["other"] (.select ["SINK"] [] (.ofDrafts loaded))
  obtain ⟨_, covered, _, _, _, ends, bound, _, _⟩ := run_terminates kept model
  rw [size] at bound
  refine ⟨set, model, _, loaded, analysed, ids, holds, runs, (covered _ holds _ runs).2.2,
    fun fuel enough => ?_, ends⟩
  rw [bound fuel enough _ holds, rejected]

end RuleSet

end LeakTrace
