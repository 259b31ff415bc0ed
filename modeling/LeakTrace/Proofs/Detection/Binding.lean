import LeakTrace.Proofs.Detection.Permutation
import LeakTrace.Proofs.Pattern.Balance
import LeakTrace.Proofs.Pattern.Draft

namespace LeakTrace

open List Option

mutual

/-- The filter and all filters inside it. -/
def Filter.parts : Filter → List Filter
  | .not inner => .not inner :: inner.parts
  | .either choices => .either choices :: choices.parts
  | filter => [filter]

def Filters.parts : Filters → List Filter
  | .none => []
  | .some filter rest => filter.parts ++ rest.parts

end

namespace Filter

/-- The name of the capture that the filter itself looks at. -/
def capture? : Filter → Option String
  | .values capture _ => some capture
  | .regex capture _ => some capture
  | .stringRegex capture _ => some capture
  | .shorterThan capture _ => some capture
  | .compare capture _ _ => some capture
  | .detection capture _ => some capture
  | .not _ => none
  | .either _ => none
  | .fileName _ => none

/-- Whether the filter asks for no more than a node under its name; the others need a text or a number
there. -/
def isDefinite : Filter → Bool
  | .values .. | .regex .. | .detection .. => true
  | _ => false

theorem isSome_evaluate {filter : Filter} {scene : FilterScene} (definite : filter.isDefinite = true)
    (bound : ∀ name ∈ filter.capture?, (scene.captures.get? name).isSome = true)
    (supplied : scene.detects.isSome = true) : (filter.evaluate scene).isSome = true := by
  cases filter with
  | values capture values => simpa [evaluate, FilterScene.content?] using bound capture rfl
  | regex capture regex => simpa [evaluate, FilterScene.content?] using bound capture rfl
  | detection capture rule =>
    obtain ⟨node, given⟩ := isSome_iff_exists.1 (bound capture rfl)
    obtain ⟨detects, atHand⟩ := isSome_iff_exists.1 supplied
    simp [evaluate, given, atHand]
  | _ => cases definite

/-- The filter and those inside it look only at what the pattern captures. -/
def Speaks (filter : Filter) (pattern : Pattern) : Prop :=
  ∀ part ∈ filter.parts, ∀ name ∈ part.capture?, name ∈ pattern.captures

end Filter

variable {name rule : String} {pattern : Pattern} {filter : Filter} {draft : FilterDraft}

theorem FilterDraft.mem_captures_of_captureOf (found : draft.captureOf rule pattern = .ok name) :
    name ∈ pattern.captures := by
  unfold captureOf at found
  split at found
  · cases found
  split at found
  · rename_i defined
    cases found
    exact contains_iff_mem.1 defined
  · cases found

theorem Filter.speaks_around {inner : List Filter} (parts : filter.parts = filter :: inner)
    (looks : filter.capture? = none)
    (inside : ∀ part ∈ inner, ∀ name ∈ part.capture?, name ∈ pattern.captures) : filter.Speaks pattern := by
  rw [Speaks, parts, forall_mem_cons, looks]
  exact ⟨nofun, inside⟩

theorem Filter.speaks_of_captureOf (known : draft.captureOf rule pattern = .ok name)
    (single : filter.parts = [filter]) (looks : filter.capture? = some name) : filter.Speaks pattern := by
  rw [Speaks, single, forall_mem_singleton, looks]
  rintro _ ⟨⟩
  exact FilterDraft.mem_captures_of_captureOf known

section

variable [RegexEngine]

theorem FilterDraft.speaks_compileAll {drafts : List FilterDraft} {filters : Filters}
    (each : ∀ draft ∈ drafts, ∀ filter, draft.compile rule pattern = .ok filter → filter.Speaks pattern)
    (run : compileAll rule pattern drafts = .ok filters) :
    ∀ part ∈ filters.parts, ∀ name ∈ part.capture?, name ∈ pattern.captures := by
  induction drafts generalizing filters with
  | nil =>
    rw [compileAll] at run
    cases run
    exact forall_mem_nil _
  | cons draft rest ih =>
    rw [compileAll] at run
    obtain ⟨filter, first, run⟩ := bind_eq_ok.1 run
    obtain ⟨others, later, run⟩ := bind_eq_ok.1 run
    cases run
    exact forall_mem_append.2 ⟨each draft mem_cons_self filter first,
      ih (fun other mem => each other (mem_cons_of_mem _ mem)) later⟩

theorem Condition.speaks_compile {condition : Condition}
    (each : ∀ part ∈ condition.inner, ∀ filter, part.compile rule pattern = .ok filter → filter.Speaks pattern)
    (run : condition.compile rule pattern draft = .ok filter) : filter.Speaks pattern := by
  cases condition with
  | not inner =>
    obtain ⟨filter, compiled, run⟩ := bind_eq_ok.1 run
    cases run
    exact Filter.speaks_around rfl rfl (each inner mem_cons_self filter compiled)
  | either choices =>
    cases choices with
    | nil => cases run
    | cons first rest =>
      obtain ⟨filters, compiled, run⟩ := bind_eq_ok.1 run
      cases run
      exact Filter.speaks_around rfl rfl (FilterDraft.speaks_compileAll each compiled)
  | fileName =>
    obtain ⟨isMatch, _, run⟩ := bind_eq_ok.1 run
    cases run
    exact Filter.speaks_around rfl rfl (forall_mem_nil _)
  | regex | stringRegex =>
    obtain ⟨name, known, run⟩ := bind_eq_ok.1 run
    obtain ⟨isMatch, _, run⟩ := bind_eq_ok.1 run
    cases run
    exact Filter.speaks_of_captureOf known rfl rfl
  | values | shorterThan | compare | detection =>
    obtain ⟨name, known, run⟩ := bind_eq_ok.1 run
    cases run
    exact Filter.speaks_of_captureOf known rfl rfl

/-- Filters are accepted only for names that the pattern captures. -/
theorem FilterDraft.speaks_compile (draft : FilterDraft) {filter : Filter}
    (run : draft.compile rule pattern = .ok filter) : filter.Speaks pattern := by
  rw [compile_eq] at run
  split at run
  · rename_i condition single
    refine Condition.speaks_compile (fun part mem filter run => ?_) run
    have : sizeOf part < sizeOf draft := sizeOf_inner (by simpa [inner, single] using mem)
    exact part.speaks_compile run
  · cases run
termination_by sizeOf draft
decreasing_by exact this

end

theorem exists_of_mapM {α β : Type} {f : α → Except SetupError β} {inputs : List α} {outputs : List β}
    (run : inputs.mapM f = .ok outputs) {output : β} (mem : output ∈ outputs) :
    ∃ input ∈ inputs, f input = .ok output := by
  induction inputs generalizing outputs with
  | nil =>
    cases run
    cases mem
  | cons input rest ih =>
    rw [mapM_cons] at run
    obtain ⟨first, here, run⟩ := bind_eq_ok.1 run
    obtain ⟨others, later, run⟩ := bind_eq_ok.1 run
    cases run
    rcases mem_cons.1 mem with rfl | among
    · exact ⟨input, .head _, here⟩
    · obtain ⟨other, inside, there⟩ := ih later among
      exact ⟨other, mem_cons_of_mem _ inside, there⟩

/-- What is known of a pattern of a rule that was loaded: it comes from its text, it captures all that
the rule searches, and its filters look only at what it captures. -/
structure RulePattern.Checked (pattern : RulePattern) (dataTypes : List String) : Prop where
  compiled : ∃ rule, Pattern.compile pattern.language rule pattern.pattern.source = .ok pattern.pattern
  searched : ∀ name ∈ dataTypes, name ∈ pattern.pattern.captures
  filters : ∀ filter ∈ pattern.filters, filter.Speaks pattern.pattern

theorem RulePattern.checked_of_ofDraft [RegexEngine] {dataTypes : List String} {language : Language}
    {draft : PatternDraft} {pattern : RulePattern}
    (run : RulePattern.ofDraft rule dataTypes language draft = .ok pattern) :
    pattern.Checked dataTypes := by
  obtain ⟨compiled, fromText, run⟩ := bind_eq_ok.1 run
  split at run
  · cases run
  rename_i defined
  obtain ⟨filters, fromDrafts, run⟩ := bind_eq_ok.1 run
  cases run
  refine ⟨⟨rule, ?_⟩, fun name mem => ?_, fun filter mem => ?_⟩
  · rw [(Pattern.template_of_compile fromText).1]
    exact fromText
  · have none : dataTypes.find? (fun name => !compiled.defines name) = none :=
      eq_none_iff_forall_ne_some.2 fun missing found => defined missing found
    have known : compiled.defines name = true := by simpa using find?_eq_none.1 none name mem
    exact contains_iff_mem.1 known
  · obtain ⟨condition, _, run⟩ := exists_of_mapM fromDrafts mem
    exact condition.speaks_compile run

theorem Rule.checked_of_ofDraft [RegexEngine] {draft : RuleDraft} {rule : Rule}
    (run : Rule.ofDraft draft = .ok rule) :
    ∀ pattern ∈ rule.patterns, pattern.Checked rule.dataTypes := by
  obtain ⟨languages, _, run⟩ := bind_eq_ok.1 run
  obtain ⟨patterns, compiled, run⟩ := bind_eq_ok.1 run
  split at run
  · cases run
  obtain ⟨requires, _, run⟩ := bind_eq_ok.1 run
  cases run
  intro pattern mem
  obtain ⟨some, among, inside⟩ := mem_flatten.1 mem
  obtain ⟨language, _, each⟩ := exists_of_mapM compiled among
  obtain ⟨draft, _, here⟩ := exists_of_mapM each inside
  exact RulePattern.checked_of_ofDraft here

namespace RuleSet

theorem exists_draft_of_mem [RegexEngine] {seen : List String} {drafts : List RuleDraft} {rules : List Rule}
    (compiled : compileAll seen drafts = .ok rules) {rule : Rule} (mem : rule ∈ rules) :
    ∃ draft, Rule.ofDraft draft = .ok rule := by
  have each := (compileAll_eq_ok_iff.1 compiled).1
  clear compiled
  induction each with
  | nil => cases mem
  | @cons draft first _ _ run _ ih =>
    rcases mem_cons.1 mem with rfl | later
    · exact ⟨draft, run⟩
    · exact ih later

@[simp]
theorem kept_dataTypes (asked : List String) (rule : Rule) :
    (kept asked rule).dataTypes = rule.dataTypes := by
  unfold kept
  split <;> rfl

theorem Loaded.checked [RegexEngine] {set : RuleSet} (loaded : set.Loaded) :
    ∀ rule ∈ set.rules, ∀ pattern ∈ rule.patterns, pattern.Checked rule.dataTypes := by
  induction loaded with
  | @ofDrafts drafts set loaded =>
    obtain ⟨rules, compiled, loaded⟩ := bind_eq_ok.1 loaded
    obtain ⟨_, _, loaded⟩ := bind_eq_ok.1 loaded
    cases loaded
    intro rule mem
    obtain ⟨draft, run⟩ := exists_draft_of_mem compiled mem
    exact Rule.checked_of_ofDraft run
  | @select set only exclude _ ih =>
    intro rule mem
    rw [select_rules] at mem
    obtain ⟨old, inside, rfl⟩ := mem_map.1 mem
    rw [kept_patterns, kept_dataTypes]
    exact ih old (mem_filter.1 inside).1

end RuleSet

/-- In every match of the pattern, all parts of the filter that need no more than a node under a name
have an answer, where rules are at hand. -/
def Pattern.Answers (pattern : Pattern) (filter : Filter) : Prop :=
  ∀ tree id found, pattern.matchAt? tree id = some found →
    ∀ scene : FilterScene, scene.captures = found.captures → scene.detects.isSome = true →
      ∀ part ∈ filter.parts, part.isDefinite = true → (part.evaluate scene).isSome = true

theorem Pattern.answers_of_speaks (listed : pattern.Listed) (balanced : pattern.template.Balanced)
    (speaks : filter.Speaks pattern) : pattern.Answers filter := by
  intro tree id found run scene captures supplied part mem definite
  refine Filter.isSome_evaluate definite (fun name named => ?_) supplied
  rw [captures, isSome_get?_of_matchAt? listed balanced run]
  exact speaks part mem name named

namespace RuleSet

/-- What is checked when rules are loaded is enough when they run: every match of a pattern has a node
under each name that occurs in it and under no other, so that its filters always find the captures
that they look at, and every capture that a rule searches is there. -/
theorem loaded_captures_found [RegexEngine] :
    (∀ language rule source pattern, Pattern.compile language rule source = .ok pattern →
      Pattern.Confined language source →
        pattern.captures.Nodup ∧
        (∀ name, name ∈ pattern.captures ↔ name ∈ pattern.template.captureNames) ∧
        (∀ tree id found, pattern.matchAt? tree id = some found →
          (found.captures.entries.map Prod.fst).Perm pattern.captures) ∧
        ∀ owner draft filter, FilterDraft.compile owner pattern draft = .ok filter →
          pattern.Answers filter) ∧
    ∀ set : RuleSet, set.Loaded → ∀ rule ∈ set.rules, ∀ entry ∈ rule.patterns,
      Pattern.Confined entry.language entry.pattern.source →
        (∀ filter ∈ entry.filters, entry.pattern.Answers filter) ∧
        ∀ tree id found, entry.pattern.matchAt? tree id = some found →
          ∀ name ∈ rule.dataTypes, (found.captures.get? name).isSome = true := by
  constructor
  · intro language rule source pattern compiled confined
    have listed := (Pattern.template_of_compile compiled).2.2.1
    have balanced := Pattern.balanced_of_compile compiled confined
    refine ⟨listed.nodup, listed.mem, fun tree id found run => ?_,
      fun owner draft filter run => ?_⟩
    · exact Pattern.names_of_matchAt? listed balanced run
    · exact Pattern.answers_of_speaks listed balanced (draft.speaks_compile run)
  · intro set loaded rule member entry among confined
    have checked := loaded.checked rule member entry among
    obtain ⟨owner, compiled⟩ := checked.compiled
    have listed := (Pattern.template_of_compile compiled).2.2.1
    have balanced := Pattern.balanced_of_compile compiled confined
    refine ⟨fun filter inside => ?_, fun tree id found run name searched => ?_⟩
    · exact Pattern.answers_of_speaks listed balanced (checked.filters filter inside)
    · exact (Pattern.isSome_get?_of_matchAt? listed balanced run name).2 (checked.searched name searched)

/-- A rule for calls of a method, by any object but `debug`. -/
def sendCall : RuleDraft where
  id := "send"
  title := "Data is sent"
  description := "Data is handed to a method of an object."
  severity := .low
  languages := ["javascript"]
  patterns :=
    [{ pattern := "$<A>.send($<X>, $<...>)"
       filters := [{ not := some { capture := "A", values := ["debug"] } }] }]
  dataTypes := ["X"]

/-- The call names the method in a subscript, where the other alternative of the template takes part. -/
theorem loaded_captures_found_subscript :
    ∃ set rule entry found, ofDrafts [sendCall] = .ok set ∧ rule ∈ set.rules ∧ entry ∈ rule.patterns ∧
      entry.pattern.source = "$<A>.send($<X>, $<...>)" ∧ entry.filters.length = 1 ∧
      entry.pattern.matchAt? (Script.tree "f.js" "log[\"send\"](x, y);\n") 6 = some found ∧
      found.captures.entries = [("A", 0), ("X", 3)] ∧
      (found.captures.entries.map Prod.fst).Perm entry.pattern.captures ∧
      (∀ filter ∈ entry.filters, entry.pattern.Answers filter) ∧
      ∀ name ∈ ["X"], (found.captures.get? name).isSome = true := by
  let tree := Script.tree "f.js" "log[\"send\"](x, y);\n"
  obtain ⟨set, loaded, rule, member, entry, among, searched, language, source, filters, found, fits, entries⟩ :
      ∃ set, ofDrafts [sendCall] = .ok set ∧ ∃ rule ∈ set.rules, ∃ entry ∈ rule.patterns,
      rule.dataTypes = ["X"] ∧ entry.language = .javascript ∧
      entry.pattern.source = "$<A>.send($<X>, $<...>)" ∧ entry.filters.length = 1 ∧
      ∃ found ∈ entry.pattern.matchAt? tree 6, found.captures.entries = [("A", 0), ("X", 3)] := by
    decide +kernel
  have confined : Pattern.Confined .javascript "$<A>.send($<X>, $<...>)" := by decide +kernel
  rw [← language, ← source] at confined
  obtain ⟨owner, compiled⟩ := ((Loaded.ofDrafts loaded).checked rule member entry among).compiled
  have bound := loaded_captures_found.1 _ owner _ _ compiled confined
  have finds := loaded_captures_found.2 set (.ofDrafts loaded) rule member entry among confined
  rw [searched] at finds
  exact ⟨set, rule, entry, found, loaded, member, among, source, filters, fits, entries,
    bound.2.2.1 tree 6 found fits, finds.1, finds.2 tree 6 found fits⟩

end RuleSet

end LeakTrace
