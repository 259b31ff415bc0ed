import LeakTrace.Pattern.Filter
import LeakTrace.Regex.Read
import Mathlib.Data.List.ReduceOption

namespace LeakTrace

open List

/-- One of the conditions that a filter may state. -/
inductive Condition where
  | not (inner : FilterDraft)
  | either (choices : List FilterDraft)
  | fileName (regex : String)
  | values (values : List String)
  | regex (regex : String)
  | stringRegex (regex : String)
  | shorterThan (length : Nat)
  | compare (comparison : Comparison) (bound : Int)
  | detection (rule : String)

namespace Condition

/-- The filters that a condition holds. -/
@[simp]
def inner : Condition → List FilterDraft
  | .not inner => [inner]
  | .either choices => choices
  | _ => []

/-- The rules that a condition names by itself. -/
@[simp]
def named : Condition → List String
  | .detection rule => [rule]
  | _ => []

end Condition

namespace FilterDraft

/-- What a filter has in the places of the conditions. -/
def options (draft : FilterDraft) : List (Option Condition) :=
  [draft.not.map .not, draft.either.map .either, draft.fileName.map .fileName, draft.values.map .values,
    draft.regex.map .regex, draft.stringRegex.map .stringRegex, draft.shorterThan.map .shorterThan,
    draft.less.map (.compare .less), draft.lessOrEqual.map (.compare .lessOrEqual),
    draft.greater.map (.compare .greater), draft.greaterOrEqual.map (.compare .greaterOrEqual),
    draft.detection.map .detection]

/-- The conditions that a filter states. -/
def conditions (draft : FilterDraft) : List Condition := draft.options.reduceOption

theorem conditionCount_eq (draft : FilterDraft) : draft.conditionCount = draft.conditions.length := by
  have count {α : Type} (value : Option α) (make : α → Condition) {rest : List (Option Condition)}
      {flags : List Bool} (same : flags.count true = rest.reduceOption.length) :
      (value.isSome :: flags).count true = (value.map make :: rest).reduceOption.length := by
    cases value <;> simp [same]
  iterate 12 refine count _ _ ?_
  rfl

/-- The filters that a filter holds. -/
def inner (draft : FilterDraft) : List FilterDraft := draft.conditions.flatMap Condition.inner

theorem sizeOf_inner {draft part : FilterDraft} (mem : part ∈ draft.inner) : sizeOf part < sizeOf draft := by
  obtain ⟨condition, stated, among⟩ := mem_flatMap.1 mem
  have stated := reduceOption_mem_iff.1 stated
  simp only [options, mem_cons, eq_comm (a := some condition), Option.map_eq_some_iff] at stated
  rcases draft with ⟨_, not, either⟩
  rw [FilterDraft.mk.sizeOf_spec]
  cases condition with
  | not inner =>
    obtain rfl : not = some inner := by simpa using stated
    cases mem_singleton.1 among
    rw [Option.some.sizeOf_spec]
    omega
  | either choices =>
    obtain rfl : either = some choices := by simpa using stated
    have within : sizeOf part < sizeOf choices := sizeOf_lt_of_mem among
    rw [Option.some.sizeOf_spec]
    omega
  | _ => cases among

/-- A filter as it is stated, and all those in it. -/
def nest (draft : FilterDraft) : List FilterDraft :=
  draft :: draft.inner.attach.flatMap fun part => nest part.1
termination_by sizeOf draft
decreasing_by exact sizeOf_inner part.2

/-- The rules that a filter names as it is stated, from left to right. -/
def detections (draft : FilterDraft) : List String :=
  (draft.inner.attach.flatMap fun part => detections part.1) ++ draft.conditions.flatMap Condition.named
termination_by sizeOf draft
decreasing_by exact sizeOf_inner part.2

theorem nest_eq (draft : FilterDraft) : draft.nest = draft :: draft.inner.flatMap nest := by
  rw [nest]
  simp only [flatMap_subtype, unattach_attach]

theorem detections_eq (draft : FilterDraft) :
    draft.detections = draft.inner.flatMap detections ++ draft.conditions.flatMap Condition.named := by
  rw [detections]
  simp only [flatMap_subtype, unattach_attach]

end FilterDraft

/-- The capture is named, and the pattern has it. -/
def Pattern.Knows (pattern : Pattern) (capture : Option String) : Prop :=
  ∃ name ∈ capture, name ∈ pattern.captures

section

variable {rule : String} {pattern : Pattern} {draft : FilterDraft} {α β : Type}

theorem exists_ok_map {x : Except SetupError α} {make : α → β} {P : β → Prop} :
    (∃ result, make <$> x = .ok result ∧ P result) ↔ ∃ value, x = .ok value ∧ P (make value) := by
  cases x <;> simp [Functor.map, Except.map]

theorem exists_ok_bind {x : Except SetupError α} {f : α → Except SetupError β} {P : β → Prop} :
    (∃ result, (x >>= f) = .ok result ∧ P result) ↔
      ∃ value, x = .ok value ∧ ∃ result, f value = .ok result ∧ P result := by
  cases x <;> simp [bind, Except.bind]

theorem exists_captureOf (rule : String) (draft : FilterDraft) :
    (∃ name, draft.captureOf rule pattern = .ok name) ↔ pattern.Knows draft.capture := by
  unfold FilterDraft.captureOf Pattern.Knows Pattern.defines
  cases draft.capture with
  | none => simp
  | some name => by_cases known : name ∈ pattern.captures <;> simp [known]

variable [RegexEngine]

def RegexEngine.Valid (text : String) : Prop := (read? text false).isSome = true

/-- A condition is in order by itself, whatever the filters in it are. -/
def Condition.Proper (pattern : Pattern) (capture : Option String) : Condition → Prop
  | .not _ => True
  | .either choices => choices ≠ []
  | .fileName text => RegexEngine.Valid text
  | .regex text | .stringRegex text => pattern.Knows capture ∧ RegexEngine.Valid text
  | .values _ | .shorterThan _ | .compare _ _ | .detection _ => pattern.Knows capture

/-- A filter states exactly one condition, and that one is in order. -/
def FilterDraft.Proper (pattern : Pattern) (draft : FilterDraft) : Prop :=
  ∃ condition, draft.conditions = [condition] ∧ condition.Proper pattern draft.capture

/-- The filter of the condition of a draft. -/
def Condition.compile (rule : String) (pattern : Pattern) (draft : FilterDraft) :
    Condition → Except SetupError Filter
  | .not inner => do return .not (← inner.compile rule pattern)
  | .either [] => .error (.invalidFilter rule "`either` needs at least one filter")
  | .either choices => do return .either (← FilterDraft.compileAll rule pattern choices)
  | .fileName text => do return .fileName (← RegexEngine.compile text false)
  | .values texts => do return .values (← draft.captureOf rule pattern) texts
  | .regex text => do
    let name ← draft.captureOf rule pattern
    return .regex name (← RegexEngine.compile text false)
  | .stringRegex text => do
    let name ← draft.captureOf rule pattern
    return .stringRegex name (← RegexEngine.compile text false)
  | .shorterThan length => do return .shorterThan (← draft.captureOf rule pattern) length
  | .compare comparison bound => do return .compare (← draft.captureOf rule pattern) comparison bound
  | .detection reference => do return .detection (← draft.captureOf rule pattern) reference

/-- A draft that states one condition is compiled as that condition says, in whatever order the others are
looked for. -/
theorem FilterDraft.compile_eq (rule : String) (pattern : Pattern) (draft : FilterDraft) :
    draft.compile rule pattern = match draft.conditions with
      | [condition] => condition.compile rule pattern draft
      | _ => .error (.invalidFilter rule "a filter needs exactly one condition") := by
  rw [compile, conditionCount_eq]
  split
  · rename_i several
    split
    · rename_i single
      exact absurd (congrArg length single) several
    · rfl
  rename_i one
  obtain ⟨condition, single⟩ := length_eq_one_iff.1 (not_not.1 one)
  have is (other : Condition) (stated : some other ∈ draft.options) : condition = other := by
    have mem := reduceOption_mem_iff.2 stated
    rw [← conditions, single, mem_singleton] at mem
    exact mem.symm
  simp only [single]
  split
  · rename_i inner not
    rw [is (.not inner) (by simp [options, not])]
    rfl
  · rename_i choices _ either
    rw [is (.either choices) (by simp [options, either])]
    cases choices <;> rfl
  · rename_i text _ _ fileName
    rw [is (.fileName text) (by simp [options, fileName])]
    rfl
  unfold onCapture
  split
  · rename_i texts values
    rw [is (.values texts) (by simp [options, values])]
    rfl
  · rename_i text _ regex
    rw [is (.regex text) (by simp [options, regex])]
    rfl
  · rename_i text _ _ regex
    rw [is (.stringRegex text) (by simp [options, regex])]
    rfl
  · rename_i length _ _ _ shorter
    rw [is (.shorterThan length) (by simp [options, shorter])]
    rfl
  · rename_i reference _ _ _ _ detection
    rw [is (.detection reference) (by simp [options, detection])]
    rfl
  split
  · rename_i comparison bound found
    have mem : some (comparison, bound) ∈ draft.comparisons := by
      obtain ⟨option, mem, rfl⟩ := exists_of_findSome?_eq_some found
      exact mem
    rw [is (.compare comparison bound)]
    · rfl
    · simp only [comparisons, mem_cons, eq_comm (a := some (comparison, bound)), Option.map_eq_some_iff,
        Prod.mk.injEq, not_mem_nil, or_false] at mem
      rcases mem with ⟨_, stated, rfl, rfl⟩ | ⟨_, stated, rfl, rfl⟩ | ⟨_, stated, rfl, rfl⟩ |
        ⟨_, stated, rfl, rfl⟩ <;> simp [options, stated]
  · rename_i found
    simp [comparisons] at found
    simp [conditions, options, *] at single

theorem exists_regex {text : String} :
    (∃ isMatch, RegexEngine.compile text false = .ok isMatch) ↔ RegexEngine.Valid text := by
  unfold RegexEngine.compile RegexEngine.Valid
  cases RegexEngine.read? text false <;> simp

/-- A filter is compiled exactly if it is in order together with all that is in it, and then it refers to
the rules that it names. -/
def FilterDraft.Accepted (rule : String) (pattern : Pattern) (draft : FilterDraft) : Prop :=
  ∀ ids, (∃ filter, draft.compile rule pattern = .ok filter ∧ filter.references = ids) ↔
    (∀ part ∈ draft.nest, part.Proper pattern) ∧ draft.detections = ids

theorem FilterDraft.compileAll_iff {drafts : List FilterDraft}
    (each : ∀ draft ∈ drafts, draft.Accepted rule pattern) (ids : List String) :
    (∃ filters, compileAll rule pattern drafts = .ok filters ∧ filters.references = ids) ↔
      (∀ part ∈ drafts.flatMap nest, part.Proper pattern) ∧ drafts.flatMap detections = ids := by
  induction drafts generalizing ids with
  | nil => simp [compileAll, Filters.references]
  | cons draft rest ih =>
    have first := each draft mem_cons_self
    have later := ih fun other mem => each other (mem_cons_of_mem _ mem)
    simp only [compileAll, bind_pure_comp, exists_ok_bind, exists_ok_map, flatMap_cons,
      forall_mem_append, Filters.references]
    constructor
    · rintro ⟨filter, compiled, filters, others, rfl⟩
      obtain ⟨proper, same⟩ := (first _).1 ⟨filter, compiled, rfl⟩
      obtain ⟨properLater, sameLater⟩ := (later _).1 ⟨filters, others, rfl⟩
      exact ⟨⟨proper, properLater⟩, by rw [same, sameLater]⟩
    · rintro ⟨⟨proper, properLater⟩, rfl⟩
      obtain ⟨filter, compiled, same⟩ := (first _).2 ⟨proper, rfl⟩
      obtain ⟨filters, others, sameLater⟩ := (later _).2 ⟨properLater, rfl⟩
      exact ⟨filter, compiled, filters, others, by rw [same, sameLater]⟩

theorem Condition.compile_iff (draft : FilterDraft) {condition : Condition}
    (each : ∀ part ∈ condition.inner, part.Accepted rule pattern) (ids : List String) :
    (∃ filter, condition.compile rule pattern draft = .ok filter ∧ filter.references = ids) ↔
      (condition.Proper pattern draft.capture ∧
        ∀ part ∈ condition.inner.flatMap FilterDraft.nest, part.Proper pattern) ∧
        condition.inner.flatMap FilterDraft.detections ++ condition.named = ids := by
  cases condition with
  | not inner =>
    have same := each inner mem_cons_self ids
    simpa [Condition.compile, Proper, exists_ok_map, Filter.references] using same
  | either choices =>
    have same := FilterDraft.compileAll_iff each ids
    cases choices with
    | nil => simp [Condition.compile, Proper]
    | cons first rest => simpa [Condition.compile, Proper, exists_ok_map, Filter.references] using same
  | fileName text =>
    simp [Condition.compile, Proper, exists_ok_map, Filter.references, ← exists_regex]
  | regex | stringRegex =>
    simp [Condition.compile, Proper, exists_ok_bind, exists_ok_map, Filter.references, and_assoc,
      ← exists_regex, ← exists_captureOf rule]
  | values | shorterThan | compare | detection =>
    simp [Condition.compile, Proper, exists_ok_map, Filter.references, ← exists_captureOf rule]

theorem FilterDraft.accepted (rule : String) (pattern : Pattern) (draft : FilterDraft) :
    draft.Accepted rule pattern := by
  intro ids
  rw [compile_eq, nest_eq, detections_eq, forall_mem_cons, Proper, inner]
  match single : draft.conditions with
  | [] => simp
  | _ :: _ :: _ => simp
  | [condition] =>
    have each (part) (mem : part ∈ condition.inner) : part.Accepted rule pattern :=
      have : sizeOf part < sizeOf draft := sizeOf_inner (by simpa [inner, single] using mem)
      accepted rule pattern part
    have same := Condition.compile_iff draft each ids
    simpa [-Condition.inner, -Condition.named] using same
termination_by sizeOf draft
decreasing_by exact this

/-- A filter is accepted exactly if it and every filter in it states one condition, gives a choice where it
offers one, has only valid expressions and names a capture of the pattern where a condition looks at one.
It then refers to the rules that are named in it, from left to right. -/
theorem FilterDraft.accepted_exact (rule : String) (pattern : Pattern) (draft : FilterDraft) :
    ((∃ filter, draft.compile rule pattern = .ok filter) ↔ ∀ part ∈ draft.nest, part.Proper pattern) ∧
    ∀ filter, draft.compile rule pattern = .ok filter → filter.references = draft.detections := by
  refine ⟨⟨?_, fun proper => ?_⟩, fun filter compiled => ?_⟩
  · rintro ⟨filter, compiled⟩
    exact ((draft.accepted rule pattern _).1 ⟨filter, compiled, rfl⟩).1
  · obtain ⟨filter, compiled, _⟩ := (draft.accepted rule pattern _).2 ⟨proper, rfl⟩
    exact ⟨filter, compiled⟩
  · exact ((draft.accepted rule pattern _).1 ⟨filter, compiled, rfl⟩).2.symm

end

/-- A choice of two filters that name rules, one of them under a negation, and one by an expression. -/
theorem FilterDraft.accepted_exact_choice :
    let pattern : Pattern := ⟨"f($<X>)", .capture "X" [], ["X"], false⟩
    let draft : FilterDraft := { either := some [{ capture := "X", detection := "a" }, { fileName := "b" },
      { not := some { capture := "X", detection := "c" } }] }
    ∃ filter, draft.compile "r" pattern = .ok filter ∧ (∀ part ∈ draft.nest, part.Proper pattern) ∧
      filter.references = ["a", "c"] := by
  intro pattern draft
  obtain ⟨filter, compiled, _⟩ : ∃ filter, draft.compile "r" pattern = .ok filter ∧ True := by decide +kernel
  obtain ⟨accepted, names⟩ := draft.accepted_exact "r" pattern
  exact ⟨filter, compiled, accepted.1 ⟨filter, compiled⟩,
    (names filter compiled).trans (by decide +kernel)⟩

end LeakTrace
