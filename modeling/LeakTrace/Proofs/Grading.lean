import LeakTrace.Proofs.Detection.Listing
import LeakTrace.Proofs.WorkflowCommand
import Mathlib.Data.Prod.Lex

namespace LeakTrace

open List

section Firsts

variable {α β : Type}

/-- The items of a list, in their order, that are like none before them. -/
def firsts (alike : α → α → Prop) [DecidableRel alike] (items : List α) : List α :=
  (items.zipIdx.filter fun entry : α × Nat =>
    ∀ earlier ∈ items.take entry.2, ¬alike earlier entry.1).map Prod.fst

variable {key : α → β} [DecidableEq β]

theorem distinctBy_eq_filter {seen : List β} {rest : List α} (before : List α)
    (known : ∀ item, key item ∈ seen ↔ ∃ earlier ∈ before, key earlier = key item) :
    distinctBy key seen rest = ((rest.zipIdx before.length).filter fun entry : α × Nat =>
      ∀ earlier ∈ (before ++ rest).take entry.2, ¬key earlier = key entry.1).map Prod.fst := by
  induction rest generalizing seen before with
  | nil => rfl
  | cons head rest ih =>
    have step := fun seen known => @ih seen (before ++ [head]) known
    simp only [length_append, length_singleton, append_assoc, singleton_append] at step
    rw [distinctBy, zipIdx_cons, filter_cons, take_left]
    by_cases old : key head ∈ seen
    · have met := (known head).1 old
      rw [if_pos (by simpa using old), if_neg (by simpa using met)]
      refine step seen fun item => ?_
      grind
    · have fresh := mt (known head).2 old
      rw [if_neg (by simpa using old), if_pos (by simpa using fresh), map_cons]
      refine congrArg (head :: ·) (step _ fun item => ?_)
      grind

end Firsts

theorem colon_not_mem_digits (n : Nat) : ':' ∉ (toString n).toList := fun mem =>
  WorkflowCommand.digits_unbroken n ':' mem (by decide)

/-- A colon that is the first one tells what stands before it from what stands behind it. -/
theorem eq_of_first_colon {a b rest other : List Char} (plain : ':' ∉ a) (also : ':' ∉ b)
    (same : a ++ ':' :: rest = b ++ ':' :: other) : a = b ∧ rest = other := by
  have first := Text.find?_of_not_mem plain [] rest
  have second := Text.find?_of_not_mem also [] other
  rw [nil_append] at first second
  rw [same, second] at first
  simpa [eq_comm] using first

theorem eq_of_toString {m n : Nat} (same : (toString m).toList = (toString n).toList) : m = n := by
  rw [← Text.ofDigitChars_toString m, same, Text.ofDigitChars_toString]

namespace Finding

/-- What the key says behind the path. -/
def place (finding : Finding) : String :=
  toString finding.line ++ ":" ++ toString finding.column ++ ":" ++ finding.rule

theorem key_eq (finding : Finding) : finding.key = finding.file ++ ":" ++ finding.place := by
  simp only [key, place, String.append_assoc]

theorem toList_place (finding : Finding) : finding.place.toList =
    (toString finding.line).toList ++ ':' ::
      ((toString finding.column).toList ++ ':' :: finding.rule.toList) := by
  simp [place]

/-- Both findings are of one rule at one place. -/
def Repeats (a b : Finding) : Prop :=
  a.file = b.file ∧ a.line = b.line ∧ a.column = b.column ∧ a.rule = b.rule

/-- The path of `b` goes on with a colon where that of `a` ends, and what the key of `a` says there of its place
and rule ends with what the key of `b` says of its own. -/
def RunsInto (a b : Finding) : Prop :=
  ∃ more, b.file = a.file ++ ":" ++ more ∧ a.place = more ++ ":" ++ b.place

variable {a b : Finding}

theorem eq_of_place (same : a.place = b.place) :
    a.line = b.line ∧ a.column = b.column ∧ a.rule = b.rule := by
  have texts := congrArg String.toList same
  rw [toList_place, toList_place] at texts
  obtain ⟨lines, texts⟩ := eq_of_first_colon (colon_not_mem_digits _) (colon_not_mem_digits _) texts
  obtain ⟨columns, rules⟩ := eq_of_first_colon (colon_not_mem_digits _) (colon_not_mem_digits _) texts
  exact ⟨eq_of_toString lines, eq_of_toString columns, String.toList_injective rules⟩

/-- The rest of the longer path is empty, or starts with the colon behind the shorter one. -/
theorem repeats_or_runsInto {more : List Char} (longer : b.file.toList = a.file.toList ++ more)
    (rest : ':' :: a.place.toList = more ++ ':' :: b.place.toList) : a.Repeats b ∨ a.RunsInto b := by
  cases more with
  | nil =>
    have files : a.file = b.file := String.toList_injective (by rw [longer, append_nil])
    have places : a.place = b.place := String.toList_injective (cons.inj rest).2
    exact .inl ⟨files, eq_of_place places⟩
  | cons colon more =>
    obtain ⟨rfl, rest⟩ := cons.inj rest
    refine .inr ⟨String.ofList more, String.toList_injective ?_, String.toList_injective ?_⟩
    · simpa using longer
    · simpa using rest

theorem key_eq_iff : a.key = b.key ↔ a.Repeats b ∨ a.RunsInto b ∨ b.RunsInto a := by
  constructor
  · intro same
    have texts := congrArg String.toList same
    rw [key_eq, key_eq] at texts
    simp only [String.toList_append, append_assoc, String.reduceToList, singleton_append] at texts
    rcases append_eq_append_iff.1 texts with ⟨more, longer, rest⟩ | ⟨more, longer, rest⟩
    · exact (repeats_or_runsInto longer rest).imp_right .inl
    · rcases repeats_or_runsInto longer rest with ⟨file, line, column, rule⟩ | runs
      · exact .inl ⟨file.symm, line.symm, column.symm, rule.symm⟩
      · exact .inr (.inr runs)
  · rintro (⟨file, line, column, rule⟩ | ⟨more, file, place⟩ | ⟨more, file, place⟩)
    · rw [key, key, file, line, column, rule]
    · rw [key_eq, key_eq, file, place]
      simp only [String.append_assoc]
    · rw [key_eq, key_eq, file, place]
      simp only [String.append_assoc]

theorem RunsInto.apart (runs : a.RunsInto b) : a.file ≠ b.file ∧ ':' ∈ a.rule.toList := by
  obtain ⟨more, longer, places⟩ := runs
  constructor
  · intro same
    have lengths := congrArg (fun text => text.toList.length) (same.trans longer)
    simp at lengths
  have colons := congrArg (fun text => text.toList.count ':') places
  have none (n : Nat) := count_eq_zero_of_not_mem (colon_not_mem_digits n)
  simp only [toList_place, String.toList_append, count_append, count_cons_self, none] at colons
  refine count_pos_iff.1 ?_
  simp at colons
  omega

/-- The findings have the same key. -/
def Alike (a b : Finding) : Prop := a.Repeats b ∨ a.RunsInto b ∨ b.RunsInto a

instance : DecidableRel Alike := fun a b => decidable_of_iff (a.key = b.key) key_eq_iff

/-- Of the findings with one key only the first stays. The keys of two findings are the same if both are of
one rule at one place, or if the path of one runs into that of the other, which takes a rule with a colon
in its name. -/
theorem deduplicate_exact (findings : List Finding) :
    deduplicate findings = firsts Alike findings ∧
      ∀ a b : Finding, a.RunsInto b → a.file ≠ b.file ∧ ':' ∈ a.rule.toList := by
  refine ⟨?_, fun a b runs => runs.apart⟩
  rw [deduplicate, distinctBy_eq_filter [] (by simp), firsts]
  refine congrArg _ (filter_congr fun entry _ => decide_eq_decide.2 ?_)
  exact forall₂_congr fun earlier _ => not_congr key_eq_iff

/-- Graver findings first, then by path, line and column. -/
def rank (finding : Finding) : ℕᵒᵈ ×ₗ String ×ₗ ℕ ×ₗ ℕ :=
  toLex (OrderDual.toDual finding.severity.rank, toLex (finding.file, toLex (finding.line, finding.column)))

theorem precedes_iff : a.precedes b = true ↔ a.rank ≤ b.rank := by
  have same : a.severity.rank = b.severity.rank ↔ a.severity = b.severity := by
    cases a.severity <;> cases b.severity <;> decide
  simp [precedes, rank, Prod.Lex.le_iff, same]

end Finding

namespace RuleSet

/-- The findings of all detections, repeated ones included. -/
def gradings (set : RuleSet) (detections : List Detection) : List Finding :=
  detections.filterMap fun detection => (set.get? detection.rule).map fun rule => .ofDetection rule detection

theorem grade_eq (set : RuleSet) (minimum : Severity) (detections : List Detection) :
    set.grade minimum detections = (Finding.deduplicate ((set.gradings detections).filter fun finding =>
      minimum.rank ≤ finding.severity.rank)).mergeSort Finding.precedes := by
  rw [grade, gradings, filter_filterMap]
  congr 3
  funext detection
  cases set.get? detection.rule with
  | none => rfl
  | some rule => simp [Option.filter, Finding.ofDetection]

theorem of_mem_gradings {set : RuleSet} {detections : List Detection} {finding : Finding}
    (mem : finding ∈ set.gradings detections) : (∃ detection ∈ detections, finding.file = detection.file) ∧
      (set.get? finding.rule).map Rule.severity = some finding.severity := by
  obtain ⟨detection, among, graded⟩ := mem_filterMap.1 mem
  obtain ⟨rule, found, rfl⟩ := Option.map_eq_some_iff.1 graded
  have named : rule.id = detection.rule := by simpa using find?_some found
  refine ⟨⟨detection, among, rfl⟩, ?_⟩
  change (set.get? rule.id).map Rule.severity = some rule.severity
  rw [named, found]
  rfl

/-- In one file a threshold leaves out the findings below it and changes nothing else. -/
theorem grade_threshold (set : RuleSet) (minimum : Severity) (detections : List Detection) (file : String)
    (shared : ∀ detection ∈ detections, detection.file = file) :
    set.grade minimum detections =
      (set.grade .info detections).filter fun finding => minimum.rank ≤ finding.severity.rank := by
  have least : ((set.gradings detections).filter fun finding => Severity.info.rank ≤ finding.severity.rank) =
      set.gradings detections := filter_eq_self.2 fun finding _ => decide_eq_true (Nat.zero_le _)
  have files : ∀ finding ∈ set.gradings detections, finding.file = file := by
    intro finding member
    obtain ⟨⟨detection, among, same⟩, _⟩ := of_mem_gradings member
    rw [same, shared detection among]
  -- In one file a key names one rule, and with it one severity.
  have agree : ∀ a ∈ set.gradings detections, ∀ b ∈ set.gradings detections, a.key = b.key →
      decide (minimum.rank ≤ a.severity.rank) = decide (minimum.rank ≤ b.severity.rank) := by
    intro a first b second same
    have together : a.file = b.file := (files a first).trans (files b second).symm
    have rules : a.rule = b.rule := by
      rcases Finding.key_eq_iff.1 same with repeated | runs | runs
      · exact repeated.2.2.2
      · exact absurd together runs.apart.1
      · exact absurd together.symm runs.apart.1
    have severities := (of_mem_gradings first).2
    rw [rules, (of_mem_gradings second).2, Option.some.injEq] at severities
    rw [severities]
  have trans (a b c : Finding) : a.precedes b = true → b.precedes c = true → a.precedes c = true := by
    simpa only [Finding.precedes_iff] using le_trans
  have total (a b : Finding) : (a.precedes b || b.precedes a) = true := by
    simpa only [Bool.or_eq_true, Finding.precedes_iff] using le_total a.rank b.rank
  rw [grade_eq, grade_eq, least, filter_mergeSort trans total, Finding.deduplicate, Finding.deduplicate,
    filter_distinctBy agree]

/-- Of a grave and a slight finding on one line, the grave one stays. -/
theorem grade_threshold_two :
    let set : RuleSet := ⟨[{ (default : Rule) with id := "log", severity := .low },
      { (default : Rule) with id := "send", severity := .high }]⟩
    let found := fun rule => { (default : Detection) with rule, file := "app.js" }
    let both := set.grade .info [found "log", found "send"]
    both.length = 2 ∧ (both.filter fun finding => 2 ≤ finding.severity.rank).map Finding.rule = ["send"] := by
  refine ⟨?_, ?_⟩
  · rw [grade_eq, length_mergeSort]
    decide +kernel
  · exact (congrArg (map Finding.rule) (grade_threshold _ .medium _ "app.js" (by simp))).symm.trans
      (by decide +kernel)

end RuleSet

end LeakTrace
