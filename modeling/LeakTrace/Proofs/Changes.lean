import LeakTrace.Run
import LeakTrace.Proofs.Grading
import Mathlib.Data.List.Nodup

namespace LeakTrace

open List

/-- What tells the findings of two directories apart: rule, path below the directory and line. -/
structure Spot where
  rule : String
  path : String
  line : Nat
  deriving DecidableEq

namespace Spot

def ofFinding (base : String) (finding : Finding) : Spot :=
  ⟨finding.rule, Path.relative finding.file base, finding.line⟩

def key (spot : Spot) : String := spot.rule ++ ":" ++ spot.path ++ ":" ++ toString spot.line

/-- The line follows the last colon, and a rule without colons ends at the first one. -/
theorem eq_of_key {a b : Spot} (plain : ':' ∉ a.rule.toList) (also : ':' ∉ b.rule.toList)
    (same : a.key = b.key) : a = b := by
  have texts := congrArg String.toList same
  simp only [key, String.toList_append, String.reduceToList, append_assoc, cons_append,
    nil_append] at texts
  obtain ⟨rules, rest⟩ := eq_of_first_colon plain also texts
  have reversed := congrArg reverse rest
  simp only [reverse_append, reverse_cons, append_assoc, singleton_append] at reversed
  obtain ⟨lines, paths⟩ := eq_of_first_colon (mt mem_reverse.1 (colon_not_mem_digits _))
    (mt mem_reverse.1 (colon_not_mem_digits _)) reversed
  cases b
  cases String.toList_injective rules
  cases String.toList_injective (reverse_injective paths)
  cases eq_of_toString (reverse_injective lines)
  rfl

/-- Keeping the last of each key is keeping the first from behind. -/
theorem kept_eq_distinctBy (entries : List (String × Finding)) :
    entries.foldl (fun kept entry => entry :: kept.filter fun other => other.1 != entry.1) [] =
      distinctBy Prod.fst [] entries.reverse := by
  rw [← foldr_reverse]
  induction entries.reverse with
  | nil => rfl
  | cons entry rest ih => rw [foldr_cons, ih, distinctBy, distinctBy_cons]; rfl

/-- The key by which findings are compared. -/
def keyOf (base : String) (finding : Finding) : String := (ofFinding base finding).key

theorem keyedFindings_perm (base : String) (findings : List Finding) : (keyedFindings base findings).Perm
    ((distinctBy (keyOf base) [] findings.reverse).map fun finding => (keyOf base finding, finding)) := by
  refine (mergeSort_perm _ _).trans (.of_eq ?_)
  rw [kept_eq_distinctBy, ← map_reverse, distinctBy_map]
  rfl

/-- The finding is the last one at its spot. -/
def Last (base : String) (findings : List Finding) (finding : Finding) : Prop :=
  ∃ before after, findings = before ++ finding :: after ∧
    ∀ later ∈ after, ofFinding base later ≠ ofFinding base finding

variable {base : String} {findings : List Finding} {finding : Finding}

theorem mem_kept (mem : finding ∈ distinctBy (keyOf base) [] findings.reverse) :
    Last base findings finding := by
  rw [← filter_true findings.reverse, mem_distinctBy_filter] at mem
  obtain ⟨-, -, after, before, whole, later⟩ := mem
  refine ⟨before.reverse, after.reverse, by simpa using congrArg reverse whole, fun other among same => ?_⟩
  cases later other (mem_reverse.1 among) (congrArg key same)

/-- The findings at spots that are not known, one for each spot: the last one. -/
structure Reported (base : String) (findings : List Finding) (known : List Spot) (reported : List Finding) :
    Prop where
  spots : ∀ spot, spot ∈ reported.map (ofFinding base) ↔
    spot ∈ findings.map (ofFinding base) ∧ spot ∉ known
  last : ∀ finding ∈ reported, Last base findings finding
  once : (reported.map (ofFinding base)).Nodup

theorem exists_kept (base : String) (mem : finding ∈ findings) :
    ∃ kept ∈ distinctBy (keyOf base) [] findings.reverse, keyOf base kept = keyOf base finding := by
  obtain ⟨kept, first, same⟩ : ∃ kept, First (keyOf base) (fun _ => true) findings.reverse kept ∧
      keyOf base kept = keyOf base finding := exists_first (mem_reverse.2 mem) rfl
  have stays := mem_distinctBy_filter.2 ⟨not_mem_nil, first⟩
  rw [filter_true] at stays
  exact ⟨kept, stays, same⟩

theorem lookup_keyedFindings {key : String} :
    (keyedFindings base findings).lookup key = none ↔ key ∉ findings.map (keyOf base) := by
  have same {entry} := (keyedFindings_perm base findings).mem_iff (a := entry)
  rw [lookup_eq_none_iff]
  constructor
  · intro absent mem
    obtain ⟨finding, among, rfl⟩ := mem_map.1 mem
    obtain ⟨kept, stays, equal⟩ := exists_kept base among
    exact bne_iff_ne.1 (absent _ (same.2 (mem_map_of_mem stays))) equal.symm
  · intro absent entry mem
    obtain ⟨finding, kept, rfl⟩ := mem_map.1 (same.1 mem)
    have among := mem_reverse.1 (mem_distinctBy kept).2
    exact bne_iff_ne.2 fun equal => absent (equal ▸ mem_map_of_mem among)

/-- Beyond the known ones stay the findings that are kept and whose keys no known one has. -/
theorem findingsBeyond_perm (base knownBase : String) (findings known : List Finding) :
    (findingsBeyond (keyedFindings knownBase known) (keyedFindings base findings)).Perm
      ((distinctBy (keyOf base) [] findings.reverse).filter fun finding =>
        keyOf base finding ∉ known.map (keyOf knownBase)) := by
  refine (((keyedFindings_perm base findings).filter _).map _).trans (.of_eq ?_)
  rw [filter_map, map_map]
  refine (map_id' _).trans (filter_congr fun finding _ => ?_)
  rw [Function.comp_apply, Bool.eq_iff_iff, Option.isNone_iff_eq_none, lookup_keyedFindings, decide_eq_true_iff]

theorem reported_findingsBeyond {knownBase : String} {known : List Finding}
    (apart : ∀ a ∈ known.map (ofFinding knownBase) ++ findings.map (ofFinding base),
      ∀ b ∈ findings.map (ofFinding base), a.key = b.key → a = b) :
    Reported base findings (known.map (ofFinding knownBase))
      (findingsBeyond (keyedFindings knownBase known) (keyedFindings base findings)) := by
  have same := findingsBeyond_perm base knownBase findings known
  have once : (distinctBy (keyOf base) [] findings.reverse).Pairwise fun first second =>
      ofFinding base first ≠ ofFinding base second :=
    (distinctBy_pairwise _ _).imp fun different same => different (congrArg key same)
  refine ⟨fun spot => ?_, fun finding mem => ?_, ?_⟩
  · rw [(same.map _).mem_iff]
    constructor
    · intro mem
      obtain ⟨finding, kept, rfl⟩ := mem_map.1 mem
      obtain ⟨kept, fresh⟩ := mem_filter.1 kept
      refine ⟨mem_map_of_mem (mem_reverse.1 (mem_distinctBy kept).2), fun old => ?_⟩
      obtain ⟨other, among, equal⟩ := mem_map.1 old
      exact of_decide_eq_true fresh (mem_map.2 ⟨other, among, congrArg key equal⟩)
    · rintro ⟨mem, fresh⟩
      obtain ⟨finding, among, rfl⟩ := mem_map.1 mem
      obtain ⟨kept, stays, equal⟩ := exists_kept base among
      have there := mem_map_of_mem (f := ofFinding base) (mem_reverse.1 (mem_distinctBy stays).2)
      refine mem_map.2 ⟨kept, mem_filter.2 ⟨stays, decide_eq_true fun old => fresh ?_⟩,
        apart _ (mem_append_right _ there) _ mem equal⟩
      obtain ⟨other, before, clash⟩ := mem_map.1 old
      have known := mem_map_of_mem (f := ofFinding knownBase) before
      exact apart _ (mem_append_left _ known) _ mem (clash.trans equal) ▸ known
  · exact mem_kept (mem_filter.1 (same.mem_iff.1 mem)).1
  · exact (same.map _).nodup_iff.2 ((pairwise_map.2 once).sublist (filter_sublist.map _))

end Spot

/-- Of the findings of two directories, those at new spots are reported as new and those at lost spots as
fixed. -/
theorem changes_reported {oldBase newBase : String} {old new : List Finding}
    (apart : ∀ a ∈ old.map (Spot.ofFinding oldBase) ++ new.map (Spot.ofFinding newBase),
      ∀ b ∈ old.map (Spot.ofFinding oldBase) ++ new.map (Spot.ofFinding newBase), a.key = b.key → a = b) :
    Spot.Reported newBase new (old.map (Spot.ofFinding oldBase))
        (findingsBeyond (keyedFindings oldBase old) (keyedFindings newBase new)) ∧
      Spot.Reported oldBase old (new.map (Spot.ofFinding newBase))
        (findingsBeyond (keyedFindings newBase new) (keyedFindings oldBase old)) := by
  refine ⟨Spot.reported_findingsBeyond fun a first b second => apart a first b (mem_append_right _ second),
    Spot.reported_findingsBeyond fun a first b second => apart a ?_ b (mem_append_left _ second)⟩
  exact mem_append.2 (mem_append.1 first).symm

/-- A finding of a rule on a line of a file. -/
def Finding.sample (file : String) (line column : Nat) : Finding :=
  { (default : Finding) with rule := "log", file, line, column }

/-- A finding has moved to another line. -/
theorem changes_reported_moved :
    let old := [Finding.sample "/old/app.js" 1 1]
    let new := [Finding.sample "/new/app.js" 2 1]
    Spot.Reported "/new" new (old.map (Spot.ofFinding "/old"))
        (findingsBeyond (keyedFindings "/old" old) (keyedFindings "/new" new)) ∧
      Spot.Reported "/old" old (new.map (Spot.ofFinding "/new"))
        (findingsBeyond (keyedFindings "/new" new) (keyedFindings "/old" old)) := by
  intro old new
  have rules : ∀ spot ∈ old.map (Spot.ofFinding "/old") ++ new.map (Spot.ofFinding "/new"),
      spot.rule = "log" := by
    simp [old, new, Spot.ofFinding, Finding.sample]
  refine changes_reported fun a first b second => Spot.eq_of_key ?_ ?_
  · rw [rules a first]
    decide
  · rw [rules b second]
    decide

/-- Of two findings of one rule on a line only the later one is reported. -/
theorem first_on_line_unreported :
    let finding := Finding.sample "/new/app.js" 1
    Spot.ofFinding "/new" (finding 1) ∉ [].map (Spot.ofFinding "/old") ∧ finding 1 ∈ [finding 1, finding 9] ∧
      finding 1 ∉ findingsBeyond (keyedFindings "/old" []) (keyedFindings "/new" [finding 1, finding 9]) := by
  intro finding
  refine ⟨not_mem_nil, mem_cons_self, fun member => ?_⟩
  simp [findingsBeyond, keyedFindings, finding, Finding.sample] at member

end LeakTrace
