import LeakTrace.Proofs.Suppression
import Mathlib.Data.Bool.AllAny
import Mathlib.Data.List.Forall2

namespace LeakTrace

open List

namespace Text

/-- What an editor leaves at the end of a line: spaces and tabs. -/
abbrev Trails (pad : List Char) : Prop := ∀ c ∈ pad, c = ' ' ∨ c = '\t'

variable {pad needle : List Char}

theorem Trails.isBlank (trails : Trails pad) : ∀ c ∈ pad, isBlank c = true := by
  intro c mem
  rcases trails c mem with rfl | rfl <;> decide

theorem after?_append (free : ∀ c ∈ needle, c ∉ pad) (cs : List Char) :
    after? needle (cs ++ pad) = (after? needle cs).map (· ++ pad) := by
  induction needle generalizing cs with
  | nil => rfl
  | cons first needle ih =>
    obtain ⟨absent, free⟩ := forall_mem_cons.1 free
    cases cs with
    | cons c cs =>
      simp only [cons_append, after?, ih free]
      split <;> rfl
    | nil =>
      cases pad with
      | nil => rfl
      | cons c pad =>
        refine if_neg ?_
        rintro rfl
        exact absent (.head _)

theorem find?_append (nonempty : needle ≠ []) (free : ∀ c ∈ needle, c ∉ pad) (cs : List Char) :
    find? needle (cs ++ pad) = (find? needle cs).map fun found => (found.1, found.2 ++ pad) := by
  induction cs with
  | nil =>
    obtain ⟨first, needle, rfl⟩ := exists_cons_of_ne_nil nonempty
    refine Option.eq_none_iff_forall_ne_some.2 ?_
    rintro ⟨before, rest⟩ found
    obtain ⟨whole, _⟩ := (find?_eq_some_iff nonempty).1 found
    rw [nil_append] at whole
    exact free first (.head _) (whole ▸ by simp)
  | cons c cs ih =>
    rw [cons_append, find?, find?, ← cons_append, after?_append free, ih]
    cases after? needle (c :: cs) <;> cases find? needle cs <;> rfl

theorem hasText_append (trails : Trails pad) (line : List Char) :
    hasText (line ++ pad) = hasText line := by
  rw [hasText, hasText, all_append, all_eq_true.2 trails.isBlank, Bool.and_true]

theorem trim_concat {c : Char} (blank : isBlank c = true) (cs : List Char) :
    trim (cs ++ [c]) = trim cs := by
  rw [trim, trim, trimStart, trimStart, dropWhile_append]
  split
  · rename_i empty
    rw [isEmpty_iff.1 empty, dropWhile_cons_of_pos blank, dropWhile_nil]
  · rw [trimEnd, trimEnd, reverse_append, reverse_singleton, singleton_append,
      dropWhile_cons_of_pos blank]

theorem trim_eq_self {cs : List Char} (inked : ∀ c ∈ cs, isBlank c = false) : trim cs = cs := by
  have same {cs : List Char} (inked : ∀ c ∈ cs, isBlank c = false) : cs.dropWhile isBlank = cs := by
    cases cs with
    | nil => rfl
    | cons c cs => exact dropWhile_cons_of_neg (by simp [inked c (.head _)])
  rw [trim, trimStart, same inked, trimEnd, same (by simpa using inked), reverse_reverse]

theorem splitOnP_concat (cut : Char → Bool) (c : Char) (whole : cut c = false) (cs : List Char) :
    ∃ parts last, cs.splitOnP cut = parts ++ [last] ∧ (cs ++ [c]).splitOnP cut = parts ++ [last ++ [c]] := by
  induction cs with
  | nil => exact ⟨[], [], rfl, by simp [splitOnP_cons_eq_if_modifyHead, whole]⟩
  | cons d cs ih =>
    obtain ⟨parts, last, before, after⟩ := ih
    rw [cons_append, splitOnP_cons_eq_if_modifyHead, splitOnP_cons_eq_if_modifyHead,
      before, after]
    split
    · exact ⟨[] :: parts, last, rfl, rfl⟩
    · cases parts with
      | nil => exact ⟨[], d :: last, rfl, rfl⟩
      | cons part parts => exact ⟨(d :: part) :: parts, last, rfl, rfl⟩

end Text

namespace Suppressions

open Text

theorem rulesIn_append_cons {sep : Char} (cuts : sep ∈ [',', ' ']) (listed more : List Char) :
    rulesIn (listed ++ sep :: more) = rulesIn listed ++ rulesIn more := by
  have cut : (sep == ',' || sep == ' ') = true := by simpa using cuts
  rw [rulesIn, rulesIn, rulesIn,
    splitOnP_append_cons (p := fun c => c == ',' || c == ' ') listed more cut, map_append,
    filter_append, map_append]

variable {pad line : List Char} {rule : String} {ls others : List (List Char)}

theorem rulesIn_append (trails : Trails pad) (listed : List Char) :
    rulesIn (listed ++ pad) = rulesIn listed := by
  induction pad generalizing listed with
  | nil => rw [append_nil]
  | cons c pad ih =>
    obtain ⟨blank, trails⟩ := forall_mem_cons.1 trails
    rw [← singleton_append, ← append_assoc, ih trails]
    rcases blank with rfl | rfl
    · rw [rulesIn_append_cons (by decide)]
      exact append_nil _
    · obtain ⟨parts, last, before, after⟩ :=
        splitOnP_concat (fun c => c == ',' || c == ' ') '\t' (by decide) listed
      rw [rulesIn, rulesIn, before, after, map_append, map_append, map_singleton,
        map_singleton, trim_concat (by decide)]

/-- The text after the directive of a comment line. -/
def directed? (line : List Char) : Option (List Char) :=
  let text := trimStart line
  if markers.any fun marker => startsWith marker text then (find? directive text).map Prod.snd else none

theorem directed?_append (trails : Trails pad) (line : List Char) :
    directed? (line ++ pad) = (directed? line).map (· ++ pad) := by
  have free {word : List Char} (inked : ∀ c ∈ word, isBlank c = false) : ∀ c ∈ word, c ∉ pad := by
    intro c mem among
    cases (inked c mem).symm.trans (trails.isBlank c among)
  have dropped : trimStart (line ++ pad) = if trimStart line = [] then [] else trimStart line ++ pad := by
    rw [trimStart, trimStart, dropWhile_append, dropWhile_eq_nil_iff.2 trails.isBlank]
    simp only [List.isEmpty_iff]
  unfold directed?
  rw [dropped]
  split
  · rename_i empty
    rw [empty]
    rfl
  have marked : (markers.any fun marker => startsWith marker (trimStart line ++ pad)) =
      markers.any fun marker => startsWith marker (trimStart line) := by
    have inked : ∀ marker ∈ markers, ∀ c ∈ marker, isBlank c = false := by
      simp only [← all_iff_forall_prop]
      decide
    rw [Bool.eq_iff_iff, any_eq_true, any_eq_true]
    refine exists_congr fun marker => and_congr_right fun mem => ?_
    rw [startsWith, startsWith, after?_append (free (inked marker mem)), Option.isSome_map]
  dsimp only
  rw [marked, find?_append (by decide) (free (all_iff_forall_prop.1 (by decide)))]
  split
  · rw [Option.map_map, Option.map_map]
    rfl
  · rfl

theorem listed?_eq (line : List Char) :
    listed? line = (directed? line).map fun rest => (dropClosings rest.reverse).reverse := by
  unfold listed? directed?
  dsimp only
  split
  · rw [Option.map_map]
    rfl
  · rfl

theorem suffix_of_directed? {rest : List Char} (found : directed? line = some rest) : rest <:+ line := by
  obtain ⟨_, found⟩ := Option.ite_none_right_eq_some.1 found
  obtain ⟨⟨before, rest⟩, first, rfl⟩ := Option.map_eq_some_iff.1 found
  obtain ⟨whole, _⟩ := (find?_eq_some_iff (by decide)).1 first
  exact IsSuffix.trans ⟨_, whole.symm⟩ (dropWhile_suffix _)

/-- In a comment made longer at its end, the end of the comment is read as part of the list. -/
theorem directive?_append (trails : Trails pad) (some : pad ≠ []) (line : List Char) :
    directive? (line ++ pad) = (directed? line).map rulesIn := by
  have open_ (rest : List Char) : ¬['*', '/'] <:+ rest ++ pad := by
    rintro ⟨shorter, same⟩
    have last := congrArg getLast? same
    rw [getLast?_append, getLast?_append, Option.or_of_isSome (getLast?_isSome.2 some)] at last
    have ending := trails '/' (mem_of_getLast? last.symm)
    contradiction
  rw [directive?_eq, listed?_eq, directed?_append trails, Option.map_map, Option.map_map]
  refine congrArg (Option.map · _) (funext fun rest => ?_)
  have kept := dropClosings_append (open_ rest) 0
  rw [closings, replicate_zero, flatten_nil, append_nil] at kept
  simp only [Function.comp_apply, kept, reverse_reverse, rulesIn_append trails]

theorem rulesIn_closings (count : Nat) :
    rulesIn (closings (count + 1)) = [String.ofList (closings (count + 1))] := by
  have marks : ∀ c ∈ closings (count + 1), c = '*' ∨ c = '/' := by
    intro c mem
    obtain ⟨_, among, mem⟩ := mem_flatten.1 mem
    cases eq_of_mem_replicate among
    simpa using mem
  have whole : (closings (count + 1)).splitOnP (fun c => c == ',' || c == ' ') = [closings (count + 1)] := by
    refine splitOnP_eq_singleton fun c mem => ?_
    rcases marks c mem with rfl | rfl <;> rfl
  have inked : ∀ c ∈ closings (count + 1), isBlank c = false := by
    intro c mem
    rcases marks c mem with rfl | rfl <;> decide
  rw [rulesIn, whole, map_singleton, trim_eq_self inked]
  rfl

/-- Whether the directive of a line is for the rule. -/
def excuses (rule : String) (line : List Char) : Bool :=
  (directive? line).any fun rules => rules.isEmpty || rules.contains rule

/-- A line that can be made longer without harm to the rule: if it is a directive that ends together with
its comment, it lists a rule, and a comma or a space stands before the end. -/
def Spared (rule : String) (line : List Char) : Prop :=
  ∀ listed, Directs line listed → ['*', '/'] <:+ line →
    rulesIn listed ≠ [] ∧ (∃ sep ∈ [',', ' '], [sep] <:+ listed) ∧ ∀ count, rule.toList ≠ closings count

theorem Spared.excuses (spared : Spared rule line) (trails : Trails pad) :
    excuses rule (line ++ pad) = excuses rule line := by
  by_cases empty : pad = []
  · rw [empty, append_nil]
  rw [Suppressions.excuses, Suppressions.excuses, directive?_append trails empty, directive?_eq]
  cases found : directed? line with
  | none => rw [listed?_eq, found]; rfl
  | some rest =>
    have listed : listed? line = some (dropClosings rest.reverse).reverse := by rw [listed?_eq, found]; rfl
    have directs := listed?_eq_some_iff.1 listed
    obtain ⟨count, whole, _⟩ := exists_closings rest.reverse
    rw [reverse_reverse] at whole
    rw [listed]
    generalize (dropClosings rest.reverse).reverse = listed at whole directs
    cases count with
    | zero => rw [whole, closings, replicate_zero, flatten_nil, append_nil]
    | succ count =>
      have closed : ['*', '/'] <:+ rest :=
        ⟨listed ++ closings count, by simp [whole, closings, replicate_succ']⟩
      obtain ⟨lists, ⟨sep, cuts, before, rfl⟩, other⟩ :=
        spared listed directs (closed.trans (suffix_of_directed? found))
      have split := rulesIn_append_cons cuts before
      have plain : rulesIn (before ++ [sep]) = rulesIn before := (split []).trans (append_nil _)
      rw [plain] at lists
      have unlisted : rule ≠ String.ofList (closings (count + 1)) := by
        rintro rfl
        exact other _ String.toList_ofList
      rw [whole, append_assoc, singleton_append, Option.map_some, Option.map_some, split,
        plain, rulesIn_closings]
      obtain ⟨first, others, nonempty⟩ := exists_cons_of_ne_nil lists
      simp [nonempty, unlisted]

theorem nextLine?_congr (same : Forall₂ (fun line other => hasText other = hasText line) ls others)
    (number : Nat) : nextLine? number others = nextLine? number ls := by
  induction same generalizing number with
  | nil => rfl
  | cons text _ ih => rw [nextLine?, nextLine?, ih, Bool.not_inj text]

theorem covered_cons (number line : Nat) (rule : String) (first : List Char) (rest : List (List Char)) :
    covered (ofLines number (first :: rest)) line rule =
      (((nextLine? (number + 1) rest).any (· == line) && excuses rule first) ||
        covered (ofLines (number + 1) rest) line rule) := by
  rw [covered, covered, ofLines_cons, any_append, excuses]
  cases directive? first <;> cases nextLine? (number + 1) rest <;> simp

/-- What is covered depends on the lines only through whether they have text and excuse the rule. -/
theorem covered_congr (same : Forall₂ (fun line other => hasText other = hasText line ∧
      excuses rule other = excuses rule line) ls others) (number line : Nat) :
    covered (ofLines number others) line rule = covered (ofLines number ls) line rule := by
  induction same generalizing number with
  | nil => rfl
  | cons here rest ih =>
    rw [covered_cons, covered_cons, here.2, ih, nextLine?_congr (rest.imp fun _ _ both => both.1)]

/-- Spaces and tabs at the ends of lines make no difference to what is covered, as long as no directive is
made longer that ends together with its comment and lists no rule, or has its last one right before the end. -/
theorem trailing_blanks_unseen {source padded rule : String}
    (same : Forall₂ (fun line other => other = line ∨
      Spared rule line ∧ ∃ pad, Trails pad ∧ other = line ++ pad)
      (lines source.toList) (lines padded.toList)) (line : Nat) :
    (ofSource padded).covers line rule = (ofSource source).covers line rule := by
  rw [covers_eq, covers_eq]
  refine covered_congr (same.imp ?_) 1 line
  rintro line _ (rfl | ⟨spared, pad, trails, rfl⟩)
  · exact ⟨rfl, rfl⟩
  · exact ⟨hasText_append trails line, spared.excuses trails⟩

/-- The end of a comment may be followed by blanks where a space stands before it and it lists a rule. -/
theorem trailing_blanks_unseen_block :
    let source := "/* sentinel:disable r */\n\nx();\n"
    let padded := "/* sentinel:disable r */ \t\n \nx();\t\n"
    (ofSource padded).covers 3 "r" = (ofSource source).covers 3 "r" ∧
      (ofSource source).covers 3 "r" = true := by
  intro source padded
  have block : Spared "r" "/* sentinel:disable r */".toList := by
    intro listed directs _
    have found : listed? "/* sentinel:disable r */".toList = some [' ', 'r', ' '] := by decide +kernel
    cases found.symm.trans (listed?_eq_some_iff.2 directs)
    refine ⟨by decide +kernel, ⟨' ', by decide, [' ', 'r'], rfl⟩, fun count => ?_⟩
    cases count <;> simp [closings, replicate_succ]
  have code {line : List Char} (none : listed? line = none) : Spared "r" line := by
    intro _ directs
    cases none.symm.trans (listed?_eq_some_iff.2 directs)
  have before : lines source.toList = ["/* sentinel:disable r */".toList, [], "x();".toList] := by
    decide +kernel
  have after : lines padded.toList = ["/* sentinel:disable r */ \t".toList, [' '], "x();\t".toList] := by
    decide +kernel
  refine ⟨trailing_blanks_unseen ?_ 3, by decide +kernel⟩
  rw [before, after]
  exact .cons (.inr ⟨block, [' ', '\t'], by simp [Trails], rfl⟩) (.cons
    (.inr ⟨code (by decide +kernel), [' '], by simp [Trails], rfl⟩)
    (.cons (.inr ⟨code (by decide +kernel), ['\t'], by simp [Trails], rfl⟩) .nil))

end Suppressions

end LeakTrace
