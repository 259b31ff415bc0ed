import LeakTrace.Suppression
import Mathlib.Data.List.TakeWhile

namespace LeakTrace

open List

namespace Text

/-- Whether there is anything but white space on a line. -/
def hasText (line : List Char) : Bool := !line.all isBlank

variable {cs line needle rest : List Char}

theorem lines_of_none (none : cs.dropWhile (· != '\n') = []) :
    lines cs = if cs.isEmpty then [] else [cs] := by
  rw [lines]
  split
  · rfl
  · rename_i some
    rw [none] at some
    cases some

theorem lines_of_some {more : List Char} {ending : Char} (found : cs.dropWhile (· != '\n') = ending :: more) :
    lines cs = dropReturn (cs.takeWhile (· != '\n')) :: lines more := by
  rw [lines]
  split
  · rename_i none
    rw [found] at none
    cases none
  · rename_i same
    rw [found] at same
    cases same
    rfl

theorem hasText_dropReturn (line : List Char) : hasText (dropReturn line) = hasText line := by
  unfold dropReturn
  split
  · rename_i rest reversed
    have whole : line = rest.reverse ++ ['\r'] := by
      rw [← reverse_reverse line, reversed, reverse_cons]
    rw [whole, hasText, hasText, all_append]
    have blank : ['\r'].all isBlank = true := by decide
    rw [blank, Bool.and_true]
  · rfl

theorem hasText_append_left (text : hasText line = true) (more : List Char) :
    hasText (line ++ more) = true := by
  rw [hasText, Bool.not_eq_true'] at text ⊢
  rw [all_append, text, Bool.false_and]

/-- The lines of a text that goes on: all but the last are the same, and the last may become longer. -/
def Prolonged : List (List Char) → List (List Char) → Prop
  | [], _ => True
  | _ :: _, [] => False
  | line :: rest, other :: others =>
    (rest ≠ [] → other = line) ∧ (hasText line = true → hasText other = true) ∧ Prolonged rest others

theorem prolonged_append (cs more : List Char) : Prolonged (lines cs) (lines (cs ++ more)) := by
  fun_induction lines cs with
  | case1 cs none empty => trivial
  | case2 cs none nonempty =>
    have whole : cs.takeWhile (· != '\n') = cs := by
      rw [← append_nil (cs.takeWhile _), ← none, takeWhile_append_dropWhile]
    have dropped : (cs ++ more).dropWhile (· != '\n') = more.dropWhile (· != '\n') := by
      rw [dropWhile_append, none]
      rfl
    have longer {line : List Char} (begins : ∃ rest, hasText line = hasText (cs ++ rest)) :
        hasText cs = true → hasText line = true := by
      intro text
      obtain ⟨rest, same⟩ := begins
      rw [same, hasText_append_left text]
    cases found : more.dropWhile (· != '\n') with
    | nil =>
      have notEmpty : ¬(cs ++ more).isEmpty = true := by
        simp only [List.isEmpty_iff, append_eq_nil_iff] at nonempty ⊢
        exact fun both => nonempty both.1
      rw [lines_of_none (dropped.trans found), if_neg notEmpty]
      exact ⟨fun last => (last rfl).elim, longer ⟨more, rfl⟩, trivial⟩
    | cons ending others =>
      rw [lines_of_some (dropped.trans found)]
      refine ⟨fun last => (last rfl).elim, longer ⟨more.takeWhile (· != '\n'), ?_⟩, trivial⟩
      rw [hasText_dropReturn, takeWhile_append, whole, if_pos rfl]
  | case3 cs ending rest found ih =>
    have some : ¬(cs.dropWhile (· != '\n')).isEmpty = true := by simp [found]
    have dropped : (cs ++ more).dropWhile (· != '\n') = ending :: (rest ++ more) := by
      rw [dropWhile_append, if_neg some, found, cons_append]
    have taken : (cs ++ more).takeWhile (· != '\n') = cs.takeWhile (· != '\n') := by
      rw [takeWhile_append, if_neg]
      intro all
      have split := congrArg length (takeWhile_append_dropWhile (p := (· != '\n')) (l := cs))
      rw [length_append, found, length_cons, all] at split
      omega
    rw [lines_of_some dropped, taken]
    exact ⟨fun _ => rfl, id, ih⟩

/-- Up to a line with text that both texts have, they have the same lines above it. -/
theorem Prolonged.take {place : Nat} {ls others : List (List Char)} (prolonged : Prolonged ls others)
    (found : ls[place]? = some line) (text : hasText line = true) :
    others.take place = ls.take place ∧ others[place]?.any hasText = true := by
  induction ls generalizing place others with
  | nil => cases found
  | cons first rest ih =>
    cases others with
    | nil => exact prolonged.elim
    | cons other others =>
      obtain ⟨same, longer, prolonged⟩ := prolonged
      cases place with
      | zero =>
        cases found
        exact ⟨rfl, longer text⟩
      | succ place =>
        obtain ⟨equal, more⟩ := ih prolonged found
        rw [take_succ_cons, take_succ_cons, equal,
          same (ne_nil_of_mem (mem_of_getElem? found))]
        exact ⟨rfl, more⟩

theorem after?_eq_some_iff : after? needle cs = some rest ↔ cs = needle ++ rest := by
  induction needle generalizing cs with
  | nil => simp [after?]
  | cons first needle ih =>
    cases cs with
    | nil => simp [after?]
    | cons c cs => by_cases same : first = c <;> simp [after?, same, ih, eq_comm]

theorem startsWith_iff {start : List Char} : startsWith start cs = true ↔ start <+: cs := by
  rw [startsWith, Option.isSome_iff_exists]
  exact exists_congr fun rest => after?_eq_some_iff.trans eq_comm

theorem find?_eq_some_iff {before : List Char} (nonempty : needle ≠ []) :
    find? needle cs = some (before, rest) ↔ cs = before ++ needle ++ rest ∧
      ∀ shorter, shorter ++ needle <+: cs → before.length ≤ shorter.length := by
  induction cs generalizing before with
  | nil => simp [find?, nonempty]
  | cons c cs ih =>
    rw [find?]
    cases here : after? needle (c :: cs) with
    | some found =>
      have whole := after?_eq_some_iff.1 here
      constructor
      · rintro ⟨⟩
        exact ⟨whole, fun _ _ => Nat.zero_le _⟩
      · rintro ⟨same, first⟩
        obtain rfl : before = [] :=
          length_eq_zero_iff.1 (Nat.le_zero.1 (first [] ⟨found, whole.symm⟩))
        rw [append_cancel_left (whole.symm.trans same)]
    | none =>
      have absent : ¬needle <+: c :: cs := by
        rintro ⟨more, whole⟩
        rw [after?_eq_some_iff.2 whole.symm] at here
        cases here
      simp only [Option.map_eq_some_iff, Prod.exists, Prod.mk.injEq]
      constructor
      · rintro ⟨before, rest, found, rfl, rfl⟩
        obtain ⟨whole, first⟩ := ih.1 found
        refine ⟨congrArg (c :: ·) whole, fun shorter begins => ?_⟩
        cases shorter with
        | nil => exact absurd begins absent
        | cons d shorter => exact Nat.succ_le_succ (first shorter (cons_prefix_cons.1 begins).2)
      · rintro ⟨whole, first⟩
        cases before with
        | nil => exact absurd ⟨rest, whole.symm⟩ absent
        | cons d before =>
          cases whole
          refine ⟨before, rest, ih.2 ⟨rfl, fun shorter begins => ?_⟩, rfl, rfl⟩
          exact Nat.le_of_succ_le_succ (first (c :: shorter) (cons_prefix_cons.2 ⟨rfl, begins⟩))

theorem splitAt_eq (cut : Char → Bool) (cs : List Char) : splitAt cut cs = cs.splitOnP cut := by
  induction cs with
  | nil => rfl
  | cons c cs ih =>
    rw [splitAt, splitOnP_cons_eq_if_modifyHead, ih]
    split
    · rfl
    · cases parts : cs.splitOnP cut with
      | nil => exact absurd parts (splitOnP_ne_nil cut cs)
      | cons part parts => rfl

end Text

namespace Suppressions

open Text

/-- The ends of comments, that many of them. -/
def closings (count : Nat) : List Char := (replicate count ['*', '/']).flatten

variable {listed line : List Char} {rules : List String} {number target : Nat} {ls : List (List Char)}
  {source : String}

theorem dropClosings_append (ended : ¬['*', '/'] <:+ listed) (count : Nat) :
    dropClosings (listed ++ closings count).reverse = listed.reverse := by
  induction count with
  | zero =>
    rw [closings, replicate_zero, flatten_nil, append_nil, dropClosings.eq_def]
    split
    · rename_i rest reversed
      have whole : listed = rest.reverse ++ ['*', '/'] := by
        rw [← reverse_reverse listed, reversed]
        simp
      exact absurd ⟨rest.reverse, whole.symm⟩ ended
    · rfl
  | succ count ih =>
    rw [closings, replicate_succ', flatten_append, ← append_assoc, reverse_append]
    exact ih

theorem exists_closings (cs : List Char) :
    ∃ count, cs.reverse = (dropClosings cs).reverse ++ closings count ∧
      ¬['*', '/'] <:+ (dropClosings cs).reverse := by
  fun_induction dropClosings cs with
  | case1 rest ih =>
    obtain ⟨count, whole, last⟩ := ih
    exact ⟨count + 1, by simp [closings, replicate_succ', whole], last⟩
  | case2 cs other =>
    refine ⟨0, by simp [closings], ?_⟩
    rintro ⟨shorter, same⟩
    refine other shorter.reverse ?_
    rw [← reverse_reverse cs, ← same]
    simp

/-- The text between the directive of a comment line and the comment's end. -/
def listed? (line : List Char) : Option (List Char) :=
  let text := trimStart line
  if markers.any fun marker => startsWith marker text then
    (find? directive text).map fun found => (dropClosings found.2.reverse).reverse
  else none

/-- The line is a comment with a directive: after white space it starts as comments do, and the first
directive in it is followed by the text and the end of the comment, if it ends there. -/
def Directs (line listed : List Char) : Prop :=
  ∃ blank text before count, line = blank ++ text ∧ (∀ c ∈ blank, isBlank c = true) ∧
    (∃ marker ∈ markers, marker <+: text) ∧
    text = before ++ directive ++ (listed ++ closings count) ∧
    (∀ shorter, shorter ++ directive <+: text → before.length ≤ shorter.length) ∧
    ¬['*', '/'] <:+ listed

theorem trimStart_append {blank text marker : List Char} (white : ∀ c ∈ blank, isBlank c = true)
    (known : marker ∈ markers) (starts : marker <+: text) : trimStart (blank ++ text) = text := by
  have inked : ∀ marker ∈ markers, marker.head?.any (fun c => !isBlank c) = true := by decide
  have black := inked marker known
  obtain ⟨rest, rfl⟩ := starts
  rw [trimStart, dropWhile_append_of_pos white]
  cases marker with
  | nil => cases black
  | cons c marker => exact dropWhile_cons_of_neg (by simpa using black)

theorem listed?_eq_some_iff : listed? line = some listed ↔ Directs line listed := by
  unfold listed?
  constructor
  · intro found
    obtain ⟨comment, found⟩ := Option.ite_none_right_eq_some.1 found
    obtain ⟨⟨before, rest⟩, first, rfl⟩ := Option.map_eq_some_iff.1 found
    obtain ⟨marker, known, starts⟩ := any_eq_true.1 comment
    obtain ⟨whole, least⟩ := (find?_eq_some_iff (by decide)).1 first
    obtain ⟨count, split, last⟩ := exists_closings rest.reverse
    rw [reverse_reverse] at split
    exact ⟨line.takeWhile isBlank, trimStart line, before, count, takeWhile_append_dropWhile.symm,
      all_eq_true.1 all_takeWhile, ⟨marker, known, startsWith_iff.1 starts⟩, split ▸ whole,
      least, last⟩
  · rintro ⟨blank, text, before, count, rfl, white, ⟨marker, known, starts⟩, whole, least, last⟩
    have comment : markers.any (fun marker => startsWith marker text) = true :=
      any_eq_true.2 ⟨marker, known, startsWith_iff.2 starts⟩
    rw [trimStart_append white known starts, if_pos comment,
      (find?_eq_some_iff (by decide)).2 ⟨whole, least⟩, Option.map_some, dropClosings_append last,
      reverse_reverse]

/-- The rules in the text after a directive: what stands between commas and spaces, without the white
space around it. -/
def rulesIn (listed : List Char) : List String :=
  (((listed.splitOnP fun c => c == ',' || c == ' ').map trim).filter fun part => !part.isEmpty).map
    String.ofList

theorem directive?_eq (line : List Char) : directive? line = (listed? line).map rulesIn := by
  unfold directive? listed?
  dsimp only
  split
  · rw [Option.map_map]
    simp only [Text.splitAt_eq]
    rfl
  · rfl

theorem hasText_of_directive? (found : directive? line = some rules) : hasText line = true := by
  rw [hasText, Bool.not_eq_true', Bool.eq_false_iff]
  intro blank
  have empty : trimStart line = [] := dropWhile_eq_nil_iff.2 (all_eq_true.1 blank)
  have none : directive? line = none := by
    rw [directive?, empty]
    rfl
  rw [none] at found
  cases found

theorem nextLine?_eq_some_iff : nextLine? number ls = some target ↔ ∃ place, target = number + place ∧
      ls[place]?.any hasText = true ∧ ∀ line ∈ ls.take place, hasText line = false := by
  induction ls generalizing number with
  | nil => simp [nextLine?]
  | cons line rest ih =>
    have text : hasText line = !line.all isBlank := rfl
    rw [nextLine?]
    constructor
    · intro found
      split at found
      · rename_i blank
        obtain ⟨place, rfl, next, above⟩ := ih.1 found
        exact ⟨place + 1, by omega, next, by simpa [text, blank] using above⟩
      · rename_i inked
        cases found
        exact ⟨0, rfl, by simp [text, inked], forall_mem_nil _⟩
    · rintro ⟨place, rfl, next, above⟩
      cases place with
      | zero => exact if_neg (by simpa [text] using next)
      | succ place =>
        obtain ⟨blank, above⟩ := forall_mem_cons.1 above
        rw [if_pos (by simpa [text] using blank)]
        exact ih.2 ⟨place, by omega, next, above⟩

theorem ofLines_cons (number : Nat) (line : List Char) (rest : List (List Char)) :
    ofLines number (line :: rest) = (do
      let rules ← directive? line
      let target ← nextLine? (number + 1) rest
      return (target, rules)).toList ++ ofLines (number + 1) rest := by
  rw [ofLines]
  cases directive? line <;> cases nextLine? (number + 1) rest <;> rfl

/-- The line at the place has text, and above it stands such a line, with only blank lines
between the two. -/
def Below (Sign : List Char → Prop) (ls : List (List Char)) (place : Nat) : Prop :=
  ls[place]?.any hasText = true ∧ ∃ before comment blank, ls.take place = before ++ comment :: blank ∧
    Sign comment ∧ ∀ line ∈ blank, hasText line = false

theorem mem_ofLines : (target, rules) ∈ ofLines number ls ↔
      ∃ place, target = number + place ∧ Below (directive? · = some rules) ls place := by
  induction ls generalizing number with
  | nil => simp [ofLines, Below]
  | cons line rest ih =>
    rw [ofLines_cons, mem_append, ih]
    simp only [Option.mem_toList, Option.bind_eq_bind, Option.bind_eq_some_iff, Option.pure_def,
      Option.some.injEq, Prod.mk.injEq, nextLine?_eq_some_iff]
    constructor
    · rintro (⟨_, directed, _, ⟨place, rfl, text, blank⟩, rfl, rfl⟩ |
        ⟨place, rfl, text, before, comment, blank, whole, facts⟩)
      · exact ⟨place + 1, by omega, text, [], line, rest.take place, rfl, directed, blank⟩
      · exact ⟨place + 1, by omega, text, line :: before, comment, blank, congrArg (line :: ·) whole, facts⟩
    rintro ⟨place, rfl, text, before, comment, blank, whole, directed, facts⟩
    cases place with
    | zero => cases before <;> cases whole
    | succ place =>
      cases before with
      | nil =>
        cases whole
        exact .inl ⟨rules, directed, _, ⟨place, rfl, text, facts⟩, by omega, rfl⟩
      | cons first before =>
        have tail := (cons.inj whole).2
        exact .inr ⟨place, by omega, text, before, comment, blank, tail, directed, facts⟩

/-- Every directive is for a line below those of the directives before it: a line with a directive is not
blank, so that a directive above it is for that line or one still before it. -/
theorem targets_increase (number : Nat) (ls : List (List Char)) :
    ((ofLines number ls).map Prod.fst).Pairwise (· < ·) := by
  induction ls generalizing number with
  | nil => exact .nil
  | cons line rest ih =>
    rw [ofLines_cons]
    cases directive? line with
    | none => exact ih (number + 1)
    | some rules =>
      cases found : nextLine? (number + 1) rest with
      | none => exact ih (number + 1)
      | some target =>
        refine pairwise_cons.2 ⟨fun other mem => ?_, ih (number + 1)⟩
        obtain ⟨⟨_, later⟩, among, rfl⟩ := mem_map.1 mem
        obtain ⟨place, rfl, _, before, comment, blank, whole, directed, _⟩ := mem_ofLines.1 among
        obtain ⟨first, rfl, _, above⟩ := nextLine?_eq_some_iff.1 found
        have reached : first < place := by
          by_contra short
          have mem : comment ∈ rest.take place := by simp [whole]
          have blank := above comment (take_subset_take_left rest (by omega) mem)
          cases (hasText_of_directive? directed).symm.trans blank
        omega

/-- Whether one of the directives excuses a line from a rule. -/
def covered (entries : List (Nat × List String)) (line : Nat) (rule : String) : Bool :=
  entries.any fun (target, rules) => target == line && (rules.isEmpty || rules.contains rule)

theorem getElem?_byLine (source : String) (line : Nat) (rules : List String) :
    (ofSource source).byLine[line]? = some rules ↔ (line, rules) ∈ ofLines 1 (lines source.toList) := by
  have distinct : (ofLines 1 (lines source.toList)).Pairwise (¬compare ·.1 ·.1 = .eq) :=
    (pairwise_map.1 (targets_increase 1 _)).imp fun later same =>
      Nat.ne_of_lt later (Std.compare_eq_iff_eq.1 same)
  have stored {rules : List String} (mem : (line, rules) ∈ ofLines 1 (lines source.toList)) :
      (ofSource source).byLine[line]? = some rules :=
    Std.TreeMap.getElem?_ofList_of_mem Std.compare_self distinct mem
  refine ⟨fun found => ?_, stored⟩
  have known := Std.TreeMap.mem_ofList.1 (Std.TreeMap.mem_iff_isSome_getElem?.2
    (Option.isSome_of_eq_some found))
  obtain ⟨⟨_, others⟩, mem, rfl⟩ := mem_map.1 (contains_iff_mem.1 known)
  cases (stored mem).symm.trans found
  exact mem

/-- No later directive takes the place of another, so that it is the same to ask all of them. -/
theorem covers_eq (source : String) (line : Nat) (rule : String) :
    (ofSource source).covers line rule = covered (ofLines 1 (lines source.toList)) line rule := by
  rw [Bool.eq_iff_iff, covered, any_eq_true, covers]
  constructor
  · intro covers
    split at covers
    · rename_i rules found
      exact ⟨(line, rules), (getElem?_byLine ..).1 found,
        Bool.and_eq_true_iff.2 ⟨beq_self_eq_true line, covers⟩⟩
    · cases covers
  · rintro ⟨⟨target, rules⟩, mem, covers⟩
    obtain ⟨same, covers⟩ := Bool.and_eq_true_iff.1 covers
    cases beq_iff_eq.1 same
    rwa [(getElem?_byLine ..).2 mem]

theorem covers_iff {rule : String} {line : Nat} :
    (ofSource source).covers line rule = true ↔ ∃ place, line = place + 1 ∧
      ∃ rules, Below (directive? · = some rules) (lines source.toList) place ∧
        (rules = [] ∨ rule ∈ rules) := by
  simp only [covers_eq, covered, any_eq_true, Bool.and_eq_true, beq_iff_eq, Bool.or_eq_true,
    List.isEmpty_iff, contains_iff_mem, Prod.exists, mem_ofLines]
  constructor
  · rintro ⟨_, rules, ⟨place, rfl, below⟩, rfl, among⟩
    exact ⟨place, Nat.add_comm _ _, rules, below, among⟩
  · rintro ⟨place, rfl, rules, below, among⟩
    exact ⟨_, rules, ⟨place, rfl, below⟩, Nat.add_comm _ _, among⟩

theorem covers_append {position : Nat} (found : (lines source.toList)[position]? = some line)
    (text : hasText line = true) (rest rule : String) :
    (ofSource (source ++ rest)).covers (position + 1) rule =
      (ofSource source).covers (position + 1) rule := by
  have prolonged := prolonged_append source.toList rest.toList
  rw [← String.toList_append] at prolonged
  obtain ⟨same, longer⟩ := prolonged.take found text
  rw [Bool.eq_iff_iff, covers_iff, covers_iff]
  refine exists_congr fun place => and_congr_right fun here => ?_
  cases here
  simp only [Below, same, longer, found, Option.any_some, text]

/-- A directive covers exactly the next line with text below it, for the rules that it lists without the
white space around them, or for all if it lists none. No two directives are for the same line. -/
theorem covers_exact (source : String) (line : Nat) (rule : String) :
    ((ofSource source).covers line rule = true ↔ ∃ place, line = place + 1 ∧
      Below (fun comment => ∃ listed, Directs comment listed ∧
        (rulesIn listed = [] ∨ rule ∈ rulesIn listed)) (lines source.toList) place) ∧
    ((ofLines 1 (lines source.toList)).map Prod.fst).Nodup := by
  refine ⟨?_, (targets_increase 1 _).imp Nat.ne_of_lt⟩
  rw [covers_iff]
  refine exists_congr fun place => and_congr_right fun _ => ?_
  simp only [Below, directive?_eq, Option.map_eq_some_iff, listed?_eq_some_iff]
  constructor
  · rintro ⟨_, ⟨text, before, comment, blank, whole, ⟨listed, directs, rfl⟩, above⟩, among⟩
    exact ⟨text, before, comment, blank, whole, ⟨listed, directs, among⟩, above⟩
  · rintro ⟨text, before, comment, blank, whole, ⟨listed, directs, among⟩, above⟩
    exact ⟨_, ⟨text, before, comment, blank, whole, ⟨listed, directs, rfl⟩, above⟩, among⟩

/-- A tab before the name of a rule is no part of the name. -/
theorem tab_before_rule :
    let source := "// sentinel:disable\tr\nx();\n"
    let parts (listed : List Char) : List String :=
      ((listed.splitOnP fun c => c == ',' || c == ' ').filter fun part => !part.isEmpty).map String.ofList
    ¬((ofSource source).covers 2 "r" = true ↔ ∃ place, 2 = place + 1 ∧
      Below (fun comment => ∃ listed, Directs comment listed ∧ (parts listed = [] ∨ "r" ∈ parts listed))
        (lines source.toList) place) := by
  intro source parts claimed
  have covered : (ofSource source).covers 2 "r" = true := by decide +kernel
  obtain ⟨place, here, _, before, comment, blank, above, ⟨listed, directs, among⟩, _⟩ := claimed.1 covered
  cases here
  have first : (lines source.toList).take 1 = ["// sentinel:disable\tr".toList] := by decide +kernel
  have text : listed? "// sentinel:disable\tr".toList = some ['\t', 'r'] := by decide +kernel
  cases before with
  | nil =>
    cases above.symm.trans first
    cases (listed?_eq_some_iff.2 directs).symm.trans text
    revert among
    decide +kernel
  | cons _ before => cases before <;> cases above.symm.trans first

end Suppressions

end LeakTrace
