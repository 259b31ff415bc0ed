import LeakTrace.Catalog.FieldName
import Mathlib.Data.List.Basic

namespace LeakTrace.FieldName

open List

open Letter

/-- A word of two characters or more: small letters, and digits behind them. -/
def IsWord (word : List Char) : Prop :=
  2 ≤ word.length ∧ word.takeWhile isAsciiLower ≠ [] ∧
    (word.dropWhile isAsciiLower).all isAsciiDigit = true

instance : DecidablePred IsWord := fun _ => inferInstanceAs (Decidable (_ ∧ _))

/-- A character that is no part of a word. -/
def isMark (c : Char) : Bool := !isAlphanumeric c && !isLowercase c

inductive Style where
  | camel | pascal | snake | screaming | kebab | dotted | spaced
  deriving DecidableEq

def capitalized : List Char → List Char
  | [] => []
  | c :: rest => c.toUpper :: rest

def Style.spell (words : List (List Char)) : Style → List Char
  | camel => words.head?.getD [] ++ words.tail.flatMap capitalized
  | pascal => words.flatMap capitalized
  | snake => ['_'].intercalate words
  | screaming => ['_'].intercalate (words.map (·.map Char.toUpper))
  | kebab => ['-'].intercalate words
  | dotted => ['.'].intercalate words
  | spaced => [' '].intercalate words

/-- A character that goes on with a word wherever it stands, and ends it before a capital. -/
def GoesOn (c : Char) : Prop :=
  isAlphanumeric c = true ∧ isUppercase c = false ∧ lower c = [c] ∧ (isLowercase c || isAsciiDigit c) = true

instance (c : Char) : Decidable (GoesOn c) := inferInstanceAs (Decidable (_ ∧ _))

/-- A capital of the small letter `c`. -/
def IsCapital (capital c : Char) : Prop :=
  isAlphanumeric capital = true ∧ isUppercase capital = true ∧
    (isLowercase capital || isAsciiDigit capital) = false ∧ lower capital = [c]

instance (capital c : Char) : Decidable (IsCapital capital c) := inferInstanceAs (Decidable (_ ∧ _))

variable {c : Char} {words : List (List Char)}

theorem eq_ofNat {low : Nat} (count : Nat) (above : low ≤ c.toNat) (below : c.toNat < low + count) :
    ∃ n : Fin count, c = Char.ofNat (low + n.val) :=
  ⟨⟨c.toNat - low, by omega⟩, by rw [Nat.add_sub_cancel' above, Char.ofNat_toNat]⟩

theorem of_isAsciiLower (small : isAsciiLower c = true) : GoesOn c ∧ IsCapital c.toUpper c := by
  simp only [isAsciiLower, Bool.and_eq_true, decide_eq_true_eq] at small
  obtain ⟨n, rfl⟩ := eq_ofNat 26 (show 97 ≤ c.toNat from small.1)
    (show c.toNat < 123 from Nat.lt_succ_of_le small.2)
  revert n
  decide

theorem of_isAsciiDigit (digit : isAsciiDigit c = true) :
    GoesOn c ∧ isLowercase c = false ∧ c.toUpper = c := by
  simp only [isAsciiDigit, Bool.and_eq_true, decide_eq_true_eq] at digit
  obtain ⟨n, rfl⟩ := eq_ofNat 10 (show 48 ≤ c.toNat from digit.1)
    (show c.toNat < 58 from Nat.lt_succ_of_le digit.2)
  revert n
  decide

variable {previous : Char} {word text rest : List Char}

theorem IsWord.split (isWord : IsWord word) : ∃ letters digits, word = letters ++ digits ∧ letters ≠ [] ∧
    (∀ c ∈ letters, isAsciiLower c = true) ∧ ∀ c ∈ digits, isAsciiDigit c = true :=
  ⟨_, _, takeWhile_append_dropWhile.symm, isWord.2.1, all_eq_true.1 all_takeWhile,
    all_eq_true.1 isWord.2.2⟩

theorem IsWord.goesOn (isWord : IsWord word) : ∀ c ∈ word, GoesOn c := by
  obtain ⟨letters, digits, rfl, _, small, digit⟩ := isWord.split
  exact forall_mem_append.2 ⟨fun c mem => (of_isAsciiLower (small c mem)).1,
    fun c mem => (of_isAsciiDigit (digit c mem)).1⟩

theorem IsWord.exists_cons (isWord : IsWord word) :
    ∃ c rest, word = c :: rest ∧ isAsciiLower c = true ∧ rest ≠ [] := by
  obtain ⟨letters, digits, rfl, nonempty, small, _⟩ := isWord.split
  obtain ⟨c, letters, rfl⟩ := exists_cons_of_ne_nil nonempty
  refine ⟨c, letters ++ digits, rfl, small c mem_cons_self, fun empty => ?_⟩
  have long := isWord.1
  simp [append_eq_nil_iff.1 empty] at long

theorem splitFrom_mark (mark : isMark c = true) :
    splitFrom previous word (c :: rest) = flush word (splitFrom c [] rest) := by
  rw [isMark, Bool.and_eq_true] at mark
  rw [splitFrom, if_pos mark.1]

/-- Before a word nothing that came earlier counts. -/
theorem splitFrom_nil_word (other : Char) : splitFrom previous [] text = splitFrom other [] text := by
  cases text with
  | nil => rfl
  | cons c rest => simp [splitFrom]

theorem splitFrom_marks (marks : ∀ c ∈ text, isMark c = true) (rest : List Char) :
    splitFrom previous [] (text ++ rest) = splitFrom previous [] rest := by
  induction text with
  | nil => rfl
  | cons c text ih =>
    obtain ⟨mark, marks⟩ := forall_mem_cons.1 marks
    rw [cons_append, splitFrom_mark mark, splitFrom_nil_word previous, ih marks]
    rfl

theorem splitFrom_end (marks : ∀ c ∈ text, isMark c = true) :
    splitFrom previous word text = flush word [] := by
  cases text with
  | nil => rfl
  | cons c text =>
    obtain ⟨mark, marks⟩ := forall_mem_cons.1 marks
    rw [splitFrom_mark mark, ← append_nil text, splitFrom_marks marks]
    rfl

theorem splitFrom_next (letter : isAlphanumeric c = true)
    (inside : word = [] ∨ startsWord previous c rest.head? = false) :
    splitFrom previous word (c :: rest) = splitFrom c (word ++ lower c) rest := by
  have stays : ¬(!word.isEmpty && startsWord previous c rest.head?) = true := by
    rcases inside with rfl | inside
    · simp
    · simp [inside]
  rw [splitFrom, if_neg (by simp [letter]), if_neg stays]

theorem splitFrom_goesOn (on : ∀ c ∈ text, GoesOn c) :
    splitFrom previous word (text ++ rest) = splitFrom (text.getLastD previous) (word ++ text) rest := by
  induction text generalizing previous word with
  | nil => simp
  | cons c text ih =>
    obtain ⟨⟨letter, small, own, _⟩, on⟩ := forall_mem_cons.1 on
    rw [cons_append, splitFrom_next letter (.inr (by simp [startsWord, small])), own, ih on,
      append_assoc, singleton_append, getLastD_cons]

/-- A capital behind a small letter or a digit starts a word. -/
theorem splitFrom_capital {capital : Char} (isCapital : IsCapital capital c) (on : GoesOn previous)
    (started : word ≠ []) :
    splitFrom previous word (capital :: rest) = word :: splitFrom capital [c] rest := by
  obtain ⟨letter, upper, _, own⟩ := isCapital
  have starts : startsWord previous capital rest.head? = true := by
    rw [startsWord, upper, on.2.2.2]
    rfl
  rw [splitFrom, if_neg (by simp [letter]), if_pos (by simpa [starts] using started), own]

theorem goesOn_getLastD (on : ∀ c ∈ text, GoesOn c) (nonempty : text ≠ []) :
    GoesOn (text.getLastD c) := by
  rw [getLastD_eq_getLast?, getLast?_eq_some_getLast nonempty]
  exact on _ (getLast_mem nonempty)

theorem splitFrom_humps (all : ∀ word ∈ words, IsWord word) (on : GoesOn previous) (started : word ≠ [])
    (marks : ∀ c ∈ text, isMark c = true) :
    splitFrom previous word (words.flatMap capitalized ++ text) = word :: words := by
  induction words generalizing previous word with
  | nil =>
    rw [flatMap_nil, nil_append, splitFrom_end marks, flush, if_neg (by simpa using started)]
  | cons next words ih =>
    obtain ⟨isWord, others⟩ := forall_mem_cons.1 all
    obtain ⟨c, rest, rfl, small, nonempty⟩ := isWord.exists_cons
    have inner := (forall_mem_cons.1 isWord.goesOn).2
    rw [flatMap_cons, capitalized, append_assoc, cons_append,
      splitFrom_capital (of_isAsciiLower small).2 on started, splitFrom_goesOn inner]
    exact congrArg (word :: ·) (ih others (goesOn_getLastD inner nonempty) (cons_ne_nil _ _))

/-- Capitals go on with a word, unless a small letter follows them. -/
theorem splitFrom_shouted (previous : Char) (small : ∀ c ∈ text, isAsciiLower c = true)
    (inside : word = [] ∨ (isLowercase previous || isAsciiDigit previous) = false)
    (behind : rest.head?.any isLowercase = false) :
    ∃ last, splitFrom previous word (text.map Char.toUpper ++ rest) = splitFrom last (word ++ text) rest := by
  induction text generalizing previous word with
  | nil => exact ⟨previous, by simp⟩
  | cons c text ih =>
    obtain ⟨first, small⟩ := forall_mem_cons.1 small
    obtain ⟨letter, upper, capital, own⟩ := (of_isAsciiLower first).2
    have next : (text.map Char.toUpper ++ rest).head?.any isLowercase = false := by
      cases text with
      | nil => exact behind
      | cons d text =>
        have second := (of_isAsciiLower (small d (.head _))).2.2.2.1
        simpa using (Bool.or_eq_false_iff.1 second).1
    have inner : word ++ [c] = [] ∨ (isLowercase c.toUpper || isAsciiDigit c.toUpper) = false := .inr capital
    obtain ⟨last, reads⟩ := ih c.toUpper small inner
    refine ⟨last, ?_⟩
    rw [map_cons, cons_append, splitFrom_next letter, own, reads, append_assoc, singleton_append]
    exact inside.imp_right fun outside => by rw [startsWord, outside, next]; simp

/-- A word that stands in a given shape between marks is read as it is. -/
def Stands (shape : List Char → List Char) (word : List Char) : Prop :=
  ∀ previous rest, rest.head?.any isLowercase = false →
    ∃ last, splitFrom previous [] (shape word ++ rest) = splitFrom last word rest

theorem stands_plain (on : ∀ c ∈ word, GoesOn c) : Stands id word := fun _ _ _ => ⟨_, splitFrom_goesOn on⟩

theorem stands_shouted (isWord : IsWord word) : Stands (·.map Char.toUpper) word := by
  intro previous rest behind
  obtain ⟨letters, digits, rfl, _, small, digit⟩ := isWord.split
  have same : digits.map Char.toUpper = digits :=
    map_congr_left (fun c mem => (of_isAsciiDigit (digit c mem)).2.2) |>.trans (map_id _)
  have middle : (digits ++ rest).head?.any isLowercase = false := by
    cases digits with
    | nil => exact behind
    | cons d digits => exact (of_isAsciiDigit (digit d (.head _))).2.1
  obtain ⟨last, reads⟩ := splitFrom_shouted previous small (.inl rfl) middle
  refine ⟨digits.getLastD last, ?_⟩
  beta_reduce
  rw [map_append, same, append_assoc, reads,
    splitFrom_goesOn fun c mem => (of_isAsciiDigit (digit c mem)).1]
  rfl

theorem not_isLowercase (mark : isMark c = true) : isLowercase c = false := by
  rw [isMark, Bool.and_eq_true] at mark
  simpa using mark.2

theorem splitFrom_separated (previous : Char) {shape : List Char → List Char} {sep : Char}
    (cut : isMark sep = true) (nonempty : [] ∉ words) (stands : ∀ word ∈ words, Stands shape word)
    (marks : ∀ c ∈ text, isMark c = true) :
    splitFrom previous [] ([sep].intercalate (words.map shape) ++ text) = words := by
  induction words generalizing previous with
  | nil => exact splitFrom_end marks
  | cons word words ih =>
    obtain ⟨first, others⟩ := forall_mem_cons.1 stands
    rw [mem_cons, not_or] at nonempty
    have kept (others : List (List Char)) : flush word others = word :: others :=
      if_neg (by simpa using Ne.symm nonempty.1)
    cases words with
    | nil =>
      have behind : text.head?.any isLowercase = false := by
        cases text with
        | nil => rfl
        | cons c text => exact not_isLowercase (marks c (.head _))
      obtain ⟨last, reads⟩ := first previous text behind
      rw [map_singleton, intercalate_singleton, reads, splitFrom_end marks, kept]
    | cons next words =>
      obtain ⟨last, reads⟩ := first previous
        (sep :: ([sep].intercalate ((next :: words).map shape) ++ text)) (not_isLowercase cut)
      have step := ih sep nonempty.2 others
      rw [map_cons] at reads step
      rw [map_cons, map_cons, intercalate_cons_cons, append_assoc, append_assoc,
        singleton_append, reads, splitFrom_mark cut, kept, step]

theorem splitFrom_spell (style : Style) (all : ∀ word ∈ words, IsWord word)
    (marks : ∀ c ∈ text, isMark c = true) : splitFrom previous [] (style.spell words ++ text) = words := by
  have nonempty : [] ∉ words := fun mem => by simpa using (all [] mem).1
  have plain {sep : Char} (cut : isMark sep = true) :
      splitFrom previous [] ([sep].intercalate words ++ text) = words := by
    simpa using splitFrom_separated previous cut nonempty
      (fun word mem => stands_plain (all word mem).goesOn) marks
  cases style with
  | camel =>
    cases words with
    | nil => exact splitFrom_end marks
    | cons word words =>
      obtain ⟨isWord, others⟩ := forall_mem_cons.1 all
      obtain ⟨c, rest, rfl, _⟩ := isWord.exists_cons
      have nonempty := cons_ne_nil c rest
      rw [Style.spell, head?_cons, Option.getD_some, tail_cons, append_assoc,
        splitFrom_goesOn isWord.goesOn]
      exact splitFrom_humps others (goesOn_getLastD isWord.goesOn nonempty) nonempty marks
  | pascal =>
    cases words with
    | nil => exact splitFrom_end marks
    | cons word words =>
      obtain ⟨isWord, others⟩ := forall_mem_cons.1 all
      obtain ⟨c, rest, rfl, small, nonempty⟩ := isWord.exists_cons
      have inner := (forall_mem_cons.1 isWord.goesOn).2
      obtain ⟨letter, _, _, own⟩ := (of_isAsciiLower small).2
      rw [Style.spell, flatMap_cons, capitalized, append_assoc, cons_append,
        splitFrom_next letter (.inl rfl), own, splitFrom_goesOn inner]
      exact splitFrom_humps others (goesOn_getLastD inner nonempty) (cons_ne_nil _ _) marks
  | screaming =>
    exact splitFrom_separated _ (by decide) nonempty (fun word mem => stands_shouted (all word mem)) marks
  | snake | kebab | dotted | spaced => exact plain (by decide)

/-- A name has the same canonical form in every style, and marks around it do not change that. -/
theorem normalize_style (style : Style) {words : List (List Char)} (all : ∀ word ∈ words, IsWord word)
    {before after : List Char} (leading : ∀ c ∈ before, isMark c = true)
    (trailing : ∀ c ∈ after, isMark c = true) :
    normalize (String.ofList (before ++ style.spell words ++ after)) =
      String.intercalate " " (words.map String.ofList) := by
  rw [normalize, wordsOf, String.toList_ofList, append_assoc, splitFrom_marks leading,
    splitFrom_spell style all trailing]

/-- A private name in camel case with a digit. -/
theorem normalize_style_private : normalize "__homeAddress2Line!" = "home address2 line" :=
  @normalize_style .camel ["home".toList, "address2".toList, "line".toList] (by decide) ['_', '_'] ['!']
    (all_eq_true.1 rfl) (all_eq_true.1 rfl)

/-- A character of a canonical word. -/
def isSmall (c : Char) : Bool := isAsciiLower c || isAsciiDigit c

/-- Words of small letters and digits, none of them empty. -/
def Canonical (words : List (List Char)) : Prop := ∀ word ∈ words, word ≠ [] ∧ ∀ c ∈ word, isSmall c = true

theorem of_ascii (ascii : c.toNat < 128) : isAlphanumeric c = c.isAlphanum ∧
    (c.isAlphanum = true → lower c = [c.toLower] ∧ isSmall c.toLower = true) := by
  obtain ⟨n, rfl⟩ := eq_ofNat 128 (Nat.zero_le _) (by omega)
  revert n
  decide

theorem canonical_flush (small : ∀ c ∈ word, isSmall c = true) (others : Canonical words) :
    Canonical (flush word words) ∧ (flush word words).flatten = word ++ words.flatten := by
  cases word with
  | nil => exact ⟨others, rfl⟩
  | cons c word => exact ⟨forall_mem_cons.2 ⟨⟨cons_ne_nil c word, small⟩, others⟩, rfl⟩

/-- The words of an ASCII name spell its letters and digits in order. -/
theorem canonical_splitFrom (previous : Char) (ascii : ∀ c ∈ text, c.toNat < 128)
    (small : ∀ c ∈ word, isSmall c = true) : Canonical (splitFrom previous word text) ∧
      (splitFrom previous word text).flatten = word ++ (text.filter Char.isAlphanum).map Char.toLower := by
  induction text generalizing previous word with
  | nil => exact canonical_flush small (forall_mem_nil _)
  | cons c text ih =>
    obtain ⟨first, ascii⟩ := forall_mem_cons.1 ascii
    obtain ⟨same, letter⟩ := of_ascii first
    rw [splitFrom, same]
    split
    · rename_i mark
      obtain ⟨others, spelt⟩ := ih c ascii (forall_mem_nil _)
      obtain ⟨canonical, flat⟩ := canonical_flush small others
      exact ⟨canonical, by rw [flat, spelt, filter_cons_of_neg (by simpa using mark), nil_append]⟩
    rename_i part
    have isLetter : c.isAlphanum = true := by simpa using part
    obtain ⟨own, lowered⟩ := letter isLetter
    have single : ∀ d ∈ [c.toLower], isSmall d = true := by simpa using lowered
    rw [own, filter_cons_of_pos isLetter, map_cons]
    split
    · rename_i starts
      obtain ⟨others, spelt⟩ := ih c ascii single
      have nonempty : word ≠ [] := by simpa using (Bool.and_eq_true_iff.1 starts).1
      exact ⟨forall_mem_cons.2 ⟨⟨nonempty, small⟩, others⟩, by rw [flatten_cons, spelt]; rfl⟩
    · obtain ⟨canonical, spelt⟩ := ih c ascii (forall_mem_append.2 ⟨small, single⟩)
      exact ⟨canonical, by rw [spelt, append_assoc]; rfl⟩

theorem filter_intercalate (canonical : Canonical words) :
    ([' '].intercalate words).filter (· != ' ') = words.flatten := by
  induction words with
  | nil => rfl
  | cons word words ih =>
    obtain ⟨⟨_, small⟩, others⟩ := forall_mem_cons.1 canonical
    have kept : word.filter (· != ' ') = word := filter_eq_self.2 fun c mem =>
      bne_iff_ne.2 fun space => absurd (space ▸ small c mem) (by decide)
    cases words with
    | nil => simpa using kept
    | cons next words =>
      rw [intercalate_cons_cons, append_assoc, filter_append, kept, filter_append, ih others]
      rfl

theorem splitFrom_canonical (canonical : Canonical words) :
    splitFrom previous [] ([' '].intercalate words) = words := by
  have stands : ∀ word ∈ words, Stands id word := fun word mem => stands_plain fun c inWord =>
    (Bool.or_eq_true_iff.1 ((canonical word mem).2 c inWord)).elim
      (fun letter => (of_isAsciiLower letter).1) fun digit => (of_isAsciiDigit digit).1
  simpa using splitFrom_separated previous (by decide : isMark ' ' = true)
    (fun empty => (canonical [] empty).1 rfl) stands (forall_mem_nil _)

/-- In the canonical form of an ASCII name single spaces stand between the words, no letter or digit is lost,
and a second normalization changes nothing. -/
theorem normalize_canonical {name : String} (ascii : ∀ c ∈ name.toList, c.toNat < 128) :
    (∃ words, Canonical words ∧ (normalize name).toList = [' '].intercalate words) ∧
      (normalize name).toList.filter (· != ' ') = (name.toList.filter Char.isAlphanum).map Char.toLower ∧
      normalize (normalize name) = normalize name := by
  obtain ⟨canonical, spelt⟩ : Canonical (wordsOf name) ∧ (wordsOf name).flatten = _ :=
    canonical_splitFrom ' ' ascii (forall_mem_nil _)
  have text : (normalize name).toList = [' '].intercalate (wordsOf name) := by simp [normalize]
  refine ⟨⟨_, canonical, text⟩, ?_, ?_⟩
  · rw [text, filter_intercalate canonical, spelt, nil_append]
  · rw [normalize, wordsOf, text, splitFrom_canonical canonical, normalize]

theorem normalize_canonical_url :
    (∀ c ∈ "_homeURL2 Path".toList, c.toNat < 128) ∧
      normalize (normalize "_homeURL2 Path") = normalize "_homeURL2 Path" := by
  have ascii : ∀ c ∈ "_homeURL2 Path".toList, c.toNat < 128 := by simp
  exact ⟨ascii, (normalize_canonical ascii).2.2⟩

end LeakTrace.FieldName
