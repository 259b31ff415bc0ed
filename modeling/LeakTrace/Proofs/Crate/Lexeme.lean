import LeakTrace.Proofs.Suppression
import LeakTrace.Source
import Mathlib.Data.Bool.AllAny

namespace LeakTrace.Crate

open List

variable {rest cs : List Char} {previous c : Char}

/-- The characters that never stand for themselves in code: brackets and quotes. -/
def special : List Char := ['(', ')', '[', ']', '\x7b', '\x7d', '"', '\'']

/-- What makes an `r` before it the start of a raw string. -/
def RawAhead (cs : List Char) : Prop := ∃ marks, List.replicate marks '#' ++ ['"'] <+: cs

/-- A block comment after its opening, up to and with its own end. -/
inductive Closes : List Char → Prop
  | done : Closes ['*', '/']
  | char {c : Char} {rest : List Char} :
      ¬['/', '*'] <+: c :: rest → ¬['*', '/'] <+: c :: rest → Closes rest → Closes (c :: rest)
  | nested {inner rest : List Char} : Closes inner → Closes rest → Closes ('/' :: '*' :: inner ++ rest)

/-- What stands between the quotes of a string: quotes and backslashes are escaped. -/
inductive Quoted : List Char → Prop
  | nil : Quoted []
  | plain {c : Char} {rest : List Char} : c ≠ '"' → c ≠ '\\' → Quoted rest → Quoted (c :: rest)
  | escape {c : Char} {rest : List Char} : Quoted rest → Quoted ('\\' :: c :: rest)

def Quoting.sign : Quoting → List Char
  | .text => []
  | .bytes => ['b']
  | .foreign => ['c']

def Delimiter.left : Delimiter → Char
  | .paren => '('
  | .bracket => '['
  | .brace => '\x7b'

def Delimiter.right : Delimiter → Char
  | .paren => ')'
  | .bracket => ']'
  | .brace => '\x7d'

/-- The pieces of a text. A `block` holds all of the comment after its opening, and a line comment may
only go without its line feed at the end of the text. -/
inductive Lexeme where
  | opening (delimiter : Delimiter)
  | closing (delimiter : Delimiter)
  | code (c : Char)
  | line (body : List Char) (ended : Bool)
  | block (body : List Char)
  | string (quoting : Quoting) (body : List Char)
  | raw (quoting : Quoting) (marks : Nat) (body : List Char)
  | character (byte : Bool) (body : List Char)
  | lifetime (name : List Char)

namespace Lexeme

def text : Lexeme → List Char
  | opening delimiter => [delimiter.left]
  | closing delimiter => [delimiter.right]
  | code c => [c]
  | line body ended => '/' :: '/' :: body ++ if ended then ['\n'] else []
  | block body => '/' :: '*' :: body
  | string quoting body => quoting.sign ++ '"' :: body ++ ['"']
  | raw quoting marks body => quoting.sign ++ 'r' :: List.replicate marks '#' ++ '"' :: body ++
      '"' :: List.replicate marks '#'
  | character byte body => (if byte then ['b'] else []) ++ '\'' :: body ++ ['\'']
  | lifetime name => '\'' :: name

/-- Whether a piece ends with a character of a name, `b` apart: an `r` behind it starts no raw string. -/
def endsName : Lexeme → Bool
  | code c => Nesting.continuesName c
  | lifetime name => name.getLast?.any Nesting.continuesName
  | _ => false

/-- Whether a piece is well formed and can stand before the text that follows, and after a name or not. -/
def Fits (named : Bool) (following : List Char) : Lexeme → Prop
  | opening _ | closing _ => True
  | code c => c ∉ special ∧ (c = '/' → ¬['/'] <+: following ∧ ¬['*'] <+: following) ∧
      (c = 'r' → named = true ∨ ¬RawAhead following)
  | line body ended => '\n' ∉ body ∧ (ended = true ∨ following = [])
  | block body => Closes body
  | string _ body => Quoted body
  | raw quoting marks body => ¬ '"' :: replicate marks '#' <:+: body ∧ (quoting = .text → named = false)
  | character _ body => (∃ c, c ≠ '\\' ∧ body = [c]) ∨ ∃ c rest, '\'' ∉ rest ∧ body = '\\' :: c :: rest
  | lifetime name => name ≠ [] ∧ (∀ c ∈ name, isNamePart c = true) ∧
      (name.length = 1 → ¬['\''] <+: following) ∧ (name.getLast? = some 'r' → ¬RawAhead following)

/-- Pieces that stand one after the other as what they are. -/
def Joined : (named : Bool) → List Lexeme → Prop
  | _, [] => True
  | named, piece :: rest => piece.Fits named (rest.flatMap text) ∧ Joined piece.endsName rest

/-- The number of open brackets after the piece. -/
def level (depth : Nat) : Lexeme → Nat
  | opening _ => depth + 1
  | closing _ => depth - 1
  | _ => depth

end Lexeme

namespace Nesting

section

variable {body : List Char} {marks : Nat}

theorem afterBlock_closes (closes : Closes body) (opened : Nat) (rest : List Char) :
    afterBlock (opened + 1) (body ++ rest) = afterBlock opened rest := by
  induction closes generalizing opened rest with
  | done => rw [cons_append, cons_append, afterBlock]; rfl
  | @char c body noOpen noEnd closes ih =>
    obtain ⟨d, more, rfl⟩ : ∃ d more, body = d :: more := by cases closes <;> exact ⟨_, _, rfl⟩
    rw [cons_append, cons_append, afterBlock, ← cons_append, ih]
    · rintro _ rfl same
      cases same
      exact noOpen ⟨more, rfl⟩
    · rintro _ rfl same
      cases same
      exact noEnd ⟨more, rfl⟩
  | nested _ _ inner outer =>
    rw [cons_append, cons_append, cons_append, cons_append, append_assoc, afterBlock,
      inner, outer]

theorem afterString_quoted (quoted : Quoted body) (rest : List Char) :
    afterString (body ++ '"' :: rest) = rest := by
  induction quoted with
  | nil => rfl
  | plain quote slash _ ih => simp [afterString, slash, ih]
  | escape _ ih => rw [cons_append, cons_append, afterString, ih]

theorem prefix_of_replicate {body : List Char}
    (starts : List.replicate marks '#' <+: body ++ '"' :: rest) : replicate marks '#' <+: body := by
  induction marks generalizing body with
  | zero => exact nil_prefix
  | succ marks ih =>
    cases body with
    | nil => cases (cons_prefix_cons.1 starts).1
    | cons c body =>
      obtain ⟨same, starts⟩ := cons_prefix_cons.1 starts
      exact cons_prefix_cons.2 ⟨same, ih starts⟩

theorem afterRaw_append (free : ¬ '"' :: List.replicate marks '#' <:+: body) (rest : List Char) :
    afterRaw (List.replicate marks '#') (body ++ '"' :: (replicate marks '#' ++ rest)) = rest := by
  induction body with
  | nil => rw [nil_append, afterRaw, Text.after?_eq_some_iff.2 rfl]
  | cons c body ih =>
    have later := ih fun inside => free (inside.trans (suffix_cons c body).isInfix)
    by_cases quote : c = '"'
    · subst quote
      have absent : Text.after? (List.replicate marks '#')
          (body ++ '"' :: (replicate marks '#' ++ rest)) = none := by
        cases found : Text.after? _ _ with
        | none => rfl
        | some more =>
          have starts := prefix_of_replicate ⟨more, (Text.after?_eq_some_iff.1 found).symm⟩
          exact absurd (cons_prefix_cons.2 ⟨rfl, starts⟩).isInfix free
      rw [cons_append, afterRaw, absent]
      exact later
    · simpa [afterRaw, quote] using later

theorem raw?_eq_none (none : ¬RawAhead cs) : raw? cs = Option.none := by
  unfold raw?
  dsimp only
  split
  · rename_i rest found
    have marks : cs.takeWhile (· == '#') = replicate (cs.takeWhile (· == '#')).length '#' :=
      eq_replicate_iff.2 ⟨rfl, fun c mem => by simpa using mem_takeWhile_imp mem⟩
    refine (none ⟨(cs.takeWhile (· == '#')).length, rest, ?_⟩).elim
    rw [← marks, append_assoc, singleton_append, ← found]
    exact prefix_iff_eq_append.1 <| takeWhile_prefix _
  · rfl

theorem raw?_append (marks : Nat) (rest : List Char) :
    raw? (replicate marks '#' ++ '"' :: rest) = some (afterRaw (List.replicate marks '#') rest) := by
  have taken : (List.replicate marks '#' ++ '"' :: rest).takeWhile (· == '#') = replicate marks '#' := by
    simp
  unfold raw?
  simp [taken]

/-- The scan goes on from one place to a later one and counts no brackets between them. -/
def Passes (previous : Char) (cs : List Char) (next : Char) (rest : List Char) : Prop :=
  ∃ steps, steps + rest.length ≤ cs.length ∧ ∀ fuel depth most,
    deepest (fuel + steps) previous cs depth most = deepest fuel next rest depth most

theorem Passes.trans {middle next : Char} {more : List Char} (first : Passes previous cs middle more)
    (second : Passes middle more next rest) : Passes previous cs next rest := by
  obtain ⟨m, shorter, first⟩ := first
  obtain ⟨n, short, second⟩ := second
  refine ⟨n + m, by omega, fun fuel depth most => ?_⟩
  rw [← Nat.add_assoc, first, second]

theorem passes_code (plain : c ∉ special) (slash : c = '/' → ¬['/'] <+: rest ∧ ¬['*'] <+: rest)
    (raw : c = 'r' → continuesName previous = true ∨ ¬RawAhead rest) : Passes previous (c :: rest) c rest := by
  refine ⟨1, by simp [Nat.add_comm], fun fuel depth most => ?_⟩
  rw [deepest]
  · simp only [special, mem_cons, not_mem_nil, or_false, not_or] at plain
    by_cases letter : c = 'r'
    · subst letter
      rcases raw rfl with named | none
      · simp [named]
      · simp [raw?_eq_none none]
    · simp [plain, letter]
  · rintro more rfl rfl
    exact (slash rfl).1 ⟨more, rfl⟩
  · rintro more rfl rfl
    exact (slash rfl).2 ⟨more, rfl⟩
  all_goals
    rintro rfl
    exact plain (by decide)

theorem passes_word {word : List Char} (plain : ∀ c ∈ word, c ∉ special ∧ c ≠ '/')
    (raw : ∀ before after, word = before ++ 'r' :: after → ¬RawAhead (after ++ rest)) (previous : Char) :
    Passes previous (word ++ rest) (word.getLastD previous) rest := by
  induction word generalizing previous with
  | nil => exact ⟨0, by simp, fun _ _ _ => rfl⟩
  | cons c word ih =>
    obtain ⟨⟨plain, slash⟩, others⟩ := forall_mem_cons.1 plain
    have later := ih others (fun before after split => raw (c :: before) after (congrArg (c :: ·) split)) c
    have first : Passes previous (c :: (word ++ rest)) c (word ++ rest) :=
      passes_code plain (fun same => absurd same slash) (fun same => .inr (raw [] word (same ▸ rfl)))
    rw [getLastD_cons]
    exact first.trans later

theorem passes_plain (word : List Char) (plain : ∀ c ∈ word, c ∉ 'r' :: '/' :: special) (previous : Char)
    (rest : List Char) : Passes previous (word ++ rest) (word.getLastD previous) rest := by
  refine passes_word (fun c mem => ?_) (fun before after split => ?_) previous
  · have apart := plain c mem
    simp only [mem_cons, not_or] at apart
    exact ⟨apart.2.2, apart.2.1⟩
  · exact absurd (.head _) (plain 'r' (split ▸ by simp))

theorem passes_marks (marks : Nat) (previous : Char) (rest : List Char) :
    Passes previous (replicate marks '#' ++ rest) ((replicate marks '#').getLastD previous) rest := by
  refine passes_plain _ (fun c mem => ?_) previous rest
  cases eq_of_mem_replicate mem
  decide

theorem passes_string (quoted : Quoted body) (previous : Char) (rest : List Char) :
    Passes previous ('"' :: (body ++ '"' :: rest)) '"' rest := by
  refine ⟨1, by simp; omega, fun fuel depth most => ?_⟩
  rw [deepest, afterString_quoted quoted]

theorem passes_raw (unnamed : continuesName previous = false)
    (free : ¬ '"' :: replicate marks '#' <:+: body) (rest : List Char) :
    Passes previous ('r' :: (replicate marks '#' ++
      '"' :: (body ++ '"' :: (replicate marks '#' ++ rest)))) '"' rest := by
  refine ⟨1, by simp; omega, fun fuel depth most => ?_⟩
  rw [deepest]
  · simp [unnamed, raw?_append, afterRaw_append free]
  all_goals simp

end

variable {name : List Char} {piece : Lexeme} {fuel depth most : Nat} {pieces : List Lexeme}

theorem passes_quote (after : afterQuote cs = rest) (shorter : rest.length ≤ cs.length)
    (previous : Char) : Passes previous ('\'' :: cs) '\'' rest :=
  ⟨1, by simp; omega, fun fuel depth most => by rw [deepest, after]⟩

theorem passes_line {body : List Char} (whole : '\n' ∉ body) (ending : rest.dropWhile (· != '\n') = rest)
    (previous : Char) : Passes previous ('/' :: '/' :: (body ++ rest)) '/' rest := by
  have apart : ∀ c ∈ body, (c != '\n') = true := by
    intro c mem
    rw [bne_iff_ne]
    rintro rfl
    exact whole mem
  refine ⟨1, by simp; omega, fun fuel depth most => ?_⟩
  rw [deepest, dropWhile_append_of_pos apart, ending]

theorem head_of_rawAhead (ahead : RawAhead (c :: cs)) : c = '#' ∨ c = '"' := by
  obtain ⟨marks, starts⟩ := ahead
  cases marks with
  | zero => exact .inr (cons_prefix_cons.1 starts).1.symm
  | succ marks => exact .inl (cons_prefix_cons.1 starts).1.symm

theorem not_mem_of_isNamePart (part : isNamePart c = true) : c ∉ '\\' :: '#' :: '/' :: special := by
  have other : ∀ c ∈ '\\' :: '#' :: '/' :: special, isNamePart c = false :=
    all_iff_forall_prop.1 (by decide +kernel)
  intro mem
  cases (other c mem).symm.trans part

theorem passes_name (parts : ∀ c ∈ name, isNamePart c = true)
    (last : name.getLast? = some 'r' → ¬RawAhead rest) (previous : Char) :
    Passes previous (name ++ rest) (name.getLastD previous) rest := by
  refine passes_word (fun c mem => ?_) (fun before after split => ?_) previous
  · have apart := not_mem_of_isNamePart (parts c mem)
    simp only [mem_cons, not_or] at apart
    exact ⟨apart.2.2.2, apart.2.2.1⟩
  cases after with
  | nil => exact last (by simp [split])
  | cons c after =>
    intro ahead
    refine not_mem_of_isNamePart (parts c (split ▸ by simp)) ?_
    rcases head_of_rawAhead ahead with rfl | rfl <;> decide

theorem afterQuote_name (some : name ≠ []) (parts : ∀ c ∈ name, isNamePart c = true)
    (single : name.length = 1 → ¬['\''] <+: rest) : afterQuote (name ++ rest) = name ++ rest := by
  obtain ⟨first, name, rfl⟩ := exists_cons_of_ne_nil some
  refine afterQuote.eq_3 _ ?_ ?_
  · rintro more same
    cases same
    exact not_mem_of_isNamePart (parts '\\' (.head _)) (by decide)
  rintro c more same
  cases name with
  | nil =>
    cases same
    exact single rfl ⟨more, rfl⟩
  | cons d name =>
    cases same
    exact not_mem_of_isNamePart (parts '\'' (by simp)) (by decide)

theorem passes_piece (fits : piece.Fits (continuesName previous) rest)
    (foreign : ∀ marks body, piece = .raw .foreign marks body → Quoted body)
    (same : ∀ depth, piece.level depth = depth) :
    ∃ next, Passes previous (piece.text ++ rest) next rest ∧ continuesName next = piece.endsName := by
  cases piece with
  | opening => cases same 0
  | closing => cases same 1
  | code c => exact ⟨c, passes_code fits.1 fits.2.1 fits.2.2, rfl⟩
  | line body ended =>
    obtain ⟨whole, last⟩ := fits
    cases ended with
    | true =>
      have feed := passes_plain ['\n'] (all_iff_forall_prop.1 (by decide)) '/' rest
      refine ⟨'\n', ?_, rfl⟩
      simpa [Lexeme.text] using (passes_line whole (by rfl) previous).trans feed
    | false =>
      obtain rfl := last.resolve_left (by decide)
      exact ⟨'/', by simpa [Lexeme.text] using @passes_line [] body whole rfl previous, rfl⟩
  | block body =>
    refine ⟨'/', ⟨1, by simp [Lexeme.text]; omega, fun fuel depth most => ?_⟩, rfl⟩
    rw [Lexeme.text, cons_append, cons_append, deepest, afterBlock_closes fits, afterBlock]
  | string quoting body =>
    have sign := passes_plain quoting.sign (by cases quoting <;> exact all_iff_forall_prop.1 (by decide))
      previous
    refine ⟨'"', ?_, rfl⟩
    simpa [Lexeme.text] using (sign _).trans (passes_string fits _ rest)
  | raw quoting marks body =>
    cases quoting with
    | text => exact ⟨'"', by simpa [Lexeme.text, Quoting.sign] using passes_raw (fits.2 rfl) fits.1 rest, rfl⟩
    | bytes =>
      have sign := passes_plain ['b'] (all_iff_forall_prop.1 (by decide)) previous
      refine ⟨'"', ?_, rfl⟩
      simpa [Lexeme.text, Quoting.sign] using (sign _).trans (passes_raw (by rfl) fits.1 rest)
    | foreign =>
      have sign := passes_plain ['c'] (all_iff_forall_prop.1 (by decide)) previous
      have letter (rest : List Char) : Passes 'c' ('r' :: rest) 'r' rest :=
        passes_code (by decide) (by simp) fun _ => .inl (by decide)
      have quoted := passes_string (foreign marks body rfl)
      refine ⟨(List.replicate marks '#').getLastD '"', ?_, ?_⟩
      · simpa [Lexeme.text, Quoting.sign] using (sign _).trans ((letter _).trans ((passes_marks marks _ _).trans
          ((quoted _ _).trans (passes_marks marks _ rest))))
      · cases marks with
        | zero => rfl
        | succ marks => simp [replicate_succ', Lexeme.endsName]; decide
  | character byte body =>
    have sign := passes_plain (if byte then ['b'] else [])
      (by cases byte <;> exact all_iff_forall_prop.1 (by decide)) previous
    have passed : afterQuote (body ++ '\'' :: rest) = rest := by
      obtain ⟨c, plain, rfl⟩ | ⟨c, more, whole, rfl⟩ := fits
      · simp [afterQuote]
      have apart : ∀ d ∈ more, (d != '\'') = true := by
        intro d mem
        rw [bne_iff_ne]
        rintro rfl
        exact whole mem
      simp [afterQuote, dropWhile_append_of_pos apart]
    refine ⟨'\'', ?_, rfl⟩
    simpa [Lexeme.text] using (sign _).trans (passes_quote passed (by simp; omega) _)
  | lifetime name =>
    obtain ⟨some, parts, single, last⟩ := fits
    have quote := afterQuote_name some parts single
    refine ⟨name.getLastD '\'', (passes_quote quote le_rfl previous).trans (passes_name parts last _), ?_⟩
    rw [getLastD_eq_getLast?, Lexeme.endsName]
    cases name.getLast? <;> rfl

theorem deepest_piece (fits : piece.Fits (continuesName previous) rest)
    (foreign : ∀ marks body, piece = .raw .foreign marks body → Quoted body)
    (enough : (piece.text ++ rest).length < fuel) (below : depth ≤ most) :
    ∃ left next, rest.length < left ∧ continuesName next = piece.endsName ∧
      deepest fuel previous (piece.text ++ rest) depth most =
        deepest left next rest (piece.level depth) (max most (piece.level depth)) := by
  obtain ⟨fuel, rfl⟩ : ∃ left, fuel = left + 1 := ⟨fuel - 1, by omega⟩
  by_cases same : ∀ depth, piece.level depth = depth
  · obtain ⟨next, ⟨steps, shorter, passes⟩, ends⟩ := passes_piece fits foreign same
    refine ⟨fuel + 1 - steps, next, by omega, ends, ?_⟩
    rw [same, max_eq_left below, ← passes, Nat.sub_add_cancel (by omega)]
  cases piece with
  | opening delimiter =>
    refine ⟨fuel, delimiter.left, by simpa [Lexeme.text] using enough, by cases delimiter <;> rfl, ?_⟩
    cases delimiter <;> rfl
  | closing delimiter =>
    refine ⟨fuel, delimiter.right, by simpa [Lexeme.text] using enough, by cases delimiter <;> rfl, ?_⟩
    rw [Lexeme.level, max_eq_left (by omega)]
    cases delimiter <;> rfl
  | _ => exact absurd (fun _ => rfl) same

/-- The scan finds the greatest number of open brackets after any of the pieces. -/
theorem deepest_pieces (joined : Lexeme.Joined (continuesName previous) pieces)
    (foreign : ∀ marks body, .raw .foreign marks body ∈ pieces → Quoted body)
    (enough : (pieces.flatMap Lexeme.text).length < fuel) (below : depth ≤ most) :
    deepest fuel previous (pieces.flatMap Lexeme.text) depth most =
      (pieces.scanl Lexeme.level depth).foldl max most := by
  induction pieces generalizing previous fuel depth most with
  | nil =>
    obtain ⟨fuel, rfl⟩ : ∃ left, fuel = left + 1 := ⟨fuel - 1, by omega⟩
    simp [deepest, below]
  | cons piece pieces ih =>
    obtain ⟨fits, joined⟩ := joined
    obtain ⟨left, next, enough, ends, step⟩ := deepest_piece fits
      (fun marks body same => foreign marks body (same ▸ (.head _))) enough below
    rw [flatMap_cons, step, ih (ends ▸ joined)
      (fun marks body mem => foreign marks body (.tail _ mem)) enough (le_max_right _ _),
      scanl_cons, foldl_cons, max_eq_left below]
    cases pieces <;> simp

theorem max?_scanl (joined : Lexeme.Joined false pieces)
    (foreign : ∀ marks body, .raw .foreign marks body ∈ pieces → Quoted body) :
    (pieces.scanl Lexeme.level 0).max? = some (nesting (String.ofList (pieces.flatMap Lexeme.text))) := by
  have start : Lexeme.Joined (continuesName ' ') pieces := joined
  rw [nesting, String.toList_ofList, deepest_pieces start foreign (Nat.lt_succ_self _) le_rfl]
  cases pieces with
  | nil => rfl
  | cons => rw [scanl_cons, max?_cons', foldl_cons, max_self]

/-- The nesting of a text is the greatest number of brackets that are open at once, where only those count
that are pieces of their own: not those in comments, strings and characters. -/
theorem nesting_counts_brackets {pieces : List Lexeme} (joined : Lexeme.Joined false pieces)
    (native : ∀ marks body, .raw .foreign marks body ∉ pieces) :
    (pieces.scanl Lexeme.level 0).max? = some (nesting (String.ofList (pieces.flatMap Lexeme.text))) :=
  max?_scanl joined fun marks body member => absurd member (native marks body)

theorem nesting_counts_brackets_lifetime :
    let pieces := [Lexeme.code 'f', .opening .paren, .lifetime ['r'], .code ' ', .raw .bytes 1 ['"', '(', '\\'],
      .character false ['\\', '\''], .block "( /* \x7b */*/".toList, .line ['['] true, .opening .bracket,
      .closing .bracket, .closing .paren]
    pieces.flatMap Lexeme.text = "f('r br#\"\"(\\\"#'\\''/*( /* \x7b */*///[\n[])".toList ∧
      (pieces.scanl Lexeme.level 0).max? = some (nesting (String.ofList (pieces.flatMap Lexeme.text))) := by
  intro pieces
  have spaced : ¬RawAhead (' ' :: (pieces.drop 4).flatMap Lexeme.text) := by
    intro ahead
    cases head_of_rawAhead ahead <;> contradiction
  have inner : Closes " \x7b */".toList := .char (by decide) (by decide) (.char (by decide) (by decide)
    (.char (by decide) (by decide) .done))
  have block : Closes "( /* \x7b */*/".toList :=
    .char (by decide) (by decide) (.char (by decide) (by decide) (.nested inner .done))
  refine ⟨by decide, nesting_counts_brackets ?_ (by simp [pieces])⟩
  have plain {c : Char} {named : Bool} {cs : List Char} (other : c ∉ '/' :: 'r' :: special) :
      (Lexeme.code c).Fits named cs := by
    simp only [mem_cons, not_or] at other
    exact ⟨other.2.2, fun same => absurd same other.1, fun same => absurd same other.2.1⟩
  exact ⟨plain (by decide), trivial, ⟨by decide, by simp; decide, fun _ => by decide, fun _ => spaced⟩,
    plain (by decide),
    ⟨by decide, by decide⟩, .inr ⟨'\'', [], by decide, rfl⟩, block, ⟨by decide, .inl rfl⟩, trivial, trivial,
    trivial, trivial⟩

/-- A text whose brackets nest deeper than allowed is not read, provided that what stands in its raw C
strings could stand in other strings as well. -/
theorem deep_text_refused {pieces : List Lexeme} (joined : Lexeme.Joined false pieces)
    (foreign : ∀ marks body, .raw .foreign marks body ∈ pieces → Quoted body) {depth : Nat}
    (reached : depth ∈ pieces.scanl Lexeme.level 0) :
    let source := String.ofList (pieces.flatMap Lexeme.text)
    depth ≤ nesting source ∧ ∀ file limit, limit < depth →
      Source.tree .rust file source limit = .error (.depthExceeded limit) := by
  intro source
  have bounded : depth ≤ nesting source := (max?_eq_some_iff.1 (max?_scanl joined foreign)).2 depth reached
  exact ⟨bounded, fun file limit below => if_pos (below.trans_le bounded)⟩

theorem deep_text_refused_foreign :
    let pieces := [Lexeme.raw .foreign 1 ['\\', '"'], .opening .brace, .opening .paren]
    let source := String.ofList (pieces.flatMap Lexeme.text)
    source = "cr#\"\\\"\"#\x7b(" ∧ 2 ≤ nesting source ∧ ∀ file limit, limit < 2 →
      Source.tree .rust file source limit = .error (.depthExceeded limit) := by
  intro pieces source
  refine ⟨by decide, deep_text_refused ?_ ?_ (by decide)⟩
  · exact ⟨⟨by decide, by decide⟩, trivial, trivial, trivial⟩
  · intro marks body member
    simp only [pieces, mem_cons, Lexeme.raw.injEq, reduceCtorEq, not_mem_nil, or_false] at member
    rw [member.2.2]
    exact .escape .nil

end Nesting

end LeakTrace.Crate
