import LeakTrace.Proofs.Suppression
import LeakTrace.Report.WorkflowCommand
import Mathlib.Data.Bool.AllAny

namespace LeakTrace

open List Option

namespace Text

theorem find?_of_not_mem {first : Char} {before : List Char} (absent : first ∉ before)
    (needle rest : List Char) :
    find? (first :: needle) (before ++ first :: (needle ++ rest)) = some (before, rest) := by
  induction before with
  | nil => rw [nil_append, find?, after?_eq_some_iff.2 (cons_append ..).symm]
  | cons c before ih =>
    rw [mem_cons, not_or] at absent
    rw [cons_append, find?, after?, if_neg absent.1, ih absent.2]
    rfl

theorem dropReturn_eq_self {line : List Char} (kept : '\r' ∉ line) : dropReturn line = line := by
  unfold dropReturn
  split
  · rename_i rest reversed
    exact absurd (mem_reverse.1 (reversed ▸ (.head _))) kept
  · rfl

variable {ls : List (List Char)}

theorem lines_intercalate (nonempty : [] ∉ ls) (plain : ∀ line ∈ ls, '\n' ∉ line ∧ '\r' ∉ line) :
    lines (['\n'].intercalate ls) = ls := by
  induction ls with
  | nil => simp [lines]
  | cons line rest ih =>
    obtain ⟨⟨whole, kept⟩, plain⟩ := forall_mem_cons.1 plain
    rw [mem_cons, not_or] at nonempty
    have apart : ∀ c ∈ line, (c != '\n') = true := fun c mem =>
      bne_iff_ne.2 (ne_of_mem_of_not_mem mem whole)
    cases rest with
    | nil =>
      rw [intercalate_singleton, lines_of_none (dropWhile_eq_nil_iff.2 apart), if_neg]
      exact fun empty => nonempty.1 (isEmpty_iff.1 empty).symm
    | cons next rest =>
      rw [intercalate_cons_cons, append_assoc, singleton_append,
        lines_of_some (dropWhile_append_of_pos apart), takeWhile_append_of_pos apart,
        ih nonempty.2 plain]
      simp [dropReturn_eq_self kept]

theorem mem_intercalate {sep c : Char} (mem : c ∈ [sep].intercalate ls) :
    c = sep ∨ ∃ line ∈ ls, c ∈ line := by
  induction ls with
  | nil => simp at mem
  | cons line rest ih =>
    cases rest with
    | nil => exact .inr ⟨line, by simpa using mem⟩
    | cons next rest =>
      rw [intercalate_cons_cons, append_assoc, mem_append, singleton_append,
        mem_cons] at mem
      rcases mem with mem | same | mem
      · exact .inr ⟨line, .head _, mem⟩
      · exact .inl same
      · refine (ih mem).imp_right ?_
        rintro ⟨other, among, mem⟩
        exact ⟨other, mem_cons_of_mem _ among, mem⟩

theorem ofDigitChars_toString (n : Nat) : Nat.ofDigitChars 10 (toString n).toList 0 = n := by
  rw [Nat.toString_eq_repr, Nat.toList_repr, Nat.ofDigitChars_ten_toDigits]

end Text

namespace WorkflowCommand

open Text

/-- A character of a message, which is a single line. -/
def messageChar (c : Char) : List Char :=
  match c with
  | '%' => ['%', '2', '5']
  | '\r' => ['%', '0', 'D']
  | '\n' => ['%', '0', 'A']
  | c => [c]

/-- A character of a property, which ends at a comma or a colon. -/
def propertyChar (c : Char) : List Char :=
  match c with
  | ':' => ['%', '3', 'A']
  | ',' => ['%', '2', 'C']
  | c => messageChar c

theorem replace_flatMap (c : Char) (code : String) (f : Char → List Char) (text : List Char) :
    replace c code (text.flatMap f) = text.flatMap fun d => replace c code (f d) :=
  flatMap_assoc ..

/-- No replacement meets what one before it has written, so that one pass makes them all. -/
theorem message_eq (text : String) : message text = String.ofList (text.toList.flatMap messageChar) := by
  have each (c : Char) : replace '\n' "%0A" (replace '\r' "%0D" (replace '%' "%25" [c])) = messageChar c := by
    unfold messageChar
    split
    · rfl
    · rfl
    · rfl
    · simp_all [replace]
  have single := congrArg (replace '%' "%25") (flatMap_singleton' text.toList)
  simp only [message, ← single, replace_flatMap, each]

theorem property_eq (text : String) : property text = String.ofList (text.toList.flatMap propertyChar) := by
  have each (c : Char) : replace ',' "%2C" (replace ':' "%3A" (messageChar c)) = propertyChar c := by
    unfold propertyChar messageChar
    split
    · rfl
    · rfl
    · rfl
    · split
      · rfl
      · rfl
      · simp_all [replace]
  simp only [property, message_eq, String.toList_ofList, replace_flatMap, each]

/-- A text without its escapes. -/
def unescape : List Char → List Char
  | '%' :: '2' :: '5' :: rest => '%' :: unescape rest
  | '%' :: '0' :: 'D' :: rest => '\r' :: unescape rest
  | '%' :: '0' :: 'A' :: rest => '\n' :: unescape rest
  | '%' :: '3' :: 'A' :: rest => ':' :: unescape rest
  | '%' :: '2' :: 'C' :: rest => ',' :: unescape rest
  | c :: rest => c :: unescape rest
  | [] => []

theorem unescape_messageChar (c : Char) (rest : List Char) :
    unescape (messageChar c ++ rest) = c :: unescape rest := by
  unfold messageChar
  split
  · rfl
  · rfl
  · rfl
  · simp_all [unescape]

theorem unescape_propertyChar (c : Char) (rest : List Char) :
    unescape (propertyChar c ++ rest) = c :: unescape rest := by
  unfold propertyChar
  split
  · rfl
  · rfl
  · exact unescape_messageChar c rest

theorem unescape_flatMap {escape : Char → List Char}
    (undone : ∀ c rest, unescape (escape c ++ rest) = c :: unescape rest) (text : List Char) :
    unescape (text.flatMap escape) = text := by
  induction text with
  | nil => rfl
  | cons c text ih => rw [flatMap_cons, undone, ih]

theorem unescape_message (text : String) : String.ofList (unescape (message text).toList) = text := by
  rw [message_eq, String.toList_ofList, unescape_flatMap unescape_messageChar, String.ofList_toList]

theorem unescape_property (text : String) : String.ofList (unescape (property text).toList) = text := by
  rw [property_eq, String.toList_ofList, unescape_flatMap unescape_propertyChar, String.ofList_toList]

/-- Characters that would end a line, a property or all properties. -/
def breaking : List Char := ['\n', '\r', ',', ':']

/-- Characters that stand for others in a message. -/
def codes : List Char := ['%', '2', '5', '0', 'D', 'A']

variable {c d : Char}

theorem mem_messageChar (mem : d ∈ messageChar c) : d ∈ codes ∨ d = c ∧ c ∉ ['\n', '\r'] := by
  unfold messageChar at mem
  split at mem
  · exact .inl (all_iff_forall_prop.1 (by decide) d mem)
  · exact .inl (all_iff_forall_prop.1 (by decide) d mem)
  · exact .inl (all_iff_forall_prop.1 (by decide) d mem)
  · exact .inr (by simp_all)

theorem not_mem_propertyChar (mem : d ∈ propertyChar c) : d ∉ breaking := by
  have plain : ∀ d ∈ '3' :: 'C' :: codes, d ∉ breaking := all_iff_forall_prop.1 (by decide)
  unfold propertyChar at mem
  split at mem
  · exact plain d ((by decide : ['%', '3', 'A'] ⊆ '3' :: 'C' :: codes) mem)
  · exact plain d ((by decide : ['%', '2', 'C'] ⊆ '3' :: 'C' :: codes) mem)
  · rcases mem_messageChar mem with code | ⟨rfl, unbroken⟩
    · exact plain d (.tail _ (.tail _ code))
    · simp_all [breaking]

theorem property_unbroken (text : String) : ∀ c ∈ (property text).toList, c ∉ breaking := by
  intro c mem
  rw [property_eq, String.toList_ofList] at mem
  obtain ⟨_, _, mem⟩ := mem_flatMap.1 mem
  exact not_mem_propertyChar mem

theorem digits_unbroken (n : Nat) : ∀ c ∈ (toString n).toList, c ∉ breaking := by
  intro c mem
  rw [Nat.toString_eq_repr, Nat.toList_repr] at mem
  have digit := Nat.isDigit_of_mem_toDigits (by decide) (by decide) mem
  have other : ∀ c ∈ breaking, c.isDigit = false := all_iff_forall_prop.1 (by decide)
  intro among
  cases (other c among).symm.trans digit

/-- What a command tells. -/
structure Notice where
  level : String
  file : String
  line : Nat
  column : Nat
  title : String
  message : String

namespace Notice

/-- Reads a command: its level, its properties between commas, and its message after two colons. -/
def ofLine? (line : List Char) : Option Notice := do
  let body ← after? [':', ':'] line
  let (head, message) ← find? [':', ':'] body
  let (level, properties) ← find? [' '] head
  match properties.splitOn ',' with
  | [file, line, column, title] =>
    return {
      level := String.ofList level
      file := String.ofList (unescape (← after? "file=".toList file))
      line := Nat.ofDigitChars 10 (← after? "line=".toList line) 0
      column := Nat.ofDigitChars 10 (← after? "col=".toList column) 0
      title := String.ofList (unescape (← after? "title=".toList title))
      message := String.ofList (unescape message) }
  | _ => none

def ofFinding (finding : Finding) : Notice where
  level := finding.severity.annotationLevel
  file := finding.file
  line := finding.line
  column := finding.column
  title := finding.title ++ " [" ++ finding.rule ++ "]"
  message := finding.description

end Notice

section

variable (finding : Finding)

/-- The properties of a command. -/
def parts : List (List Char) :=
  ["file=".toList ++ (property finding.file).toList, "line=".toList ++ (toString finding.line).toList,
    "col=".toList ++ (toString finding.column).toList,
    "title=".toList ++ (property (finding.title ++ " [" ++ finding.rule ++ "]")).toList]

theorem toList_ofFinding :
    (ofFinding finding).toList = [':', ':'] ++ ((finding.severity.annotationLevel.toList ++
      ' ' :: [','].intercalate (parts finding)) ++ ':' :: ([':'] ++ (message finding.description).toList)) := by
  simp only [ofFinding, String.toList_append, String.reduceToList, cons_append, nil_append,
    append_assoc, parts, intercalate_cons_cons, intercalate_singleton]

theorem parts_unbroken : ∀ part ∈ parts finding, ∀ c ∈ part, c ∉ breaking := by
  have named {name value : List Char} (plain : ∀ c ∈ name, c ∉ breaking) (rest : ∀ c ∈ value, c ∉ breaking) :
      ∀ c ∈ name ++ value, c ∉ breaking := forall_mem_append.2 ⟨plain, rest⟩
  simp only [parts, forall_mem_cons]
  refine ⟨named ?_ (property_unbroken _), named ?_ (digits_unbroken _), named ?_ (digits_unbroken _),
    named ?_ (property_unbroken _), forall_mem_nil _⟩
  all_goals exact all_iff_forall_prop.1 (by decide)

theorem head_unbroken : ∀ c ∈ finding.severity.annotationLevel.toList ++
    ' ' :: [','].intercalate (parts finding), c ∉ ['\n', '\r', ':'] := by
  have level : ∀ c ∈ finding.severity.annotationLevel.toList, c ∉ ['\n', '\r', ':'] := by
    cases finding.severity <;> exact all_iff_forall_prop.1 (by decide)
  refine forall_mem_append.2 ⟨level, forall_mem_cons.2 ⟨by decide, fun c mem => ?_⟩⟩
  rcases mem_intercalate mem with rfl | ⟨part, among, mem⟩
  · decide
  · have plain := parts_unbroken finding part among c mem
    simp_all [breaking]

theorem ofLine?_ofFinding :
    Notice.ofLine? (ofFinding finding).toList = some (Notice.ofFinding finding) := by
  have colon := fun mem => head_unbroken finding ':' mem (by decide)
  have level : ' ' ∉ finding.severity.annotationLevel.toList := by cases finding.severity <;> decide
  have split : ([','].intercalate (parts finding)).splitOn ',' = parts finding :=
    splitOn_intercalate ',' (fun part among mem => parts_unbroken finding part among ',' mem (by decide))
      (cons_ne_nil _ _)
  have start := find?_of_not_mem colon [':'] (message finding.description).toList
  have blank := find?_of_not_mem level [] ([','].intercalate (parts finding))
  have value (name rest : List Char) : after? name (name ++ rest) = some rest := after?_eq_some_iff.2 rfl
  rw [nil_append] at blank
  rw [Notice.ofLine?, toList_ofFinding, value]
  simp only [bind_eq_bind, bind_some, start, blank, split]
  simp only [parts, value, bind_some, String.ofList_toList, ofDigitChars_toString, unescape_message,
    unescape_property]
  rfl

theorem message_unbroken (text : String) : ∀ c ∈ (message text).toList, c ∉ ['\n', '\r'] := by
  intro c mem
  rw [message_eq, String.toList_ofList] at mem
  obtain ⟨_, _, mem⟩ := mem_flatMap.1 mem
  have plain : ∀ d ∈ codes, d ∉ ['\n', '\r'] := all_iff_forall_prop.1 (by decide)
  rcases mem_messageChar mem with code | ⟨rfl, unbroken⟩
  · exact plain c code
  · exact unbroken

theorem ofFinding_unbroken : ∀ c ∈ (ofFinding finding).toList, c ∉ ['\n', '\r'] := by
  rw [toList_ofFinding]
  refine forall_mem_append.2 ⟨all_iff_forall_prop.1 (by decide),
    forall_mem_append.2 ⟨fun c mem among => ?_, ?_⟩⟩
  · exact head_unbroken finding c mem (mem_append_left [':'] among)
  · exact forall_mem_cons.2 ⟨by decide, forall_mem_cons.2 ⟨by decide, message_unbroken _⟩⟩

end

/-- Whatever the texts of the findings hold, there is one line for each of them, and what it tells can be
read back. -/
theorem commands_read_back (report : Report) :
    (lines (render report).toList).map Notice.ofLine? =
      report.findings.map fun finding => some (Notice.ofFinding finding) := by
  have whole : lines (render report).toList = report.findings.map fun finding =>
    (ofFinding finding).toList := by
    rw [render, String.toList_intercalate, List.map_map]
    refine lines_intercalate (by simp [toList_ofFinding]) fun line member => ?_
    obtain ⟨finding, _, rfl⟩ := mem_map.1 member
    have plain := ofFinding_unbroken finding
    exact ⟨fun member => plain _ member (by decide), fun member => plain _ member (by decide)⟩
  rw [whole, List.map_map]
  exact map_congr_left fun finding _ => ofLine?_ofFinding finding

end WorkflowCommand

end LeakTrace
