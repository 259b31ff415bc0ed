import LeakTrace.Proofs.Suppression
import LeakTrace.Span

namespace LeakTrace

open List

namespace Text

theorem byteLength_eq (cs : List Char) : byteLength cs = (cs.flatMap String.utf8EncodeChar).length := by
  have further (size : Nat) : cs.foldl (fun n c => n + c.utf8Size) size =
      size + (cs.flatMap String.utf8EncodeChar).length := by
    induction cs generalizing size with
    | nil => rfl
    | cons c rest ih =>
      rw [foldl_cons, ih, flatMap_cons, length_append, String.length_utf8EncodeChar, Nat.add_assoc]
  exact (further 0).trans (Nat.zero_add _)

theorem byteLength_cons (c : Char) (cs : List Char) :
    byteLength (c :: cs) = c.utf8Size + byteLength cs := by
  rw [byteLength_eq, byteLength_eq, flatMap_cons, length_append, String.length_utf8EncodeChar]

theorem byteLength_append (first second : List Char) :
    byteLength (first ++ second) = byteLength first + byteLength second := by
  rw [byteLength_eq, byteLength_eq, byteLength_eq, flatMap_append, length_append]

theorem prefix_of_byteLength_le {first second cs : List Char} (one : first <+: cs) (two : second <+: cs)
    (le : byteLength first ≤ byteLength second) : first <+: second := by
  rcases prefix_or_prefix_of_prefix one two with shorter | ⟨more, rfl⟩
  · exact shorter
  cases more with
  | nil => exact (append_nil second).symm ▸ prefix_rfl
  | cons c rest =>
    have size := c.utf8Size_pos
    rw [byteLength_append, byteLength_cons] at le
    omega

theorem toUTF8_eq (source : String) :
    source.toUTF8.data.toList = source.toList.flatMap String.utf8EncodeChar := by
  have encoded : source.toUTF8 = source.toList.utf8Encode := String.utf8Encode_toList.symm
  rw [encoded, utf8Encode, data_toByteArray]

theorem utf8ByteSize_eq (source : String) : source.utf8ByteSize = byteLength source.toList := by
  rw [byteLength_eq, ← toUTF8_eq, Array.length_toList, ← String.size_toByteArray]
  rfl

theorem count_encodeChar (c : Char) : (String.utf8EncodeChar c).count 10 = [c].count '\n' := by
  by_cases feed : c = '\n'
  · subst feed
    decide
  have other : c.toNat ≠ 10 := fun same => feed (Char.ext (UInt32.toNat_inj.1 same))
  rw [count_eq_zero.2 fun mem => feed (mem_singleton.1 mem).symm, count_eq_zero]
  intro mem
  have byte := mem_map_of_mem (f := UInt8.toNat) mem
  have value : c.val.toNat = c.toNat := rfl
  rw [String.utf8EncodeChar, value] at byte
  split_ifs at byte <;>
    simp only [map_cons, map_nil, mem_cons, not_mem_nil, or_false, UInt8.toNat_ofNat',
      UInt8.reduceToNat] at byte <;> omega

theorem count_encoded (cs : List Char) : (cs.flatMap String.utf8EncodeChar).count 10 = cs.count '\n' := by
  induction cs with
  | nil => rfl
  | cons c rest ih =>
    rw [flatMap_cons, count_append, ih, count_encodeChar, ← count_append, singleton_append]

theorem dropBytes_append (lead after : List Char) :
    dropBytes (byteLength lead) (lead ++ after) = after := by
  induction lead with
  | nil => simp [byteLength, dropBytes]
  | cons c rest ih =>
    obtain ⟨size, sized⟩ := Nat.exists_eq_succ_of_ne_zero (Nat.ne_of_gt c.utf8Size_pos)
    rw [byteLength_cons, sized, Nat.succ_add, cons_append, dropBytes, sized, Nat.succ_sub_succ,
      Nat.add_sub_cancel_left, ih]

end Text

namespace LineIndex

open Text

/-- The line of a text on which an offset is, between the text before and after it. The last line goes on
behind the end of the text. -/
structure OnLine (cs : List Char) (offset : Nat) (lead row after : List Char) : Prop where
  whole : cs = lead ++ (row ++ after)
  started : lead = [] ∨ ∃ earlier, lead = earlier ++ ['\n']
  unbroken : '\n' ∉ row
  ended : after = [] ∨ ∃ rest, after = '\n' :: rest
  least : byteLength lead ≤ offset
  most : offset ≤ byteLength (lead ++ row) ∨ after = []

/-- Every offset is on a line, which is one of the lines of the text unless the text ends before it. -/
theorem exists_onLine (cs : List Char) (offset : Nat) :
    ∃ lead row after, OnLine cs offset lead row after ∧
    (offset < byteLength cs →
      (lines cs)[lead.count '\n']? = some (if after = [] then row else dropReturn row)) := by
  fun_induction lines cs generalizing offset with
  | case1 cs none empty =>
    cases isEmpty_iff.1 empty
    exact ⟨[], [], [], ⟨rfl, .inl rfl, not_mem_nil, .inl rfl, Nat.zero_le _, .inr rfl⟩,
      fun inside => absurd inside (Nat.not_lt_zero _)⟩
  | case2 cs none nonempty =>
    have unbroken : '\n' ∉ cs := fun mem => by simpa using dropWhile_eq_nil_iff.1 none _ mem
    exact ⟨[], cs, [], ⟨by simp, .inl rfl, unbroken, .inl rfl, Nat.zero_le _, .inr rfl⟩, fun _ => rfl⟩
  | case3 cs ending more found ih =>
    have feed : ending = '\n' := by
      have head := head?_dropWhile_not (· != '\n') cs
      rw [found] at head
      simpa using head
    subst feed
    have whole : cs = cs.takeWhile (· != '\n') ++ '\n' :: more := by
      rw [← found, takeWhile_append_dropWhile]
    have unbroken : '\n' ∉ cs.takeWhile (· != '\n') := fun mem => by
      simpa using mem_takeWhile_imp mem
    generalize cs.takeWhile (· != '\n') = row at whole unbroken
    by_cases within : offset ≤ byteLength row
    · exact ⟨[], row, '\n' :: more, ⟨whole, .inl rfl, unbroken, .inr ⟨more, rfl⟩, Nat.zero_le _, .inl within⟩,
        fun _ => rfl⟩
    -- The line is behind the first line feed, where offsets are counted anew.
    obtain ⟨lead, last, after, line, listed⟩ := ih (offset - (byteLength row + 1))
    have bytes (cs : List Char) : byteLength (row ++ '\n' :: cs) = byteLength row + 1 + byteLength cs := by
      rw [byteLength_append, byteLength_cons, Nat.add_assoc]
      rfl
    refine ⟨row ++ '\n' :: lead, last, after, ⟨?_, .inr ?_, line.unbroken, line.ended, ?_, ?_⟩,
      fun inside => ?_⟩
    · rw [whole, line.whole]
      simp
    · rcases line.started with rfl | ⟨earlier, rfl⟩
      · exact ⟨row, rfl⟩
      · exact ⟨row ++ '\n' :: earlier, by simp⟩
    · have least := line.least
      rw [bytes]
      omega
    · refine line.most.imp_left fun most => ?_
      rw [append_assoc, cons_append, bytes]
      omega
    · rw [whole, bytes] at inside
      rw [count_append, count_eq_zero.2 unbroken, Nat.zero_add, count_cons_self,
        getElem?_cons_succ]
      exact listed (by omega)

/-- The line starts behind the line feeds of the text that begins at byte `offset`. -/
def feeds : (offset : Nat) → List Char → List Nat
  | _, [] => []
  | offset, c :: cs =>
    if c = '\n' then (offset + c.utf8Size) :: feeds (offset + c.utf8Size) cs
    else feeds (offset + c.utf8Size) cs

theorem toList_collect (cs : List Char) (offset : Nat) (starts : Array Nat) :
    (collect cs offset starts).toList = starts.toList ++ feeds offset cs := by
  induction cs generalizing offset starts with
  | nil => exact (append_nil _).symm
  | cons c rest ih =>
    rw [collect, ih, feeds]
    split <;> simp

theorem feeds_append (offset : Nat) (first second : List Char) :
    feeds offset (first ++ second) = feeds offset first ++ feeds (offset + byteLength first) second := by
  induction first generalizing offset with
  | nil => rfl
  | cons c rest ih =>
    rw [cons_append, feeds, feeds, ih, byteLength_cons, Nat.add_assoc]
    split <;> rfl

theorem length_feeds (offset : Nat) (cs : List Char) : (feeds offset cs).length = cs.count '\n' := by
  fun_induction feeds offset cs with
  | case1 => rfl
  | case2 offset rest ih => rw [length_cons, ih, count_cons_self]
  | case3 offset c rest other ih => rw [ih, count_cons_of_ne other]

theorem mem_feeds {offset start : Nat} {cs : List Char} (mem : start ∈ feeds offset cs) :
    offset < start ∧ start ≤ offset + byteLength cs := by
  fun_induction feeds offset cs with
  | case1 => cases mem
  | case2 offset rest ih =>
    rw [byteLength_cons]
    have size := Char.utf8Size_pos '\n'
    rcases mem_cons.1 mem with rfl | later
    · omega
    · have bounds := ih later
      omega
  | case3 offset c rest other ih =>
    rw [byteLength_cons]
    have bounds := ih mem
    omega

/-- The search ends at the place where the starts pass the offset. -/
theorem startsUpTo_eq {starts : Array Nat} {offset low high : Nat} {small large : List Nat}
    (split : starts.toList = small ++ large) (before : ∀ start ∈ small, start ≤ offset)
    (behind : ∀ start ∈ large, offset < start) (least : low ≤ small.length) (most : small.length ≤ high)
    (inside : high ≤ starts.size) : startsUpTo starts offset low high = small.length := by
  have atPlace (place : Nat) : starts[place]? = (small ++ large)[place]? := by
    rw [← split, Array.getElem?_toList]
  -- The place stays between the two ends of what is still searched.
  fun_induction startsUpTo starts offset low high with
  | case1 low high more middle start found le ih =>
    refine ih (Nat.lt_of_not_le fun passed => ?_) most inside
    rw [atPlace, getElem?_append_right passed] at found
    exact Nat.not_lt_of_le le (behind start (mem_of_getElem? found))
  | case2 low high more middle start found gt ih =>
    have half : middle < high := by omega
    refine ih least (Nat.le_of_not_lt fun early => ?_) (half.le.trans inside)
    rw [atPlace, getElem?_append_left early] at found
    exact gt (before start (mem_of_getElem? found))
  | case3 low high more middle none =>
    have half : middle < high := by omega
    exact absurd (Array.getElem?_eq_none_iff.1 none) (Nat.not_le_of_lt (half.trans_le inside))
  | case4 low high closed => exact Nat.le_antisymm least (most.trans (Nat.le_of_not_lt closed))

variable {source : String} {offset : Nat} {lead row after : List Char}

theorem position_eq (line : OnLine source.toList offset lead row after) :
    (ofSource source).starts[lead.count '\n']? = some (byteLength lead) ∧
      (ofSource source).position offset = (lead.count '\n' + 1, offset - byteLength lead + 1) := by
  have split : (ofSource source).starts.toList =
      (0 :: feeds 0 lead) ++ feeds (byteLength (lead ++ row)) after := by
    have none : feeds (byteLength lead) row = [] :=
      length_eq_zero_iff.1 ((length_feeds ..).trans (count_eq_zero.2 line.unbroken))
    rw [ofSource, toList_collect, line.whole, ← append_assoc, feeds_append, feeds_append, Nat.zero_add,
      Nat.zero_add, none, append_nil]
    rfl
  have size : (0 :: feeds 0 lead).length = lead.count '\n' + 1 := congrArg (· + 1) (length_feeds 0 lead)
  have start : (ofSource source).starts[lead.count '\n']? = some (byteLength lead) := by
    rw [← Array.getElem?_toList, split, getElem?_append_left (size ▸ Nat.lt_succ_self _)]
    rcases line.started with rfl | ⟨earlier, rfl⟩
    · rfl
    · rw [feeds_append, byteLength_append, count_append, ← length_feeds 0 earlier]
      simp [feeds, byteLength]
  have last : startsUpTo (ofSource source).starts offset 0 (ofSource source).starts.size =
      lead.count '\n' + 1 := by
    rw [← size]
    refine startsUpTo_eq split ?_ ?_ (Nat.zero_le _) ?_ (Nat.le_refl _)
    · refine forall_mem_cons.2 ⟨Nat.zero_le _, fun start mem => ?_⟩
      exact (Nat.zero_add (byteLength lead) ▸ (mem_feeds mem).2).trans line.least
    · intro start mem
      rcases line.most with within | rfl
      · exact within.trans_lt (mem_feeds mem).1
      · cases mem
    · rw [← Array.length_toList, split, length_append]
      exact Nat.le_add_right ..
  refine ⟨start, ?_⟩
  rw [position, last, Nat.add_sub_cancel, Array.getD_eq_getD_getElem?, start]
  rfl

theorem offset_eq {part : List Char}
    (line : OnLine source.toList (byteLength (lead ++ part)) lead row after)
    (behind : part <+: row ++ after) :
    (ofSource source).offset source (lead.count '\n' + 1) part.length = byteLength (lead ++ part) := by
  have inside : part <+: row := by
    rcases line.most with within | rfl
    · refine prefix_of_byteLength_le behind (prefix_append row after) ?_
      rwa [byteLength_append, byteLength_append, Nat.add_le_add_iff_left] at within
    · rwa [append_nil] at behind
  have text : (row ++ after).takeWhile (· != '\n') = row := by
    rw [takeWhile_append_of_pos fun c mem => by simpa using ne_of_mem_of_not_mem mem line.unbroken]
    rcases line.ended with rfl | ⟨rest, rfl⟩ <;> simp
  have start := (position_eq line).1
  rw [LineIndex.offset, Nat.add_sub_cancel, start]
  simp only []
  rw [line.whole, dropBytes_append, text, prefix_iff_eq_take.1 inside |>.symm, byteLength_append]

/-- The bytes of a line feed are those of the character: no other character has such a byte. -/
theorem count_feeds (line : OnLine source.toList offset lead row after) :
    (source.toUTF8.data.toList.take offset).count 10 = lead.count '\n' := by
  have before : (lead.flatMap String.utf8EncodeChar).length ≤ offset := byteLength_eq lead ▸ line.least
  have inRow : ((row ++ after).flatMap String.utf8EncodeChar).take (offset - byteLength lead) <+:
      row.flatMap String.utf8EncodeChar := by
    rcases line.most with within | rfl
    · rw [byteLength_append] at within
      rw [flatMap_append, take_append_of_le_length (by rw [← byteLength_eq]; omega)]
      exact take_prefix ..
    · rw [append_nil]
      exact take_prefix ..
  have none := inRow.sublist.count_le (10 : UInt8)
  rw [count_encoded, count_eq_zero.2 line.unbroken, Nat.le_zero] at none
  rw [toUTF8_eq, line.whole, flatMap_append, take_append, take_of_length_le before,
    count_append, count_encoded, ← byteLength_eq, none, Nat.add_zero]

/-- A line starts at the beginning of the text or behind a line feed, and is counted from one. -/
structure LeadsTo (cs lead : List Char) (line : Nat) : Prop where
  isPrefix : lead <+: cs
  started : lead = [] ∨ ∃ earlier, lead = earlier ++ ['\n']
  number : line = lead.count '\n' + 1

/-- A line ends with a line feed, or a carriage return and a line feed, or with the text. -/
def Ends (text ending rest : List Char) : Prop :=
  '\n' ∉ text ∧ (ending = ['\r', '\n'] ∨ ending = ['\n'] ∧ text.getLast? ≠ some '\r' ∨ ending = [] ∧ rest = [])

theorem OnLine.ends (line : OnLine source.toList offset lead row after) : ∃ text ending rest,
    row ++ after = text ++ (ending ++ rest) ∧ Ends text ending rest ∧
      (if after = [] then row else dropReturn row) = text := by
  rcases line.ended with rfl | ⟨rest, rfl⟩
  · exact ⟨row, [], [], rfl, ⟨line.unbroken, .inr (.inr ⟨rfl, rfl⟩)⟩, if_pos rfl⟩
  rw [if_neg (cons_ne_nil _ _)]
  by_cases returned : row.getLast? = some '\r'
  · obtain ⟨text, rfl⟩ := getLast?_eq_some_iff.1 returned
    refine ⟨text, ['\r', '\n'], rest, by simp, ⟨fun mem => ?_, .inl rfl⟩, by simp [dropReturn]⟩
    exact line.unbroken (mem_append_left _ mem)
  refine ⟨row, ['\n'], rest, rfl, ⟨line.unbroken, .inr (.inl ⟨rfl, returned⟩)⟩, ?_⟩
  unfold dropReturn
  split
  · rename_i more reversed
    rw [← head?_reverse, reversed] at returned
    exact absurd rfl returned
  · rfl

/-- Positions count line feeds and bytes, and lead back to the offset. -/
theorem position_exact (source : String) (offset : Nat) :
    (∃ line column lead, (ofSource source).position offset = (line, column) ∧
      line - 1 = (source.toUTF8.data.toList.take offset).count 10 ∧
      LeadsTo source.toList lead line ∧ 1 ≤ column ∧ offset = byteLength lead + (column - 1) ∧
      (∀ before, before <+: source.toList → byteLength before = offset →
        (ofSource source).offset source line (before.length - lead.length) = offset) ∧
      (offset < source.utf8ByteSize → ∃ text ending rest, source.toList = lead ++ (text ++ (ending ++ rest)) ∧
        Ends text ending rest ∧ (linesOf source)[line - 1]? = some (String.ofList text))) ∧
    ∀ later, offset < later →
      Prod.Lex (· < ·) (· < ·) ((ofSource source).position offset) ((ofSource source).position later) := by
  obtain ⟨lead, row, after, line, listed⟩ := exists_onLine source.toList offset
  have least := line.least
  refine ⟨⟨_, _, lead, (position_eq line).2, (count_feeds line).symm, ⟨?_, line.started, rfl⟩,
    Nat.le_add_left .., by omega, fun before boundary bytes => ?_, fun inside => ?_⟩, fun later after => ?_⟩
  · exact ⟨_, line.whole.symm⟩
  · subst bytes
    obtain ⟨part, rfl⟩ := prefix_of_byteLength_le ⟨_, line.whole.symm⟩ boundary least
    rw [line.whole] at boundary
    rw [length_append, Nat.add_sub_cancel_left]
    exact offset_eq line ((prefix_append_right_inj lead).1 boundary)
  · obtain ⟨text, ending, rest, split, ends, same⟩ := line.ends
    refine ⟨text, ending, rest, split ▸ line.whole, ends, ?_⟩
    rw [linesOf, Nat.add_sub_cancel, getElem?_map, listed (utf8ByteSize_eq source ▸ inside), same]
    rfl
  · obtain ⟨other, _, _, laterLine, _⟩ := exists_onLine source.toList later
    obtain ⟨start, position⟩ := position_eq line
    obtain ⟨laterStart, laterPosition⟩ := position_eq laterLine
    have further : lead.count '\n' ≤ other.count '\n' := by
      rw [← count_feeds line, ← count_feeds laterLine]
      exact (take_prefix_take_left (Nat.le_of_lt after)).sublist.count_le _
    rw [position, laterPosition, Prod.lex_def]
    rcases Nat.lt_or_eq_of_le further with fewer | same
    · exact .inl (Nat.succ_lt_succ fewer)
    · have together := Option.some.inj (start.symm.trans (same ▸ laterStart))
      refine .inr ⟨congrArg (· + 1) same, ?_⟩
      rw [← together]
      exact Nat.succ_lt_succ (Nat.sub_lt_sub_right line.least after)

end LineIndex

end LeakTrace
