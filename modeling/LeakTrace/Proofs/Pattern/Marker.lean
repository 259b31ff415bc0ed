import LeakTrace.Proofs.Pattern.Balance
import LeakTrace.Proofs.Position
import LeakTrace.Proofs.Tree.Proper

namespace LeakTrace

open List LeakTrace.Tree Option Text

variable {cs before : List Char} {offset : Nat} {mark : NodeId}

namespace Placeholder

/-- What is read, when more text stands behind the rest. -/
def followed (more : List Char) {α : Type} (read : α × List Char) : α × List Char :=
  (read.1, read.2 ++ more)

theorem span_append (isPart : Char → Bool) (stops : isPart '$' = false) (cs more : List Char) :
    (cs ++ '$' :: more).takeWhile isPart = cs.takeWhile isPart ∧
      (cs ++ '$' :: more).dropWhile isPart = cs.dropWhile isPart ++ '$' :: more := by
  induction cs with
  | nil => simp [stops]
  | cons c rest ih =>
    by_cases part : isPart c
    · simp [part, ih.1, ih.2]
    · simp [part]

theorem dots_of_append {rest more tail : List Char} (dots : rest ++ '$' :: more = '.' :: '.' :: tail) :
    ∃ tail, rest = '.' :: '.' :: tail := by
  cases rest with
  | nil => cases dots
  | cons first rest =>
    cases rest with
    | nil => cases dots
    | cons second rest =>
      cases dots
      exact ⟨rest, rfl⟩

theorem name?_append (cs more : List Char) :
    name? (cs ++ '$' :: more) = (name? cs).map (followed ('$' :: more)) := by
  fun_cases name? cs with
  | case1 | case2 | case3 | case6 => rfl
  | case4 c rest noMark noDots noBlank letter isPart =>
    have still (tail : List Char) (dot : c = '.') (dots : rest ++ '$' :: more = '.' :: '.' :: tail) :
        False := by
      obtain ⟨tail, dots⟩ := dots_of_append dots
      exact noDots tail dot dots
    obtain ⟨taken, dropped⟩ := span_append isPart rfl (c :: rest) more
    rw [cons_append, name?.eq_4 c _ noMark still noBlank, if_pos letter, ← cons_append]
    exact congrArg some (Prod.ext (congrArg String.ofList taken) dropped)
  | case5 c rest noMark noDots noBlank other =>
    have still (tail : List Char) (dot : c = '.') (dots : rest ++ '$' :: more = '.' :: '.' :: tail) :
        False := by
      obtain ⟨tail, dots⟩ := dots_of_append dots
      exact noDots tail dot dots
    rw [cons_append, name?.eq_4 c _ noMark still noBlank, if_neg other]
    rfl

theorem kinds?_append (cs more : List Char) :
    kinds? (cs ++ '$' :: more) = (kinds? cs).map (followed ('$' :: more)) := by
  cases cs with
  | nil => rfl
  | cons c rest =>
    by_cases close : c = '>'
    · rw [close]
      rfl
    by_cases colon : c = ':'
    · obtain ⟨taken, dropped⟩ := span_append
        (fun c => Letter.isAsciiLetter c || c == '_' || c == '|') rfl rest more
      simp only [colon, cons_append, kinds?, taken, dropped]
      cases rest.dropWhile _ with
      | nil => rfl
      | cons last tail =>
        by_cases close : last = '>'
        · simp only [close, cons_append]
          split <;> rfl
        · simp [close]
    · simp [kinds?, close, colon]

theorem after?_append (nonempty : cs ≠ []) (more : List Char) :
    after? ['$', '<'] (cs ++ '$' :: more) = (after? ['$', '<'] cs).map (· ++ '$' :: more) := by
  cases cs with
  | nil => exact absurd rfl nonempty
  | cons c cs =>
    cases cs with
    | nil => simp [after?]
    | cons d inside =>
      simp only [cons_append, after?]
      split
      · split <;> rfl
      · rfl

theorem written?_append (nonempty : cs ≠ []) (more : List Char) :
    written? (cs ++ '$' :: more) = (written? cs).map (followed ('$' :: more)) := by
  simp only [written?, bind, after?_append nonempty more]
  cases after? ['$', '<'] cs with
  | none => rfl
  | some inside =>
    simp only [map_some, bind_some, name?_append]
    cases name? inside with
    | none => rfl
    | some read =>
      simp only [map_some, bind_some, followed, kinds?_append]
      cases kinds? read.2 with
      | none => rfl
      | some kinds => rfl

end Placeholder

namespace Snippet

variable (snippet : Snippet) {next : Snippet}

theorem extend_append (before more : List Char) :
    snippet.extend (before ++ '$' :: more) = (snippet.extend before).bind fun start =>
      start.extend ('$' :: more) := by
  have reads (c : Char) (rest : List Char) :=
    Placeholder.written?_append (cons_ne_nil c rest) more
  fun_induction extend snippet before with
  | case1 => rfl
  | case2 snippet c rest written after read shorter ih =>
    have still : (after ++ '$' :: more).length ≤ (rest ++ '$' :: more).length := by
      simpa only [length_append, Nat.add_le_add_iff_right] using shorter
    rw [cons_append, extend, ← cons_append, reads, read]
    simp only [map_some, Placeholder.followed, if_pos still]
    cases snippet.add written with
    | error => rfl
    | ok next => exact ih next
  | case3 snippet c rest written after read longer =>
    have still : ¬(after ++ '$' :: more).length ≤ (rest ++ '$' :: more).length := by
      simpa only [length_append, Nat.add_le_add_iff_right] using longer
    rw [cons_append, extend, ← cons_append, reads, read]
    simp only [map_some, Placeholder.followed, if_neg still]
    rfl
  | case4 snippet c rest other ih =>
    rw [cons_append, extend, ← cons_append, reads, other]
    exact ih

theorem focus_add {snippet : Snippet} {written : Placeholder.Written}
    (added : snippet.add written = .ok next) (marked : snippet.focus = some offset) :
    next.focus = some offset := by
  obtain ⟨placeholder, _, added⟩ := bind_eq_ok.1 added
  cases placeholder with
  | some placeholder =>
    cases added
    exact marked
  | none =>
    simp [marked] at added
    cases added

theorem focus_extend {snippet result : Snippet} (read : snippet.extend cs = .ok result)
    (marked : snippet.focus = some offset) : result.focus = some offset := by
  fun_induction extend snippet cs with
  | case1 =>
    cases read
    exact marked
  | case2 snippet c rest written after _ _ ih =>
    obtain ⟨next, added, read⟩ := bind_eq_ok.1 read
    exact ih next read (focus_add added marked)
  | case3 => cases read
  | case4 snippet c rest _ ih => exact ih read marked

/-- The marker that stands before the node to report. -/
def marker : List Char := ['$', '<', '!', '>']

theorem extend_marker (more : List Char) :
    snippet.extend (marker ++ more) =
      (snippet.add { name := "!", kinds := none }).bind fun next => next.extend more := by
  have read : Placeholder.written? ('$' :: '<' :: '!' :: '>' :: more) =
      some ({ name := "!", kinds := none }, more) := rfl
  have shorter : more.length ≤ ('<' :: '!' :: '>' :: more).length := Nat.le_add_right more.length 3
  change snippet.extend ('$' :: '<' :: '!' :: '>' :: more) = _
  rw [extend, read]
  simp only [if_pos shorter]
  rfl

theorem focus_add_marker {snippet : Snippet}
    (added : snippet.add { name := "!", kinds := none } = .ok next) :
    next.focus = some (byteLength snippet.reversed) := by
  obtain ⟨placeholder, made, added⟩ := bind_eq_ok.1 added
  cases made
  cases taken : snippet.focus with
  | some offset =>
    simp only [taken] at added
    cases added
  | none =>
    simp only [taken] at added
    cases added
    rfl

/-- The offset of the marker is the size of what is read from the text before it. -/
theorem focus_of_marker {after : List Char} {snippet : Snippet}
    (read : extend {} (before ++ marker ++ after) = .ok snippet) :
    ∃ start, extend {} before = .ok start ∧ snippet.focus = some (byteLength start.reversed) := by
  rw [append_assoc, marker, cons_append, extend_append, ← cons_append, ← marker] at read
  obtain ⟨start, first, read⟩ := bind_eq_ok.1 read
  rw [extend_marker] at read
  obtain ⟨next, added, read⟩ := bind_eq_ok.1 read
  exact ⟨start, first, focus_extend read (focus_add_marker added)⟩

theorem extend_of_ofText {source : String} {snippet : Snippet} (read : ofText source = .ok snippet) :
    extend {} source.toList = .ok snippet := by
  obtain ⟨result, whole, read⟩ := bind_eq_ok.1 read
  simp only [throw, throwThe, MonadExceptOf.throw, bind, Except.bind, pure, Except.pure] at read
  split at read
  · cases read
  · split at read
    · cases read
    · cases read
      exact whole

/-- Where the text of a snippet starts in the source of the tree that it is read as. -/
def lead (tree : Tree) : Nat :=
  match find? snippet.text.toList tree.source.toList with
  | some (before, _) => byteLength before
  | none => 0

end Snippet

theorem Text.byteLength_sub_trimStart (cs : List Char) :
    byteLength cs - byteLength (trimStart cs) =
      byteLength (cs.takeWhile isBlank) := by
  have whole : byteLength cs =
      byteLength (cs.takeWhile isBlank) + byteLength (trimStart cs) := by
    rw [← byteLength_append, trimStart, takeWhile_append_dropWhile]
  rw [whole, Nat.add_sub_cancel]

namespace Tree

theorem mem_subtree_unwrapped (tree : Tree) (id : NodeId) : tree.unwrapped id ∈ tree.subtree id := by
  have step {id child : NodeId} (only : tree.codeChildren id = [child])
      (ih : tree.unwrapped child ∈ tree.subtree child) : tree.unwrapped child ∈ tree.subtree id := by
    have isChild : child ∈ tree.codeChildren id := by
      rw [only]
      exact mem_singleton_self child
    exact mem_subtree_of_child (mem_children_of_codeChildren isChild) ih
  fun_induction unwrapped tree id with
  | case1 id _ child only ih => exact step only ih
  | case3 id _ child only ih => exact step only ih
  | case5 id _ child only ih => exact step only ih
  | _ => exact tree.mem_subtree_self _

/-- The outermost code below `root` that starts with the first character behind the offset that is not
blank. -/
structure Behind (tree : Tree) (root : NodeId) (offset : Nat) (mark : NodeId) : Prop where
  within : mark ∈ tree.subtree root
  code : tree.kind mark ≠ .comment
  starts : (tree.span mark).start = offset +
    byteLength ((dropBytes offset tree.source.toList).takeWhile isBlank)
  outermost : ∀ node ∈ tree.subtree root, tree.kind node ≠ .comment →
    (tree.span node).start = (tree.span mark).start → mark ∈ tree.subtree node → node = mark

end Tree

variable {tree : Tree}

theorem Stencil.behind_of_focusAt? {root : NodeId} (proper : tree.Proper) (below : root ∈ tree.preorder)
    (found : focusAt? tree root offset = some mark) : tree.Behind root offset mark := by
  have reach := le_of_mem_subtree below
  simp only [focusAt?, byteLength_sub_trimStart] at found
  split at found
  · cases found
  have among : mark ∈ tree.preorder := mem_of_find?_eq_some found
  have holds := find?_some found
  simp only [Bool.and_eq_true, bne_iff_ne, beq_iff_eq, isAncestor_iff proper among reach] at holds
  refine ⟨holds.1.1, holds.1.2, holds.2, fun node inside code start under => ?_⟩
  have within : node ∈ tree.preorder := mem_subtree_trans inside below
  refine proper.eq_of_find?_preorder found within ?_ under
  simp only [Bool.and_eq_true, bne_iff_ne, beq_iff_eq, isAncestor_iff proper within reach]
  exact ⟨⟨inside, code⟩, start.trans holds.2⟩

/-- The stencil without its mark. -/
def Stencil.unmarked (stencil : Stencil) : Stencil := { stencil with focus := none }

theorem Source.proper_snippet {language : Language} {text : String}
    (read : snippet language text = .ok tree) : tree.Proper := by
  cases language with
  | javascript =>
    cases read
    exact Outline.proper_toTree ..
  | rust =>
    unfold snippet at read
    simp only [] at read
    split at read
    · rename_i found
      cases read
      obtain ⟨_, _, rfl⟩ := map_eq_some_iff.1 found
      exact Outline.proper_toTree ..
    · cases read

namespace Pattern

/-- The stencil is what a pattern's text is read as. Its mark is the node that follows the marker, which
stands behind the text `before`. -/
structure Marked (language : Language) (source : String) (before : List Char) (stencil : Stencil)
    (mark : NodeId) : Prop where
  drawn : drawn? language source = some stencil.unmarked
  marked : stencil.focus = some mark
  behind : ∃ snippet start, Snippet.ofText source = .ok snippet ∧ Snippet.extend {} before = .ok start ∧
    stencil.tree.Behind (stencil.tree.unwrapped stencil.tree.root)
      (byteLength start.reversed + snippet.lead stencil.tree) mark

variable {language : Language} {source : String}

theorem Marked.proper {stencil : Stencil}
    (marked : Marked language source before stencil mark) : stencil.tree.Proper := by
  obtain ⟨snippet, _, rest⟩ := bind_eq_some_iff.1 marked.drawn
  obtain ⟨tree, read, same⟩ := bind_eq_some_iff.1 rest
  have trees : tree = stencil.tree := congrArg Stencil.tree (some.inj same)
  rw [← trees]
  exact Source.proper_snippet (toOption_eq_some.1 read)

/-- The template of a pattern with the marker is that of a stencil with the mark behind it. -/
theorem marked_of_compile {rule : String} {pattern : Pattern}
    (compiled : compile language rule source = .ok pattern) {after : List Char}
    (spelled : source.toList = before ++ Snippet.marker ++ after) :
    pattern.focused = true ∧ ∃ stencil mark, Marked language source before stencil mark ∧
      pattern.template = stencil.template (stencil.tree.unwrapped stencil.tree.root) := by
  unfold compile at compiled
  split at compiled
  · rename_i text
    cases compiled
    obtain ⟨snippet, read, text⟩ := bind_eq_ok.1 text
    have whole := Snippet.extend_of_ofText read
    rw [spelled] at whole
    obtain ⟨start, first, offset⟩ := Snippet.focus_of_marker whole
    simp only [throw, throwThe, MonadExceptOf.throw, bind, Except.bind, pure, Except.pure, offset,
      Stencil.lower_eq] at text
    split at text
    · rename_i tree parsed
      split at text
      · cases text
      split at text
      · rename_i mark found
        split at text
        · cases text
        cases text
        have behind := Stencil.behind_of_focusAt? (Source.proper_snippet parsed)
          (tree.mem_subtree_unwrapped tree.root) found
        refine ⟨rfl, { tree, placeholders := snippet.placeholders, focus := some mark }, mark,
          ⟨?_, rfl, snippet, start, read, first, behind⟩, rfl⟩
        rw [drawn?, read, Except.toOption, bind_eq_bind, bind_some, parsed]
        rfl
      · cases text
    · cases text
  · cases compiled

end Pattern

end LeakTrace
