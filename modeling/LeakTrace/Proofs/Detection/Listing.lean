import LeakTrace.Detection
import Mathlib.Data.String.Basic

namespace LeakTrace

open List

section Firsts

variable {α β : Type} {key : α → β} {test : α → Bool}

/-- The item passes the test, and none with the same key that stands before it does. -/
def First (key : α → β) (test : α → Bool) (items : List α) (item : α) : Prop :=
  test item = true ∧ ∃ before after, items = before ++ item :: after ∧
    ∀ earlier ∈ before, key earlier = key item → test earlier = false

theorem first_cons {head item : α} {rest : List α} :
    First key test (head :: rest) item ↔ (head = item ∧ test item = true) ∨
      (First key test rest item ∧ (key head = key item → test head = false)) := by
  constructor
  · rintro ⟨passed, before, after, split, blocked⟩
    cases before with
    | nil =>
      cases split
      exact .inl ⟨rfl, passed⟩
    | cons first before =>
      cases split
      have later := fun earlier mem => blocked earlier (.tail _ mem)
      exact .inr ⟨⟨passed, before, after, rfl, later⟩, blocked _ mem_cons_self⟩
  · rintro (⟨rfl, passed⟩ | ⟨⟨passed, before, after, rfl, blocked⟩, headBlocked⟩)
    · exact ⟨passed, [], rest, rfl, forall_mem_nil _⟩
    · exact ⟨passed, head :: before, after, rfl, forall_mem_cons.2 ⟨headBlocked, blocked⟩⟩

theorem First.mem {items : List α} {item : α} (first : First key test items item) : item ∈ items := by
  obtain ⟨_, before, after, rfl, _⟩ := first
  exact mem_append_right _ (.head _)

theorem exists_first {items : List α} {item : α} (mem : item ∈ items)
    (passes : test item = true) : ∃ first, First key test items first ∧ key first = key item := by
  induction items with
  | nil => cases mem
  | cons head rest ih =>
    by_cases headFirst : key head = key item ∧ test head = true
    · exact ⟨head, first_cons.2 (.inl ⟨rfl, headFirst.2⟩), headFirst.1⟩
    have other : item ≠ head := by
      rintro rfl
      exact headFirst ⟨rfl, passes⟩
    obtain ⟨first, firstRest, same⟩ := ih ((mem_cons.1 mem).resolve_left other)
    refine ⟨first, first_cons.2 (.inr ⟨firstRest, fun sameHead => ?_⟩), same⟩
    simpa using fun headPasses => headFirst ⟨sameHead.trans same, headPasses⟩

variable [BEq β]

theorem distinctBy_map {γ : Type} (place : γ → α) (seen : List β) (items : List γ) :
    distinctBy key seen (items.map place) =
      (distinctBy (fun item => key (place item)) seen items).map place := by
  induction items generalizing seen with
  | nil => rfl
  | cons head rest ih =>
    rw [map_cons, distinctBy, distinctBy]
    split
    · exact ih seen
    · rw [map_cons, ih]

variable [LawfulBEq β] {items : List α}

theorem mem_distinctBy_filter {seen : List β} {item : α} :
    item ∈ distinctBy key seen (items.filter test) ↔
      key item ∉ seen ∧ First key test items item := by
  induction items generalizing seen with
  | nil => simp [distinctBy, First]
  | cons head rest ih =>
    rw [first_cons]
    by_cases passes : test head = true
    · rw [filter_cons_of_pos passes, distinctBy]
      by_cases old : key head ∈ seen
      · rw [if_pos (by simpa using old), ih]
        refine and_congr_right fun fresh => ?_
        have different : key head ≠ key item := fun same => fresh (same ▸ old)
        have notHead : head ≠ item := fun same => different (congrArg key same)
        simp [different, notHead]
      · rw [if_neg (by simpa using old), mem_cons, ih, mem_cons, not_or]
        by_cases same : key head = key item
        · simp only [same, passes, not_true_eq_false, false_and, or_false, true_implies,
            Bool.true_eq_false, and_false]
          constructor
          · rintro rfl
            exact ⟨old, rfl, passes⟩
          · exact fun found => found.2.1.symm
        · have notHead : head ≠ item := fun equal => same (congrArg key equal)
          have notItem : item ≠ head := fun equal => notHead equal.symm
          have notSame : key item ≠ key head := fun equal => same equal.symm
          simp [notHead, notItem, same, notSame]
    · rw [filter_cons_of_neg passes, ih]
      have notHead : ¬(head = item ∧ test item = true) := by
        rintro ⟨rfl, passed⟩
        exact passes passed
      simp [notHead, passes]

theorem mem_distinctBy {seen : List β} {item : α} (mem : item ∈ distinctBy key seen items) :
    key item ∉ seen ∧ item ∈ items := by
  rw [← filter_true items, mem_distinctBy_filter] at mem
  exact ⟨mem.1, mem.2.mem⟩

theorem distinctBy_pairwise (seen : List β) (items : List α) :
    (distinctBy key seen items).Pairwise fun a b => key a ≠ key b := by
  induction items generalizing seen with
  | nil => exact .nil
  | cons head rest ih =>
    unfold distinctBy
    split
    · exact ih seen
    · refine pairwise_cons.2 ⟨fun item mem same => ?_, ih _⟩
      exact (mem_distinctBy mem).1 (same ▸ (.head _))

theorem distinctBy_congr {seen other : List β} (agree : ∀ item ∈ items, key item ∈ seen ↔ key item ∈ other) :
    distinctBy key seen items = distinctBy key other items := by
  induction items generalizing seen other with
  | nil => rfl
  | cons head rest ih =>
    have atHead := agree head (.head _)
    have atRest := fun item mem => agree item (.tail _ mem)
    unfold distinctBy
    by_cases old : key head ∈ seen
    · rw [if_pos (by simpa using old), if_pos (by simpa using atHead.1 old)]
      exact ih atRest
    · rw [if_neg (by simpa using old), if_neg (by simpa using fun also => old (atHead.2 also))]
      refine congrArg (head :: ·) (ih fun item mem => ?_)
      rw [mem_cons, mem_cons, atRest item mem]

theorem distinctBy_cons (old : β) (seen : List β) (items : List α) :
    distinctBy key (old :: seen) items = (distinctBy key seen items).filter fun item => key item != old := by
  induction items generalizing seen with
  | nil => rfl
  | cons head rest ih =>
    by_cases known : key head ∈ seen
    · simp [distinctBy, known, ih]
    have swap : distinctBy key (key head :: old :: seen) rest = distinctBy key (old :: key head :: seen) rest :=
      distinctBy_congr fun item _ => by grind
    by_cases same : key head = old
    · subst same
      have twice : distinctBy key (key head :: key head :: seen) rest =
          distinctBy key (key head :: seen) rest :=
        distinctBy_congr fun item _ => by grind
      simp [distinctBy, known, ← ih, twice]
    · simp [distinctBy, known, same, swap, ih]

/-- A test on which items of one key agree may be made before or after. -/
theorem filter_distinctBy (agree : ∀ a ∈ items, ∀ b ∈ items, key a = key b → test a = test b)
    (seen : List β) :
    (distinctBy key seen items).filter test = distinctBy key seen (items.filter test) := by
  induction items generalizing seen with
  | nil => rfl
  | cons head rest ih =>
    have later := fun seen => ih (fun a first b second =>
      agree a (.tail _ first) b (.tail _ second)) seen
    rw [filter_cons]
    by_cases passed : test head = true
    · rw [if_pos passed, distinctBy, distinctBy]
      split
      · exact later seen
      · rw [filter_cons, if_pos passed, later]
    rw [if_neg passed, distinctBy]
    split
    · exact later seen
    rw [filter_cons, if_neg passed, later]
    refine distinctBy_congr fun item mem => ?_
    obtain ⟨among, itemPassed⟩ := mem_filter.1 mem
    have different : key item ≠ key head := fun same => passed <|
      (agree item (.tail _ among) head (.head _) same).symm.trans itemPassed
    simp [different]

end Firsts

section Sorting

variable {α : Type} {le : α → α → Bool}

/-- There is one place at which a list can be cut into items that do not come after `a` and items
that do. -/
theorem cut_unique {before after first second : List α} (reject : α → Bool)
    (same : before ++ after = first ++ second) (beforeHolds : ∀ item ∈ before, reject item = true)
    (afterFails : ∀ item ∈ after, reject item = false) (firstHolds : ∀ item ∈ first, reject item = true)
    (secondFails : ∀ item ∈ second, reject item = false) : before = first ∧ after = second := by
  have taken (front back : List α) (holds : ∀ item ∈ front, reject item = true)
      (fails : ∀ item ∈ back, reject item = false) : (front ++ back).filter reject = front := by
    rw [filter_append, filter_eq_self.2 holds, filter_eq_nil_iff.2, append_nil]
    exact fun item mem => by simp [fails item mem]
  have fronts : before = first := by
    rw [← taken before after beforeHolds afterFails, same, taken first second firstHolds secondFails]
  subst fronts
  exact ⟨rfl, append_cancel_left same⟩

/-- Sorting keeps items of equal rank in their order, so that it may be done before or after some
items are left out. -/
theorem filter_mergeSort (trans : ∀ a b c, le a b = true → le b c = true → le a c = true)
    (total : ∀ a b, (le a b || le b a) = true) (test : α → Bool) (items : List α) :
    (items.mergeSort le).filter test = (items.filter test).mergeSort le := by
  induction items with
  | nil => simp
  | cons head rest ih =>
    obtain ⟨before, after, whole, short, earlier⟩ := mergeSort_cons trans total head rest
    have sorted := pairwise_mergeSort trans total (head :: rest)
    rw [whole] at sorted
    have later := (pairwise_cons.1 (pairwise_append.1 sorted).2.1).1
    rw [whole, filter_append, filter_cons, filter_cons]
    by_cases passed : test head = true
    · rw [if_pos passed, if_pos passed]
      obtain ⟨front, back, kept, keptShort, frontEarlier⟩ :=
        mergeSort_cons trans total head (rest.filter test)
      have keptSorted := pairwise_mergeSort trans total (head :: rest.filter test)
      rw [kept] at keptSorted
      have backLater := (pairwise_cons.1 (pairwise_append.1 keptSorted).2.1).1
      -- Both sides are cut where the items that do not come before the head begin.
      have same : before.filter test ++ after.filter test = front ++ back := by
        rw [← filter_append, ← short, ih, keptShort]
      obtain ⟨fronts, backs⟩ := cut_unique (fun item => !le head item) same
        (fun item mem => earlier item (mem_filter.1 mem).1)
        (fun item mem => by simp [later item (mem_filter.1 mem).1]) frontEarlier
        (fun item mem => by simp [backLater item mem])
      rw [kept, fronts, backs]
    · rw [if_neg passed, if_neg passed, ← filter_append, ← short, ih]

end Sorting

instance : Ord Span := ⟨Span.compare⟩

/-- Spans are compared by one field after the other. -/
instance : Std.TransOrd Span :=
  inferInstanceAs (Std.TransCmp (compareLex (compareOn Span.start) <|
    compareLex (compareOn Span.stop) <| compareLex (compareOn Span.line) <|
      compareLex (compareOn Span.column) <| compareLex (compareOn Span.endLine) <|
        compareOn Span.endColumn))

theorem Span.compare_eq_iff {a b : Span} : a.compare b = .eq ↔ a = b := by
  constructor
  · intro same
    simp only [Span.compare, Ordering.then_eq_eq, Std.compare_eq_iff_eq] at same
    cases a
    simp_all
  · rintro rfl
    exact (Std.ReflOrd.compare_self : Ord.compare a a = .eq)

namespace Detection

/-- Earlier places come first, and at one place the rule that is first by name. -/
def InOrder (a b : Detection) : Prop :=
  a.span.compare b.span = .lt ∨ a.span = b.span ∧ a.rule ≤ b.rule

/-- The comparison by place and then by rule. -/
def rank : Detection → Detection → Ordering :=
  compareLex (compareOn Detection.span) (compareOn Detection.rule)

instance : Std.TransCmp rank :=
  inferInstanceAs (Std.TransCmp (compareLex (compareOn Detection.span) (compareOn Detection.rule)))

theorem precedes_eq (a b : Detection) : a.precedes b = (rank a b).isLE := rfl

theorem precedes_trans (a b c : Detection) (first : a.precedes b = true)
    (second : b.precedes c = true) : a.precedes c = true := by
  rw [precedes_eq] at *
  exact Std.TransCmp.isLE_trans first second

theorem precedes_total (a b : Detection) : (a.precedes b || b.precedes a) = true := by
  rw [precedes_eq, precedes_eq, Bool.or_eq_true]
  rcases ordering : rank a b with _ | _ | _
  · exact .inl rfl
  · exact .inl rfl
  · rw [Std.OrientedCmp.gt_iff_lt] at ordering
    exact .inr (by rw [ordering]; rfl)

theorem precedes_iff {a b : Detection} : a.precedes b = true ↔ a.InOrder b := by
  rw [precedes, Ordering.isLE_then_iff_or, Span.compare_eq_iff, Std.LawfulBCmp.isLE_iff_le]
  exact Iff.rfl

end Detection

end LeakTrace
