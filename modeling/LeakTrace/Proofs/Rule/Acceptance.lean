import LeakTrace.Detection
import LeakTrace.Proofs.Rule.Cycle

namespace LeakTrace

open List

variable {first second : FilterScene} {test judge : Rule → RulePattern → Match → Bool} {pattern : RulePattern}

/-- Two scenes in which filters see the same if they ask for nothing else than such rules at such captures. -/
structure FilterScene.Alike (first second : FilterScene) (Asks : String → String → Prop) : Prop where
  captures : second.captures = first.captures
  file : second.file = first.file
  content : ∀ capture, second.content? capture = first.content? capture
  string : ∀ capture, second.string? capture = first.string? capture
  detects : ∀ capture rule, Asks capture rule → ∀ node, first.captures.get? capture = some node →
    second.detects.map (· rule node) = first.detects.map (· rule node)

theorem FilterScene.Alike.mono {Asks More : String → String → Prop} (alike : first.Alike second More)
    (more : ∀ capture rule, Asks capture rule → More capture rule) : first.Alike second Asks :=
  { alike with detects := fun capture rule asks => alike.detects capture rule (more capture rule asks) }

mutual

/-- A filter asks other rules only where one of its parts is about them, and at the node that the part
names. -/
theorem Filter.evaluate_congr : (filter : Filter) →
    first.Alike second (fun capture rule => Filter.Contains (.detection capture rule) filter) →
    filter.evaluate second = filter.evaluate first
  | .not inner, alike => by
    have same := inner.evaluate_congr (alike.mono fun _ _ => .not)
    simp only [Filter.evaluate, same]
  | .either choices, alike => by
    have same := choices.any_congr (alike.mono fun _ _ => .either)
    simp only [Filter.evaluate, same]
  | .fileName _, alike => by simp only [Filter.evaluate, alike.file]
  | .values _ _, alike => by simp only [Filter.evaluate, alike.content]
  | .regex _ _, alike => by simp only [Filter.evaluate, alike.content]
  | .stringRegex _ _, alike => by simp only [Filter.evaluate, alike.string]
  | .shorterThan _ _, alike => by simp only [Filter.evaluate, alike.string]
  | .compare _ _ _, alike => by simp only [Filter.evaluate, alike.content]
  | .detection capture rule, alike => by
    simp only [Filter.evaluate, alike.captures]
    refine Option.bind_congr fun node found => ?_
    have same := alike.detects capture rule .self node found
    rwa [Option.map_eq_bind, Option.map_eq_bind] at same

theorem Filters.any_congr : (filters : Filters) →
    first.Alike second (fun capture rule => Filters.Contains (.detection capture rule) filters) →
    filters.any second = filters.any first
  | .none, _ => rfl
  | .some filter rest, alike => by
    have head := filter.evaluate_congr (alike.mono fun _ _ => .first)
    have tail := rest.any_congr (alike.mono fun _ _ => .later)
    simp only [Filters.any, head, tail]

end

theorem FilterScene.passes_congr {filters : List Filter} (alike : first.Alike second fun capture rule =>
      ∃ filter ∈ filters, Filter.Contains (.detection capture rule) filter) :
    second.passes filters = first.passes filters := by
  rw [Bool.eq_iff_iff, passes, passes, all_eq_true, all_eq_true]
  refine forall₂_congr fun filter mem => ?_
  have same : filter.evaluate second = filter.evaluate first :=
    filter.evaluate_congr (alike.mono fun _ _ inside => ⟨filter, mem, inside⟩)
  rw [same]

theorem any_congr_of_mem {α : Type} {items : List α} {first second : α → Bool}
    (agree : ∀ item ∈ items, first item = second item) : items.any first = items.any second := by
  induction items with
  | nil => rfl
  | cons item rest ih =>
    rw [any_cons, any_cons, agree item mem_cons_self,
      ih fun other mem => agree other (.tail _ mem)]

namespace RuleSet

variable (set : RuleSet) (model : Model)

/-- Whether a rule has a match at the node or below it that the test accepts. -/
def findsWithin (test : Rule → RulePattern → Match → Bool) (id : String) (node : NodeId) : Bool :=
  match set.get? id with
  | none => false
  | some other => (other.patternsFor model.tree.language).any fun pattern =>
    (pattern.pattern.matchesWithin model.tree node).any fun found => test other pattern found

/-- Whether the sanitizer of a rule has a match at the node that the test accepts. -/
def sanitizedAt (test : Rule → RulePattern → Match → Bool) (rule : Rule) (node : NodeId) : Bool :=
  match rule.sanitizer.bind set.get? with
  | none => false
  | some other => (other.patternsFor model.tree.language).any fun pattern =>
    (pattern.pattern.matchAt? model.tree node).any fun found => test other pattern found

/-- What the filters of a match see when other rules are judged by the test. -/
def sceneOf (test : Rule → RulePattern → Match → Bool) (found : Match) : FilterScene :=
  { model, captures := found.captures, file := model.tree.file,
    detects := some (set.findsWithin model test) }

/-- Whether a match is accepted when those of other rules are judged by the test. -/
def acceptsBy (test : Rule → RulePattern → Match → Bool) (rule : Rule) (pattern : RulePattern)
    (found : Match) : Bool :=
  (set.sceneOf model test found).passes pattern.filters && !set.sanitizedAt model test rule found.node

theorem accepts_succ (fuel : Nat) :
    set.accepts model (fuel + 1) = set.acceptsBy model (set.accepts model fuel) := rfl

variable {set model} {rule : Rule} {id : String} {fuel : Nat}

/-- The rules whose matches decide over a match of the pattern. -/
def asks (rule : Rule) (pattern : RulePattern) : List String :=
  rule.sanitizer.toList ++ pattern.filters.flatMap Filter.references

theorem asks_subset_references (mem : pattern ∈ rule.patterns) :
    ∀ next ∈ asks rule pattern, next ∈ rule.references := by
  intro next among
  rw [Rule.references, mem_eraseDups, mem_append]
  rcases mem_append.1 among with sanitizer | filter
  · exact .inl sanitizer
  · exact .inr (mem_flatMap.2 ⟨pattern, mem, filter⟩)

/-- Two sets have the same patterns under a name, and judge their matches alike. -/
def Alike (set other : RuleSet) (test judge : Rule → RulePattern → Match → Bool) (id : String) :
    Prop :=
  match set.get? id, other.get? id with
  | none, none => True
  | some rule, some twin =>
    rule.patterns = twin.patterns ∧ ∀ pattern ∈ rule.patterns, test rule pattern = judge twin pattern
  | _, _ => False

theorem alike_self
    (agree : ∀ rule, set.get? id = some rule → ∀ pattern ∈ rule.patterns,
      test rule pattern = judge rule pattern) : Alike set set test judge id := by
  unfold Alike
  cases found : set.get? id with
  | none => trivial
  | some rule => exact ⟨rfl, agree rule found⟩

variable {other : RuleSet}

/-- Under a name that is alike, any search over the matches of its patterns ends alike. -/
theorem Alike.any_eq (alike : Alike set other test judge id) (language : Language)
    (places : RulePattern → List Match) :
    ((set.get? id).any fun rule => (rule.patternsFor language).any fun pattern =>
        (places pattern).any (test rule pattern)) =
      ((other.get? id).any fun rule => (rule.patternsFor language).any fun pattern =>
        (places pattern).any (judge rule pattern)) := by
  unfold Alike at alike
  split at alike
  · rename_i first second
    rw [first, second]
    rfl
  · rename_i rule twin first second
    obtain ⟨patterns, agree⟩ := alike
    rw [first, second, Option.any_some, Option.any_some, Rule.patternsFor, Rule.patternsFor,
      ← patterns]
    refine any_congr_of_mem fun pattern mem => ?_
    rw [agree pattern (mem_filter.1 mem).1]
  · exact alike.elim

theorem findsWithin_eq (id : String) (node : NodeId) :
    set.findsWithin model test id node = (set.get? id).any fun rule =>
      (rule.patternsFor model.tree.language).any fun pattern =>
        (pattern.pattern.matchesWithin model.tree node).any (test rule pattern) := by
  unfold findsWithin
  cases set.get? id <;> rfl

theorem sanitizedAt_eq (rule : Rule) (node : NodeId) :
    set.sanitizedAt model test rule node = rule.sanitizer.any fun id => (set.get? id).any fun rule =>
      (rule.patternsFor model.tree.language).any fun pattern =>
        (pattern.pattern.matchAt? model.tree node).toList.any (test rule pattern) := by
  unfold sanitizedAt
  cases rule.sanitizer with
  | none => rfl
  | some id =>
    simp only [Option.bind_some, Option.any_some]
    cases set.get? id with
    | none => rfl
    | some sanitizer =>
      refine any_congr_of_mem fun pattern _ => ?_
      cases pattern.pattern.matchAt? model.tree node <;> simp

/-- Acceptance depends on the matches of the rules asked for alone. -/
theorem acceptsBy_congr {twin : Rule} (sanitizer : rule.sanitizer = twin.sanitizer)
    (alike : ∀ id ∈ asks rule pattern, Alike set other test judge id) :
    set.acceptsBy model test rule pattern = other.acceptsBy model judge twin pattern := by
  funext found
  have filters : (set.sceneOf model test found).passes pattern.filters =
      (other.sceneOf model judge found).passes pattern.filters := by
    refine FilterScene.passes_congr ⟨rfl, rfl, fun _ => rfl, fun _ => rfl, ?_⟩
    rintro capture id ⟨filter, mem, inside⟩ node _
    have reference := mem_flatMap.2 ⟨filter, mem, filter.mem_references.2 ⟨capture, inside⟩⟩
    simp only [sceneOf, Option.map_some, findsWithin_eq]
    exact congrArg some ((alike id (mem_append_right _ reference)).any_eq _ _)
  have sanitized : set.sanitizedAt model test rule found.node =
      other.sanitizedAt model judge twin found.node := by
    rw [sanitizedAt_eq, sanitizedAt_eq, ← sanitizer]
    cases named : rule.sanitizer with
    | none => rfl
    | some id =>
      exact (alike id (mem_append_left _ (Option.mem_toList.2 named))).any_eq _ _
  simp only [acceptsBy, filters, sanitized]

/-- More fuel than there are rules to ask for changes nothing. -/
theorem accepts_stable (distinct : set.ids.Nodup) {order : List String} (ordered : set.Ordered order)
    (inside : ∀ next ∈ asks rule pattern, next ∈ order) {more : Nat}
    (enough : order.length < fuel) (alsoEnough : order.length < more) :
    set.accepts model fuel rule pattern = set.accepts model more rule pattern := by
  induction fuel generalizing more order rule pattern with
  | zero => omega
  | succ fuel ih =>
    obtain ⟨more, rfl⟩ : ∃ less, more = less + 1 := ⟨more - 1, by omega⟩
    refine acceptsBy_congr rfl fun next mem => alike_self fun asked atNext part among => ?_
    obtain ⟨rest, suffix, restOrdered, closed⟩ := ordered.behind (inside next mem)
    have shorter : rest.length < order.length := suffix.length_le
    obtain ⟨_, rfl⟩ := mem_of_get? atNext
    have references := referencesOf_of_mem distinct (mem_of_get? atNext).1
    refine ih restOrdered (fun reference needed => closed reference ?_) (by omega) (by omega)
    rw [references]
    exact asks_subset_references among reference needed

/-- In a set whose references make no cycle, as much fuel as there are rules is enough. -/
theorem Stratified.accepts_fuel (stratified : set.Stratified) (mem : rule ∈ set.rules)
    (among : pattern ∈ rule.patterns) (enough : set.size ≤ fuel) :
    set.accepts model set.size rule pattern = set.accepts model fuel rule pattern := by
  obtain ⟨order, ordered, same⟩ := stratified.order
  obtain ⟨rest, suffix, restOrdered, closed⟩ :=
    ordered.behind ((same rule.id).2 (mem_map_of_mem mem))
  have shorter : rest.length < order.length := suffix.length_le
  rw [stratified.length_order ordered same] at shorter
  refine accepts_stable stratified.distinct restOrdered (fun next needed => closed next ?_) shorter
    (by omega)
  rw [referencesOf_of_mem stratified.distinct mem]
  exact asks_subset_references among next needed

/-- Acceptance is what the filters and the sanitizer say when other rules are judged by acceptance
itself. -/
theorem Stratified.accepts_eq (stratified : set.Stratified) (mem : rule ∈ set.rules)
    (among : pattern ∈ rule.patterns) : set.accepts model set.size rule pattern =
      set.acceptsBy model (set.accepts model set.size) rule pattern := by
  exact stratified.accepts_fuel mem among (Nat.le_succ _)

end RuleSet

end LeakTrace
