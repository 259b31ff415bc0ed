import LeakTrace.Proofs.Detection.Listing
import LeakTrace.Proofs.Rule.Acceptance

namespace LeakTrace

open List Detection

/-- A match of a pattern of a rule. -/
structure Hit where
  rule : Rule
  pattern : RulePattern
  found : Match

variable {rule : Rule} {hit : Hit}

/-- What is reported of the hit. -/
def Hit.detection (classifier : Classifier) (model : Model) (hit : Hit) : Detection :=
  RuleSet.detectionOf model hit.rule hit.pattern hit.found
    (RuleSet.exposuresOf classifier model hit.rule hit.found)

/-- All matches of a rule in a tree: its patterns in their order, and for each of them the nodes of
the tree from the root on, every node before those below it. -/
def Rule.hits (rule : Rule) (tree : Tree) : List Hit :=
  (rule.patternsFor tree.language).flatMap fun pattern =>
    ((tree.subtree tree.root).filterMap (pattern.pattern.matchAt? tree)).map fun found =>
      { rule, pattern, found }

theorem Rule.mem_hits {tree : Tree} :
    hit ∈ rule.hits tree ↔ hit.rule = rule ∧ hit.pattern ∈ rule.patternsFor tree.language ∧
      ∃ root ∈ tree.subtree tree.root, hit.pattern.pattern.matchAt? tree root = some hit.found := by
  simp only [Rule.hits, mem_flatMap, mem_map, mem_filterMap]
  constructor
  · rintro ⟨pattern, mem, found, ⟨root, inside, fits⟩, rfl⟩
    exact ⟨rfl, mem, root, inside, fits⟩
  · rintro ⟨rfl, mem, root, inside, fits⟩
    exact ⟨hit.pattern, mem, hit.found, ⟨root, inside, fits⟩, rfl⟩

namespace RuleSet

/-- The match passes all filters of its pattern, where those that ask for other rules ask for
accepted matches, and its rule's sanitizer has no accepted match at the same node. -/
structure Clear (set : RuleSet) (model : Model) (hit : Hit) : Prop where
  filters : ∀ filter ∈ hit.pattern.filters,
    filter.evaluate
      { model, captures := hit.found.captures, file := model.tree.file,
        detects := some (set.detectsWithin model) } = some true
  unsanitized : ∀ sanitizer, hit.rule.sanitizer.bind set.get? = some sanitizer →
    ∀ pattern ∈ sanitizer.patternsFor model.tree.language, ∀ found,
      pattern.pattern.matchAt? model.tree hit.found.node = some found →
        set.accepts model set.size sanitizer pattern found = false

/-- The match is to be reported: it is clear, no comment switches its rule off there, and it has
sensitive data if its rule asks for that. -/
structure Reports (set : RuleSet) (classifier : Classifier) (model : Model) (hit : Hit) : Prop where
  clear : set.Clear model hit
  unsuppressed : model.isSuppressed hit.found.node hit.rule.id = false
  exposing : hit.rule.requiresDataTypes = true →
    exposuresOf classifier model hit.rule hit.found ≠ []

/-- The rules whose matches in a file are reported. -/
def speaking (set : RuleSet) (language : Language) : List Rule :=
  (set.forLanguage language).filter fun rule => !rule.auxiliary

variable {set : RuleSet} {classifier : Classifier} {model : Model}

theorem mem_speaking {language : Language} : rule ∈ set.speaking language ↔
      rule ∈ set.rules ∧ rule.appliesTo language = true ∧ rule.auxiliary = false := by
  simp only [speaking, forLanguage, mem_filter, Bool.not_eq_true', and_assoc]

/-- Whether the match leads to a detection. -/
def reports (set : RuleSet) (classifier : Classifier) (model : Model) (hit : Hit) : Bool :=
  set.accepts model set.size hit.rule hit.pattern hit.found &&
    !model.isSuppressed hit.found.node hit.rule.id &&
    !(hit.rule.requiresDataTypes && (exposuresOf classifier model hit.rule hit.found).isEmpty)

theorem detection?_eq (hit : Hit) :
    set.detection? classifier model hit.rule hit.pattern hit.found =
      if set.reports classifier model hit then some (hit.detection classifier model) else none := by
  unfold detection?
  by_cases passes : set.reports classifier model hit = true
  · rw [if_pos passes]
    simp only [reports, Bool.and_eq_true, Bool.not_eq_true'] at passes
    rw [passes.1.1, passes.1.2, if_neg (by decide)]
    exact if_neg (by rw [passes.2]; decide)
  rw [if_neg passes]
  simp only [reports, Bool.and_eq_true, Bool.not_eq_true', not_and, Bool.not_eq_false] at passes
  split
  · rfl
  · rename_i kept
    simp only [Bool.or_eq_true, Bool.not_eq_true', not_or, Bool.not_eq_true,
      Bool.not_eq_false] at kept
    exact if_pos (by simpa using passes kept)

/-- The hits of one rule that are reported: for each node the first one. -/
def hitsOf (set : RuleSet) (classifier : Classifier) (model : Model) (rule : Rule) : List Hit :=
  distinctBy (fun hit => hit.found.node) []
    ((rule.hits model.tree).filter (set.reports classifier model))

/-- One round of the loop over the hits, which keeps the nodes that have a report and the detections,
last first. -/
def emit (set : RuleSet) (classifier : Classifier) (model : Model) :
    List NodeId × List Detection → Hit → List NodeId × List Detection
  | (seen, detections), hit =>
    if seen.contains hit.found.node then (seen, detections)
    else match set.detection? classifier model hit.rule hit.pattern hit.found with
      | some detection => (hit.found.node :: seen, detection :: detections)
      | none => (seen, detections)

theorem foldl_emit (hits : List Hit) (seen : List NodeId) (detections : List Detection) :
    (hits.foldl (set.emit classifier model) (seen, detections)).2 =
      ((distinctBy (fun hit => hit.found.node) seen
        (hits.filter (set.reports classifier model))).map (Hit.detection classifier model)).reverse ++
        detections := by
  induction hits generalizing seen detections with
  | nil => rfl
  | cons hit rest ih =>
    rw [foldl_cons, emit, detection?_eq, filter_cons]
    cases set.reports classifier model hit with
    | false => cases seen.contains hit.found.node <;> exact ih seen detections
    | true =>
      rw [if_pos rfl, if_pos rfl, distinctBy]
      cases seen.contains hit.found.node with
      | true => exact ih seen detections
      | false =>
        simp only [Bool.false_eq_true, if_false, map_cons, reverse_cons, append_assoc]
        exact ih _ _

theorem detectionsOf_eq (rule : Rule) :
    set.detectionsOf classifier model rule =
      (set.hitsOf classifier model rule).map (Hit.detection classifier model) := by
  have loop : ((rule.hits model.tree).foldl (set.emit classifier model) ([], [])).2 =
      ((set.hitsOf classifier model rule).map (Hit.detection classifier model)).reverse ++ [] :=
    foldl_emit _ _ _
  have candidates : rule.hits model.tree =
      ((rule.patternsFor model.tree.language).flatMap fun pattern =>
        (pattern.pattern.matchesIn model.tree).map fun found => (pattern, found)).map
          fun candidate => ⟨rule, candidate.1, candidate.2⟩ := by
    simp only [Rule.hits, map_flatMap, map_map]
    rfl
  rw [append_nil, candidates, foldl_map] at loop
  rw [← reverse_reverse (map _ _), ← loop]
  rfl

/-- The hits that are reported for a file, in the order of the report. -/
def hits (set : RuleSet) (classifier : Classifier) (model : Model) : List Hit :=
  ((set.speaking model.tree.language).flatMap (set.hitsOf classifier model)).mergeSort fun a b =>
    (a.detection classifier model).precedes (b.detection classifier model)

theorem detect_eq :
    set.detect classifier model =
      (set.hits classifier model).map (Hit.detection classifier model) := by
  have each : set.detectionsOf classifier model = fun rule =>
      (set.hitsOf classifier model rule).map (Hit.detection classifier model) :=
    funext detectionsOf_eq
  rw [hits, map_mergeSort (s := precedes) (fun _ _ _ _ => rfl), map_flatMap,
    ← each]
  rfl

theorem mem_hitsOf : hit ∈ set.hitsOf classifier model rule ↔
      First (fun hit => hit.found.node) (set.reports classifier model) (rule.hits model.tree) hit := by
  rw [hitsOf, mem_distinctBy_filter]
  simp

theorem mem_hits : hit ∈ set.hits classifier model ↔ hit.rule ∈ set.speaking model.tree.language ∧
      First (fun hit => hit.found.node) (set.reports classifier model)
        (hit.rule.hits model.tree) hit := by
  rw [hits, (mergeSort_perm _ _).mem_iff, mem_flatMap]
  simp only [mem_hitsOf]
  constructor
  · rintro ⟨rule, speaking, first⟩
    obtain ⟨rfl, _⟩ := Rule.mem_hits.1 first.mem
    exact ⟨speaking, first⟩
  · exact fun ⟨speaking, first⟩ => ⟨hit.rule, speaking, first⟩

/-- The hits are those that a file's report is made of: the accepted matches, once each. -/
structure Reported (set : RuleSet) (classifier : Classifier) (model : Model) (hits : List Hit) :
    Prop where
  detections : set.detect classifier model = hits.map (Hit.detection classifier model)
  inOrder : (set.detect classifier model).Pairwise InOrder
  once : hits.Pairwise fun a b => ¬(a.rule.id = b.rule.id ∧ a.found.node = b.found.node)
  speaking : ∀ hit ∈ hits, hit.rule ∈ set.rules ∧
    hit.rule.appliesTo model.tree.language = true ∧ hit.rule.auxiliary = false
  /-- A rule has a report at a node exactly if one of its matches there is to be reported. -/
  complete : ∀ rule ∈ set.rules, rule.appliesTo model.tree.language = true →
    rule.auxiliary = false → ∀ node,
      (∃ hit ∈ hits, hit.rule = rule ∧ hit.found.node = node) ↔
        ∃ pattern ∈ rule.patternsFor model.tree.language,
          ∃ root ∈ model.tree.subtree model.tree.root,
            ∃ found, pattern.pattern.matchAt? model.tree root = some found ∧ found.node = node ∧
              set.Reports classifier model { rule, pattern, found }
  /-- The report is that of the first such match. -/
  first : ∀ hit ∈ hits, set.Reports classifier model hit ∧
    ∃ before after, hit.rule.hits model.tree = before ++ hit :: after ∧
      ∀ earlier ∈ before, earlier.found.node = hit.found.node →
        ¬set.Reports classifier model earlier
  /-- What filters and sanitizers take for an accepted match is a clear one. -/
  accepted : ∀ hit : Hit, hit.rule ∈ set.rules → hit.pattern ∈ hit.rule.patterns →
    (set.accepts model set.size hit.rule hit.pattern hit.found = true ↔ set.Clear model hit)

/-- A rule whose first pattern turns away calls that its second one takes. -/
def narrowThenWide : RuleDraft where
  id := "call"
  title := "A call"
  description := "Any call of the function."
  severity := .low
  languages := ["javascript"]
  patterns := [
    { pattern := "f($<X>)", filters := [{ capture := "X", values := ["b"] }] },
    { pattern := "f($<X>)" }]

/-- What a classifier without any sort of data sees. -/
def plainClassifier : Classifier where
  catalog :=
    { entries := []
      knownObjects := []
      stopWords := []
      vendorDirectories := []
      fallbackOnUnresolved := true
      isIdentifier := fun _ => false }
  depth := 1

end RuleSet

end LeakTrace
