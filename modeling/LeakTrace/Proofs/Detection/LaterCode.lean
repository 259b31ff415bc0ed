import LeakTrace.Proofs.Detection.Continuation

namespace LeakTrace

open List LeakTrace.Tree Detection RuleSet

namespace Pattern

/-- What a pattern finds at the program node: the node to report, and the captures. -/
def programMatch? (pattern : Pattern) (tree : Tree) : Option (NodeId × Captures) :=
  (pattern.matchAt? tree tree.root).map fun found => (found.node, found.captures)

variable {pattern : Pattern} {tree : Tree}

theorem root_of_matchAt? {id : NodeId} {found : Match} (fits : pattern.matchAt? tree id = some found) :
    found.root = id := by
  unfold matchAt? at fits
  split at fits
  · cases fits
  · obtain ⟨_, _, rfl⟩ := Option.map_eq_some_iff.1 fits
    rfl

theorem programMatch?_eq_some {node : NodeId} {captures : Captures} :
    pattern.programMatch? tree = some (node, captures) ↔
      pattern.matchAt? tree tree.root = some ⟨node, tree.root, captures⟩ := by
  rw [programMatch?, Option.map_eq_some_iff]
  constructor
  · rintro ⟨found, fits, same⟩
    obtain ⟨rfl, rfl⟩ := Prod.mk.inj same
    rw [fits, ← root_of_matchAt? fits]
  · exact fun fits => ⟨_, fits, rfl⟩

theorem matchesIn_eq (pattern : Pattern) (tree : Tree) :
    pattern.matchesIn tree = (pattern.matchAt? tree tree.root).toList ++
      (tree.below tree.root).filterMap (pattern.matchAt? tree) := by
  rw [matchesIn, matchesWithin, subtree_eq, filterMap_cons]
  cases pattern.matchAt? tree tree.root <;> rfl

end Pattern

/-- The match in a longer program. -/
def Match.moved (base more : Tree) (found : Match) : Match :=
  { found with root := base.site more found.root }

def Hit.moved (base more : Tree) (hit : Hit) : Hit :=
  { hit with found := hit.found.moved base more }

/-- Later code does not reach what the rule finds at the node: the program as a whole fits there as it
did before, and the matches that report the node lie in settled code. -/
structure Rule.Untouched (rule : Rule) (earlier later : Model) (node : NodeId) : Prop where
  inside : node < earlier.tree.root
  program : ∀ pattern ∈ rule.patternsFor earlier.tree.language, ∀ captures,
    pattern.pattern.programMatch? later.tree = some (node, captures) ↔
      pattern.pattern.programMatch? earlier.tree = some (node, captures)
  settled : ∀ hit ∈ rule.hits earlier.tree, hit.found.node = node →
    hit.found.Inside (earlier.Settled later)

/-- At the program node the match, if one is kept, is the same. -/
theorem Pattern.filter_programMatch {pattern : Pattern} {base more : Tree} {keep : NodeId → Bool}
    (program : ∀ node, keep node = true → ∀ captures,
      pattern.programMatch? more = some (node, captures) ↔
        pattern.programMatch? base = some (node, captures)) :
    (pattern.matchAt? more more.root).toList.filter (fun found => keep found.node) =
      ((pattern.matchAt? base base.root).toList.filter fun found => keep found.node).map
        (Match.moved base more) := by
  have moved (node : NodeId) (captures : Captures) :
      Match.moved base more ⟨node, base.root, captures⟩ = ⟨node, more.root, captures⟩ := by
    rw [Match.moved, site_root]
  simp only [programMatch?_eq_some] at program
  rw [← Option.toList_filter, ← Option.toList_filter, ← Option.toList_map]
  refine congrArg Option.toList (Option.ext fun found => ?_)
  simp only [Option.filter_eq_some_iff, Option.map_eq_some_iff]
  constructor
  · rintro ⟨fits, kept⟩
    obtain ⟨node, root, captures⟩ := found
    cases root_of_matchAt? fits
    exact ⟨_, ⟨(program node kept captures).1 fits, kept⟩, moved node captures⟩
  · rintro ⟨⟨node, root, captures⟩, ⟨fits, kept⟩, rfl⟩
    cases root_of_matchAt? fits
    rw [moved]
    exact ⟨(program node kept captures).2 fits, kept⟩

namespace Tree.Continues

variable {base more : Tree} {added : List NodeId} (continues : base.Continues more added)
  (grounded : base.Grounded) {pattern : Pattern} {keep : NodeId → Bool}

include continues grounded

/-- The matches at nodes that are kept are those of the shorter program. -/
theorem filter_matchesIn (inside : ∀ node, keep node = true → node < base.root)
    (program : ∀ node, keep node = true → ∀ captures,
      pattern.programMatch? more = some (node, captures) ↔
        pattern.programMatch? base = some (node, captures)) :
    (pattern.matchesIn more).filter (fun found => keep found.node) =
      ((pattern.matchesIn base).filter fun found => keep found.node).map (Match.moved base more) := by
  have old : (base.below base.root).filterMap (pattern.matchAt? more) =
      ((base.below base.root).filterMap (pattern.matchAt? base)).map (Match.moved base more) := by
    rw [map_filterMap]
    refine filterMap_congr fun id mem => ?_
    have below := lt_of_mem_below mem
    rw [continues.matchAt? grounded pattern below]
    cases fits : pattern.matchAt? base id with
    | none => rfl
    | some found =>
      rw [Option.map_some, Match.moved, Pattern.root_of_matchAt? fits, site_of_lt below,
        ← Pattern.root_of_matchAt? fits]
  -- A match below an added statement reports a node that stands there, and none of those is kept.
  have new : ((added.flatMap more.subtree).filterMap (pattern.matchAt? more)).filter
      (fun found => keep found.node) = [] := by
    rw [filter_eq_nil_iff]
    intro found mem kept
    obtain ⟨id, among, fits⟩ := mem_filterMap.1 mem
    obtain ⟨statement, isAdded, deeper⟩ := mem_flatMap.1 among
    have fresh : found.Inside (base.root ≤ ·) := Pattern.inside_matchAt? (fun inner further =>
      continues.fresh statement isAdded inner (mem_subtree_trans further deeper)) fits
    exact Nat.not_lt_of_le fresh.node (inside found.node kept)
  rw [Pattern.matchesIn_eq, Pattern.matchesIn_eq, continues.below_root, filterMap_append,
    filter_append, filter_append, filter_append, new, append_nil, old,
    map_append, Pattern.filter_programMatch program, filter_map]
  rfl

end Tree.Continues

theorem Rule.hits_eq (rule : Rule) (tree : Tree) :
    rule.hits tree = (rule.patternsFor tree.language).flatMap fun pattern =>
      (pattern.pattern.matchesIn tree).map fun found => { rule, pattern, found } := rfl

theorem RuleSet.reports_moved (set : RuleSet) (classifier : Classifier) (model : Model)
    (base more : Tree) (hit : Hit) :
    set.reports classifier model (hit.moved base more) = set.reports classifier model hit := by
  have accepts (fuel : Nat) :
      set.accepts model fuel hit.rule hit.pattern (hit.found.moved base more) =
        set.accepts model fuel hit.rule hit.pattern hit.found := by
    cases fuel <;> rfl
  exact congrArg (fun accepted => accepted && _ && _) (accepts set.size)

theorem RuleSet.map_filter_hits (set : RuleSet) (classifier : Classifier) (model : Model)
    (keep : Rule → NodeId → Bool) :
    ((set.hits classifier model).filter fun hit => keep hit.rule hit.found.node).map
        (Hit.detection classifier model) =
      (((set.speaking model.tree.language).flatMap fun rule =>
        (set.hitsOf classifier model rule).filter fun hit => keep rule hit.found.node).map
          (Hit.detection classifier model)).mergeSort precedes := by
  have rules : ∀ rule ∈ set.speaking model.tree.language,
      (set.hitsOf classifier model rule).filter (fun hit => keep hit.rule hit.found.node) =
        (set.hitsOf classifier model rule).filter fun hit => keep rule hit.found.node := by
    refine fun rule _ => filter_congr fun hit mem => ?_
    rw [(Rule.mem_hits.1 (mem_hitsOf.1 mem).mem).1]
  rw [hits, filter_mergeSort, map_mergeSort (s := precedes) (fun _ _ _ _ => rfl),
    filter_flatMap, flatMap_congr rules]
  · exact fun _ _ _ => precedes_trans _ _ _
  · exact fun _ _ => precedes_total _ _

namespace Pass.Continued

variable {base more : Tree} {added : List NodeId} {pass after : Pass}
  (continued : Continued base more added pass after) (grounded : base.Grounded) (set : RuleSet)
  (classifier : Classifier)

section

variable {rule : Rule} {keep : NodeId → Bool}
  (untouched : ∀ node, keep node = true → rule.Untouched (pass.model base) (after.model more) node)
include continued grounded untouched

theorem filter_hits :
    (rule.hits more).filter (fun hit => keep hit.found.node) =
      ((rule.hits base).filter fun hit => keep hit.found.node).map (Hit.moved base more) := by
  rw [Rule.hits_eq, Rule.hits_eq, continued.trees.language, filter_flatMap, filter_flatMap,
    map_flatMap]
  refine flatMap_congr fun pattern mem => ?_
  have same := continued.trees.filter_matchesIn grounded
    (fun node kept => (untouched node kept).inside)
    (fun node kept => (untouched node kept).program pattern mem)
  rw [filter_map, filter_map, map_map]
  exact (congrArg (map _) same).trans map_map

/-- The reported hits of a rule at nodes that later code does not reach are those of the shorter
program. -/
theorem filter_hitsOf :
    (set.hitsOf classifier (after.model more) rule).filter (fun hit => keep hit.found.node) =
      ((set.hitsOf classifier (pass.model base) rule).filter fun hit => keep hit.found.node).map
        (Hit.moved base more) := by
  have reports : ∀ hit ∈ (rule.hits base).filter (fun hit => keep hit.found.node),
      set.reports classifier (after.model more) (hit.moved base more) =
        set.reports classifier (pass.model base) hit := by
    intro hit mem
    obtain ⟨among, kept⟩ := mem_filter.1 mem
    rw [reports_moved]
    exact continued.reports grounded set classifier ((untouched _ kept).settled hit among rfl)
  have hits : ((rule.hits more).filter (set.reports classifier (after.model more))).filter
        (fun hit => keep hit.found.node) =
      (((rule.hits base).filter (set.reports classifier (pass.model base))).filter
        fun hit => keep hit.found.node).map (Hit.moved base more) := by
    rw [filter_comm, continued.filter_hits grounded untouched, filter_map]
    exact congrArg (map _) ((filter_congr reports).trans (filter_comm ..))
  have agree : ∀ a b : Hit, a.found.node = b.found.node → keep a.found.node = keep b.found.node :=
    fun _ _ same => congrArg keep same
  rw [hitsOf, hitsOf, filter_distinctBy fun a _ b _ => agree a b,
    filter_distinctBy fun a _ b _ => agree a b, model_tree, model_tree, hits, distinctBy_map]
  rfl

end

include continued grounded

theorem detections {keep : Rule → NodeId → Bool}
    (untouched : ∀ rule ∈ set.rules, ∀ node, keep rule node = true →
      rule.Untouched (pass.model base) (after.model more) node) :
    ((set.hits classifier (after.model more)).filter fun hit => keep hit.rule hit.found.node).map
        (Hit.detection classifier (after.model more)) =
      ((set.hits classifier (pass.model base)).filter fun hit => keep hit.rule hit.found.node).map
        (Hit.detection classifier (pass.model base)) := by
  rw [map_filter_hits, map_filter_hits, map_flatMap, map_flatMap, model_tree,
    model_tree, continued.trees.language]
  refine congrArg (·.mergeSort precedes) (flatMap_congr fun rule mem => ?_)
  have kept := untouched rule (mem_speaking.1 mem).1
  rw [continued.filter_hitsOf grounded set classifier kept, map_map]
  refine map_congr_left fun hit among => ?_
  obtain ⟨reported, passes⟩ := mem_filter.1 among
  have same := continued.detection grounded classifier
    ((kept _ passes).settled hit (mem_hitsOf.1 reported).mem rfl)
  exact same

end Pass.Continued

namespace Model

/-- A node and its counterpart in another model stand for the same, have the same shape, and see the same
fields of all that can be read there. -/
structure KnownAlike (earlier later : Model) (node site : NodeId) : Prop where
  resolution : later.resolution site = earlier.resolution node
  chain : later.chain? site = earlier.chain? node
  epoch : later.epochOf site = earlier.epochOf node
  shape : later.shapeOf? site = earlier.shapeOf? node
  fields : ∀ shape, earlier.Reads node shape →
    later.shapes.visibleFields shape (later.epochOf site) =
      earlier.shapes.visibleFields shape (earlier.epochOf node)

/-- The values that are read at a node and at its counterpart are of one kind, have the same text, and
are judged alike. -/
structure JudgedAlike (earlier later : Model) (node site : NodeId) : Prop where
  text : later.stringValue? site = earlier.stringValue? node
  kind : ∀ shape, earlier.Reads node shape →
    ∃ old new, earlier.shapes.get? shape = some old ∧ later.shapes.get? shape = some new ∧
      new.objectName? = old.objectName? ∧ new.isObject = old.isObject ∧
        (old.isObject = false → new = old)
  judged : ∀ shape, earlier.Reads node shape → ∀ (classifier : Classifier) name subject,
    classifier.ofShape later.shapes (later.epochOf site) name shape subject =
      classifier.ofShape earlier.shapes (earlier.epochOf node) name shape subject

end Model

namespace Pass.Continued

variable {base more : Tree} {added : List NodeId} {pass after : Pass} {node : NodeId}
  (continued : Continued base more added pass after)
include continued

variable (inside : node ≤ base.root)
include inside

theorem knownAlike : (pass.model base).KnownAlike (after.model more) node (base.site more node) where
  resolution := continued.resolution inside
  chain := continued.chain? inside
  epoch := continued.epochOf inside
  shape := continued.shapeOf? inside
  fields := fun shape reads => by
    rw [continued.epochOf inside]
    exact continued.visibleFields reads

theorem stringValue? (steady : (pass.model base).Steady (after.model more) node) :
    (after.model more).stringValue? (base.site more node) = (pass.model base).stringValue? node := by
  rcases Nat.lt_or_eq_of_le inside with below | rfl
  · rw [site_of_lt below, continued.stringValue?_of_lt below steady]
  · simp only [site_root, Model.stringValue?_eq, model_tree, concatenation,
      continued.trees.program, continued.trees.programMore]

theorem judgedAlike (steady : (pass.model base).Steady (after.model more) node) :
    (pass.model base).JudgedAlike (after.model more) node (base.site more node) where
  text := continued.stringValue? inside steady
  kind := fun shape reads => continued.get? (held_of_reads continued.sound reads)
    (steady node (base.mem_subtree_self node) shape reads)
  judged := fun shape reads classifier name subject => by
    rw [continued.epochOf inside]
    exact continued.ofShape reads (steady node (base.mem_subtree_self node)) classifier name subject

end Pass.Continued

variable {earlier later : Model}

/-- Where later code turns nothing into an object, everything is steady. -/
theorem Model.steady_of_isObject {tree : Tree} {blocks : Bool} {limits : Limits}
    (analysed : ofTree tree blocks limits = .ok earlier)
    (same : ∀ shape < earlier.shapes.size, later.shapes.isObject shape = earlier.shapes.isObject shape)
    (node : NodeId) : earlier.Steady later node := by
  obtain ⟨pass, run, rfl⟩ := ofTree_eq_ok.1 analysed
  have sound := (Pass.within_run run).sound Pass.sound_start
  exact fun inner _ shape reads => same shape (Pass.Continued.held_of_reads sound reads)

theorem Rule.untouched_of_apart {rule : Rule} (apart : ∀ pattern ∈ rule.patternsFor earlier.tree.language,
      pattern.pattern.programMatch? earlier.tree = none ∧
        pattern.pattern.programMatch? later.tree = none)
    (steady : ∀ node, earlier.Steady later node) {node : NodeId} (inside : node < earlier.tree.root) :
    rule.Untouched earlier later node := by
  refine ⟨inside, fun pattern mem captures => ?_, fun hit mem _ => ?_⟩
  · obtain ⟨before, after⟩ := apart pattern mem
    rw [before, after]
  obtain ⟨_, pattern, root, among, fits⟩ := Rule.mem_hits.1 mem
  rw [subtree_eq, mem_cons] at among
  rcases among with rfl | deeper
  · have none := (apart hit.pattern pattern).1
    rw [Pattern.programMatch?, fits] at none
    cases none
  · have below := lt_of_mem_below deeper
    exact Pattern.inside_matchAt? (fun inner further =>
      ⟨Nat.lt_of_le_of_lt (le_of_mem_subtree further) below, steady inner⟩) fits

/-- Code that is added at the end of a program leaves what is known of the code before it. What is judged
of a value stays unless the value becomes an object, and what is detected at a node stays unless the
program as a whole fits there in another way or such a value is read. -/
theorem Model.later_code_unseen {base more : Tree} {added : List NodeId} {blocks : Bool}
    {limits limitsMore : Limits} {earlier later : Model} (continues : base.Continues more added)
    (analysed : ofTree base blocks limits = .ok earlier)
    (analysedMore : ofTree more blocks limitsMore = .ok later) :
    (∀ node ≤ base.root, earlier.KnownAlike later node (base.site more node)) ∧
    (∀ node ≤ base.root, earlier.Steady later node →
      earlier.JudgedAlike later node (base.site more node)) ∧
    ∀ (set : RuleSet) (classifier : Classifier),
      set.detect classifier earlier =
        (set.hits classifier earlier).map (Hit.detection classifier earlier) ∧
      set.detect classifier later =
        (set.hits classifier later).map (Hit.detection classifier later) ∧
      (base.Grounded → ∀ keep : Rule → NodeId → Bool,
        (∀ rule ∈ set.rules, ∀ node, keep rule node = true → rule.Untouched earlier later node) →
        ((set.hits classifier later).filter fun hit => keep hit.rule hit.found.node).map
            (Hit.detection classifier later) =
          ((set.hits classifier earlier).filter fun hit => keep hit.rule hit.found.node).map
            (Hit.detection classifier earlier)) := by
  obtain ⟨pass, run, rfl⟩ := ofTree_eq_ok.1 analysed
  obtain ⟨after, runMore, rfl⟩ := ofTree_eq_ok.1 analysedMore
  have continued := Pass.continued_run continues run runMore
  exact ⟨fun _ inside => continued.knownAlike inside, fun _ inside => continued.judgedAlike inside,
    fun set classifier => ⟨detect_eq, detect_eq,
      fun grounded _ => continued.detections grounded set classifier⟩⟩

/-- A script that passes an object, and one that goes on to write to it. -/
def passing : Tree := Script.tree "call.js" "const o = { a: b };\nf(o);\n"

def passingThenWriting : Tree := Script.tree "call.js" "const o = { a: b };\nf(o);\no.c = d;\n"

/-- A later write to a field of an object is not seen where the object was passed before. -/
theorem Model.later_code_unseen_field :
    ∃ set earlier later, ofDrafts [narrowThenWide] = .ok set ∧
      ofTree passing false {} = .ok earlier ∧ ofTree passingThenWriting false {} = .ok later ∧
      passing.Continues passingThenWriting [17] ∧ passing.Grounded ∧
      earlier.KnownAlike later 8 8 ∧ earlier.JudgedAlike later 8 8 ∧
      (set.detect plainClassifier earlier).map captures = [[("X", "o")]] ∧
      ((set.hits plainClassifier later).filter fun hit => hit.found.node < 12).map
          (Hit.detection plainClassifier later) =
        ((set.hits plainClassifier earlier).filter fun hit => hit.found.node < 12).map
          (Hit.detection plainClassifier earlier) := by
  obtain ⟨set, loaded, earlier, analysed, later, analysedMore, objects, apart, captures⟩ :
      ∃ set, ofDrafts [narrowThenWide] = .ok set ∧ ∃ earlier, ofTree passing false {} = .ok earlier ∧
      ∃ later, ofTree passingThenWriting false {} = .ok later ∧
      (∀ shape < earlier.shapes.size, later.shapes.isObject shape = earlier.shapes.isObject shape) ∧
      (∀ rule ∈ set.rules, ∀ pattern ∈ rule.patternsFor earlier.tree.language,
        pattern.pattern.programMatch? earlier.tree = none ∧ pattern.pattern.programMatch? later.tree = none) ∧
      (set.detect plainClassifier earlier).map captures = [[("X", "o")]] := by
    decide +kernel
  have trees : passing.Continues passingThenWriting [17] := by decide +kernel
  have grounded : passing.Grounded := by decide +kernel
  have site : passing.root = 12 ∧ passing.site passingThenWriting 8 = 8 := by decide +kernel
  have steady := steady_of_isObject analysed objects
  obtain ⟨known, judged, detections⟩ := later_code_unseen trees analysed analysedMore
  have inside : 8 ≤ passing.root := by rw [site.1]; decide
  have knownHere := known 8 inside
  have judgedHere := judged 8 inside (steady 8)
  rw [site.2] at knownHere judgedHere
  refine ⟨set, earlier, later, loaded, analysed, analysedMore, trees, grounded, knownHere, judgedHere,
    captures, ?_⟩
  refine (detections set plainClassifier).2.2 grounded (fun _ node => node < 12) ?_
  intro rule member node kept
  refine Rule.untouched_of_apart (apart rule member) steady ?_
  rw [tree_of_ofTree analysed, site.1]
  exact of_decide_eq_true kept

end LeakTrace
