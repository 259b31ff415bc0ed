import LeakTrace.Proofs.Detection.Hits
import LeakTrace.Proofs.Flow.Continued
import LeakTrace.Proofs.Pattern.Locality

namespace LeakTrace

open List LeakTrace.Tree RuleSet

theorem Model.statementOf_eq (model : Model) (node : NodeId) :
    model.statementOf node = match model.tree.parent node with
      | none => node
      | some parent => match model.tree.kind parent with
        | .program | .block => node
        | _ => model.statementOf parent := by
  rw [statementOf]
  cases model.tree.parent node <;> rfl

namespace Pass.Continued

variable {base more : Tree} {added : List NodeId} {pass after : Pass} {node : NodeId}
  (continued : Continued base more added pass after)
include continued

/-- The statement around a node stays, and it stands directly in a program or block. -/
theorem statementOf (inside : node < base.root) :
    (after.model more).statementOf node = (pass.model base).statementOf node ∧
      (pass.model base).statementOf node < base.root ∧
      ∀ parent ∈ base.parent ((pass.model base).statementOf node),
        base.kind parent = .program ∨ base.kind parent = .block := by
  have above := continued.trees.parent inside
  fun_induction Model.statementOf (pass.model base) node with
  | case1 node top =>
    have top : base.parent node = none := top
    rw [top] at above
    rw [Model.statementOf_eq, show (after.model more).tree.parent node = none from above]
    exact ⟨rfl, inside, by rw [top]; nofun⟩
  | case2 node parent link kind | case3 node parent link kind =>
    have link : base.parent node = some parent := link
    have kindMore := continued.trees.kind_site (le_root_of_parent continued.trees.last link).2
    rw [link] at above
    rw [show base.kind parent = _ from kind] at kindMore
    rw [Model.statementOf_eq, show (after.model more).tree.parent node = _ from above]
    simp only [Option.map_some, show (after.model more).tree.kind _ = _ from kindMore]
    refine ⟨trivial, inside, ?_⟩
    rw [link]
    rintro _ ⟨⟩
    simp only [show base.kind parent = _ from kind, true_or, or_true]
  | case4 node parent link program block ih =>
    have link : base.parent node = some parent := link
    have bound := (le_root_of_parent continued.trees.last link).2
    have other : parent ≠ base.root := fun same => program (same ▸ continued.trees.program)
    have below : parent < base.root := Nat.lt_of_le_of_ne bound other
    have kindMore := continued.trees.kind below
    rw [link, Option.map_some, site_of_lt below] at above
    rw [Model.statementOf_eq, show (after.model more).tree.parent node = _ from above]
    simp only []
    split
    · rename_i kind
      exact absurd (kindMore.symm.trans kind) program
    · rename_i kind
      exact absurd (kindMore.symm.trans kind) block
    · exact ih below (continued.trees.parent below)

theorem className? (inside : node < base.root) :
    (after.model more).className? node = (pass.model base).className? node := by
  have ancestors := continued.trees.ancestors (Nat.le_of_lt inside)
  have bounds : ∀ above ∈ base.ancestors node, above ≤ base.root := fun above mem =>
    le_root_of_mem_ancestors continued.trees.last mem
  rw [site_of_lt inside] at ancestors
  -- The program node is no class, so that the class around the node has the same handle.
  have classes : (more.ancestors node).find? (fun id => more.kind id == .classDecl) =
      (base.ancestors node).find? fun id => base.kind id == .classDecl := by
    rw [ancestors]
    generalize base.ancestors node = nodes at bounds
    induction nodes with
    | nil => rfl
    | cons first rest ih =>
      have bound := bounds first (.head _)
      rw [map_cons, find?_cons, find?_cons, continued.trees.kind_site bound,
        ih fun above mem => bounds above (.tail _ mem)]
      rcases Nat.lt_or_eq_of_le bound with below | rfl
      · rw [site_of_lt below]
      · rw [continued.trees.program]
        rfl
  simp only [Model.className?, Pass.model, classes, Option.bind_assoc]
  refine Option.bind_congr fun id found => ?_
  have isClass := find?_some found
  have other : id ≠ base.root := by
    rintro rfl
    rw [continued.trees.program] at isClass
    cases isClass
  have below : id < base.root :=
    Nat.lt_of_le_of_ne (bounds id (mem_of_find?_eq_some found)) other
  rw [continued.trees.child? below]
  exact Option.bind_congr fun name named => continued.trees.text (child?_below below name named)

theorem isSuppressed (grounded : base.Grounded) (inside : node < base.root) (rule : String) :
    (after.model more).isSuppressed node rule = (pass.model base).isSuppressed node rule := by
  obtain ⟨same, below, direct⟩ := continued.statementOf inside
  obtain ⟨positive, written⟩ := grounded.starts _ below direct
  obtain ⟨line, found, text⟩ := (Option.any_eq_true _ _).1 written
  obtain ⟨rest, source⟩ := continued.trees.source
  have covered := Suppressions.covers_append found text rest rule
  rw [← source, Nat.sub_add_cancel positive] at covered
  rw [Model.isSuppressed, Model.isSuppressed, same]
  have span : (after.model more).tree.span ((pass.model base).statementOf node) =
      base.span ((pass.model base).statementOf node) := continued.trees.span below
  rw [span]
  exact covered

end Pass.Continued

theorem Search.expression_eq (search : Search) (id : NodeId) :
    search.expression id =
      if (search.model.tree.kind id).isAccess then search.access id
      else if search.model.tree.kind id == .object then search.object id
      else (search.model.tree.carriers id).flatMap search.expression := by
  rw [expression, flatMap_subtype fun _ _ => rfl, unattach_attach]

variable {node : NodeId}

theorem mem_subtree_of_carriers {tree : Tree} {carrier : NodeId}
    (mem : carrier ∈ tree.carriers node) : carrier ∈ tree.subtree node := by
  unfold carriers at mem
  split at mem
  · exact mem_subtree_child (mem_children_of_child? (Option.mem_toList.1 mem))
  · split at mem
    · rename_i found
      exact mem_subtree_of_child (mem_children_of_child? found)
        (mem_subtree_child (mem_children_of_codeChildren mem))
    · cases mem
  all_goals first | exact mem_subtree_child (mem_children_of_codeChildren mem) | cases mem

theorem Tree.Continues.carriers {base more : Tree} {added : List NodeId}
    (continues : base.Continues more added) (inside : node < base.root) :
    more.carriers node = base.carriers node := by
  simp only [Tree.carriers, continues.kind inside, continues.child? inside,
    continues.codeChildren inside]
  cases found : base.child? node .arguments with
  | none => rfl
  | some arguments => simp only [continues.codeChildren (child?_below inside arguments found)]

namespace Pass.Continued

variable {base more : Tree} {added : List NodeId} {pass after : Pass} {node : NodeId}
  (continued : Continued base more added pass after) (classifier : Classifier) (vendored : Bool)
  (subjectName : Option String)
include continued

theorem exposures (inside : node < base.root) (holder : Option String) (judged : ClassifiedNode) :
    Search.exposures ⟨after.model more, classifier, vendored, subjectName⟩ node holder judged =
      Search.exposures ⟨pass.model base, classifier, vendored, subjectName⟩ node holder judged := by
  have span : (after.model more).tree.span node = (pass.model base).tree.span node :=
    continued.trees.span inside
  simp only [Search.exposures, span]

section

variable (inside : node < base.root) (steady : (pass.model base).Steady (after.model more) node)
include inside steady

theorem access :
    Search.access ⟨after.model more, classifier, vendored, subjectName⟩ node =
      Search.access ⟨pass.model base, classifier, vendored, subjectName⟩ node := by
  have epoch := continued.epochOf (Nat.le_of_lt inside)
  rw [site_of_lt inside] at epoch
  simp only [Search.access, continued.chain?_of_lt inside, continued.shapeOf?_of_lt inside, epoch,
    continued.exposures classifier vendored subjectName inside]
  cases found : (pass.model base).shapeOf? node with
  | none => rfl
  | some shape =>
    have judged := continued.ofShape (.here found) (steady node (base.mem_subtree_self node)) classifier
    simp only [Pass.model_shapes, judged]

theorem object :
    Search.object ⟨after.model more, classifier, vendored, subjectName⟩ node =
      Search.object ⟨pass.model base, classifier, vendored, subjectName⟩ node := by
  have epoch := continued.epochOf (Nat.le_of_lt inside)
  rw [site_of_lt inside] at epoch
  simp only [Search.object, continued.shapeOf?_of_lt inside, epoch,
    continued.exposures classifier vendored subjectName inside]
  cases found : (pass.model base).shapeOf? node with
  | none => rfl
  | some shape =>
    have steadyHere := steady node (base.mem_subtree_self node)
    have judged := continued.ofShape (.here found) steadyHere classifier
    obtain ⟨old, new, atPass, atAfter, name, _⟩ :=
      continued.get? (continued.sound.shapeOf? found) (steadyHere shape (.here found))
    have names : after.shapes.objectName? shape = pass.shapes.objectName? shape := by
      rw [ShapeStore.objectName?, ShapeStore.objectName?, atAfter, atPass]
      exact name
    simp only [Pass.model_shapes, names, judged]

theorem expression :
    Search.expression ⟨after.model more, classifier, vendored, subjectName⟩ node =
      Search.expression ⟨pass.model base, classifier, vendored, subjectName⟩ node := by
  induction node using Nat.strongRecOn with | ind node ih
  have kind : (after.model more).tree.kind node = (pass.model base).tree.kind node :=
    continued.trees.kind inside
  have carriers : (after.model more).tree.carriers node = (pass.model base).tree.carriers node :=
    continued.trees.carriers inside
  have parts : ((pass.model base).tree.carriers node).flatMap
        (Search.expression ⟨after.model more, classifier, vendored, subjectName⟩) =
      ((pass.model base).tree.carriers node).flatMap
        (Search.expression ⟨pass.model base, classifier, vendored, subjectName⟩) := by
    refine flatMap_congr fun carrier mem => ?_
    have smaller := lt_of_mem_carriers mem
    exact ih carrier smaller (Nat.lt_trans smaller inside)
      (steady.mono (mem_subtree_of_carriers mem))
  rw [Search.expression_eq, Search.expression_eq, kind, carriers, parts,
    continued.access classifier vendored subjectName inside steady,
    continued.object classifier vendored subjectName inside steady]

end

end Pass.Continued

/-- The node stands below the program node, and what is read at it or below it stays as it is. -/
structure Model.Settled (earlier later : Model) (node : NodeId) : Prop where
  inside : node < earlier.tree.root
  steady : earlier.Steady later node

theorem Model.Settled.mono {earlier later : Model} {part : NodeId} (settled : earlier.Settled later node)
    (mem : part ∈ earlier.tree.subtree node) : earlier.Settled later part :=
  ⟨Nat.lt_of_le_of_lt (le_of_mem_subtree mem) settled.inside, settled.steady.mono mem⟩

namespace Pass.Continued

variable {base more : Tree} {added : List NodeId} {pass after : Pass}
  (continued : Continued base more added pass after) (grounded : base.Grounded) {hit : Hit}

section Tests

variable (set : RuleSet) {test judge : Rule → RulePattern → Match → Bool}
  (agree : ∀ rule pattern found, found.Inside ((pass.model base).Settled (after.model more)) → judge rule pattern found = test rule pattern found)
  {node : NodeId}
include continued grounded agree

/-- Other rules find alike in settled code, if their matches there are judged alike. -/
theorem findsWithin (settled : (pass.model base).Settled (after.model more) node) (id : String) :
    set.findsWithin (after.model more) judge id node =
      set.findsWithin (pass.model base) test id node := by
  rw [findsWithin_eq, findsWithin_eq, model_tree, model_tree,
    continued.trees.language]
  refine congrArg (set.get? id).any (funext fun rule => any_congr_of_mem fun pattern _ => ?_)
  rw [continued.trees.matchesWithin grounded pattern.pattern settled.inside]
  refine any_congr_of_mem fun found mem => agree rule pattern found ?_
  obtain ⟨place, deeper, fits⟩ := mem_filterMap.1 mem
  exact Pattern.inside_matchAt? (fun _ => (settled.mono deeper).mono) fits

theorem sanitizedAt (settled : (pass.model base).Settled (after.model more) node) (rule : Rule) :
    set.sanitizedAt (after.model more) judge rule node =
      set.sanitizedAt (pass.model base) test rule node := by
  rw [sanitizedAt_eq, sanitizedAt_eq, model_tree, model_tree,
    continued.trees.language]
  refine congrArg rule.sanitizer.any (funext fun id => congrArg (set.get? id).any
    (funext fun rule => any_congr_of_mem fun pattern _ => ?_))
  rw [continued.trees.matchAt? grounded pattern.pattern settled.inside]
  refine any_congr_of_mem fun found mem => agree rule pattern found ?_
  exact Pattern.inside_matchAt? (fun _ => settled.mono) (Option.mem_toList.1 mem)

end Tests

include continued

theorem exposuresOf (classifier : Classifier) (rule : Rule) {found : Match}
    (within : found.Inside ((pass.model base).Settled (after.model more))) :
    RuleSet.exposuresOf classifier (after.model more) rule found =
      RuleSet.exposuresOf classifier (pass.model base) rule found := by
  simp only [RuleSet.exposuresOf, model_tree, continued.trees.file,
    continued.className? within.node.inside]
  refine congrArg (distinctBy _ []) (flatMap_congr fun name _ => ?_)
  cases taken : found.captures.get? name with
  | none => rfl
  | some node =>
    have settled := within.captures _ (Captures.mem_of_get? taken)
    exact continued.expression classifier _ _ settled.inside settled.steady

include grounded

theorem accepts (set : RuleSet) (fuel : Nat) (rule : Rule) (pattern : RulePattern) (found : Match)
    (within : found.Inside ((pass.model base).Settled (after.model more))) :
    set.accepts (after.model more) fuel rule pattern found =
      set.accepts (pass.model base) fuel rule pattern found := by
  induction fuel generalizing rule pattern found with
  | zero => rfl
  | succ fuel ih =>
    have captured {capture : String} {node : NodeId} (taken : found.captures.get? capture = some node) :
        (pass.model base).Settled (after.model more) node :=
      within.captures _ (Captures.mem_of_get? taken)
    have scenes : (set.sceneOf (pass.model base) (set.accepts (pass.model base) fuel) found).Alike
        (set.sceneOf (after.model more) (set.accepts (after.model more) fuel) found) fun _ _ => True := by
      refine ⟨rfl, continued.trees.file, fun capture => ?_, fun capture => ?_, ?_⟩
      · exact Option.map_congr fun node taken =>
          continued.trees.content grounded (captured taken).inside
      · have strings : (found.captures.get? capture).bind (after.model more).stringValue? =
            (found.captures.get? capture).bind (pass.model base).stringValue? :=
          Option.bind_congr fun node taken =>
            continued.stringValue?_of_lt (captured taken).inside (captured taken).steady
        exact congrArg (Option.filter _) strings
      · -- Other rules are judged with less fuel, and their matches below a capture are settled too.
        intro capture id _ node taken
        exact congrArg some (continued.findsWithin grounded set ih (captured taken) id)
    rw [accepts_succ, accepts_succ, acceptsBy, acceptsBy,
      FilterScene.passes_congr (scenes.mono fun _ _ _ => trivial),
      continued.sanitizedAt grounded set ih within.node rule]

theorem reports (set : RuleSet) (classifier : Classifier)
    (within : hit.found.Inside ((pass.model base).Settled (after.model more))) :
    set.reports classifier (after.model more) hit = set.reports classifier (pass.model base) hit := by
  rw [RuleSet.reports, RuleSet.reports, continued.accepts grounded set _ _ _ _ within,
    continued.isSuppressed grounded within.node.inside, continued.exposuresOf classifier _ within]

theorem detection (classifier : Classifier)
    (within : hit.found.Inside ((pass.model base).Settled (after.model more))) :
    hit.detection classifier (after.model more) = hit.detection classifier (pass.model base) := by
  have inside := within.node.inside
  obtain ⟨statement, below, _⟩ := continued.statementOf inside
  have texts : hit.found.captures.entries.map (fun entry => (entry.1, more.content entry.2)) =
      hit.found.captures.entries.map fun entry => (entry.1, base.content entry.2) :=
    map_congr_left fun entry mem => by
      rw [continued.trees.content grounded (within.captures entry mem).inside]
  simp only [Hit.detection, detectionOf, model_tree, statement, texts, continued.trees.file,
    continued.trees.language, continued.trees.span inside, continued.trees.content grounded inside,
    continued.trees.span below, continued.trees.content grounded below,
    continued.exposuresOf classifier hit.rule within]

end Pass.Continued

end LeakTrace
