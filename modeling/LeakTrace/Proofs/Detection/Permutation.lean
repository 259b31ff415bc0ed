import LeakTrace.Proofs.Detection.Selection

namespace LeakTrace

open List Detection

/-- Two sorted lists are the same if they have the same items of each rank in the same order. -/
theorem eq_of_sorted_of_ranks {α : Type} {le : α → α → Bool}
    (total : ∀ a b, (le a b || le b a) = true) {first second : List α}
    (sorted : first.Pairwise fun a b => le a b = true)
    (alsoSorted : second.Pairwise fun a b => le a b = true)
    (ranks : ∀ item, first.filter (fun other => le item other && le other item) =
      second.filter fun other => le item other && le other item) : first = second := by
  have tied (item : α) : (le item item && le item item) = true := by
    simpa using total item item
  induction first generalizing second with
  | nil =>
    cases second with
    | nil => rfl
    | cons item rest =>
      have absent := ranks item
      rw [filter_nil, filter_cons, if_pos (tied item)] at absent
      cases absent
  | cons head rest ih =>
    cases second with
    | nil =>
      have absent := ranks head
      rw [filter_nil, filter_cons, if_pos (tied head)] at absent
      cases absent
    | cons other others =>
      obtain ⟨before, restSorted⟩ := pairwise_cons.1 sorted
      obtain ⟨otherBefore, othersSorted⟩ := pairwise_cons.1 alsoSorted
      -- Each head has its rank in the other list, so that neither comes before the other.
      have least {a b : α} {as bs : List α} (below : ∀ item ∈ bs, le b item = true)
          (ranks : (a :: as).filter (fun item => le a item && le item a) =
            (b :: bs).filter fun item => le a item && le item a) : le b a = true := by
        have mem : a ∈ (b :: bs).filter fun item => le a item && le item a :=
          ranks ▸ mem_filter.2 ⟨.head _, tied a⟩
        rcases mem_cons.1 (mem_filter.1 mem).1 with rfl | later
        · simpa using tied a
        · exact below a later
      have after := least otherBefore (ranks head)
      have notAfter := least before (ranks other).symm
      have same := ranks head
      rw [filter_cons, filter_cons, if_pos (tied head), if_pos (by rw [notAfter, after]; rfl)]
        at same
      obtain rfl : head = other := (cons.inj same).1
      refine congrArg (head :: ·) (ih restSorted othersSorted fun item => ?_)
      have tails := ranks item
      rw [filter_cons, filter_cons] at tails
      split at tails
      · exact (cons.inj tails).2
      · exact tails

theorem Detection.rule_of_tied {a b : Detection} (first : a.precedes b = true)
    (second : b.precedes a = true) : a.rule = b.rule := by
  have tied : rank a b = .eq := Std.OrientedCmp.isLE_antisymm first second
  exact Std.compare_eq_iff_eq.1 (compareLex_eq_eq.1 tied).2

namespace RuleSet

variable {set other : RuleSet} {model : Model} {classifier : Classifier} {drafts permuted : List RuleDraft}
  {rules : List Rule}

theorem accepts_of_get? (alike : other.get? = set.get?) (model : Model) (fuel : Nat) :
    other.accepts model fuel = set.accepts model fuel := by
  induction fuel with
  | zero => rfl
  | succ fuel ih =>
    rw [accepts_succ, accepts_succ, ih]
    funext rule pattern found
    simp only [acceptsBy, sceneOf, sanitizedAt, alike]
    unfold findsWithin
    rw [alike]

theorem filter_flatMap_detectionsOf (rules : List Rule) (detection : Detection) :
    (rules.flatMap (set.detectionsOf classifier model)).filter
        (fun found => detection.precedes found && found.precedes detection) =
      (rules.filter fun rule => rule.id == detection.rule).flatMap fun rule =>
        (set.detectionsOf classifier model rule).filter fun found =>
          detection.precedes found && found.precedes detection := by
  rw [filter_flatMap]
  refine (flatMap_filter (fun _ _ _ => rfl) fun rule _ unnamed => ?_).symm
  rw [filter_eq_nil_iff]
  intro found mem tied
  rw [Bool.and_eq_true] at tied
  have named := rule_of_tied tied.1 tied.2
  rw [rule_of_mem_detectionsOf mem] at named
  simp [named] at unnamed

section

variable (same : other.rules.Perm set.rules)
include same

theorem size_of_perm : other.size = set.size := same.length_eq

theorem ids_of_perm : other.ids.Perm set.ids := same.map _

theorem get?_of_perm (distinct : set.ids.Nodup) : other.get? = set.get? := by
  funext id
  have distinctOther := (ids_of_perm same).nodup_iff.2 distinct
  cases found : set.get? id with
  | some rule =>
    obtain ⟨mem, rfl⟩ := mem_of_get? found
    exact get?_of_mem distinctOther (same.mem_iff.2 mem)
  | none =>
    refine Option.eq_none_iff_forall_ne_some.2 fun rule also => ?_
    obtain ⟨mem, rfl⟩ := mem_of_get? also
    rw [get?_of_mem distinct (same.mem_iff.1 mem)] at found
    cases found

theorem detectionsOf_of_perm (distinct : set.ids.Nodup) :
    other.detectionsOf classifier model = set.detectionsOf classifier model := by
  have accepts := accepts_of_get? (get?_of_perm same distinct) model set.size
  have reports : other.reports classifier model = set.reports classifier model := by
    funext hit
    rw [RuleSet.reports, RuleSet.reports, size_of_perm same, accepts]
  funext rule
  rw [detectionsOf_eq, detectionsOf_eq, hitsOf, hitsOf, reports]

/-- Of a name there is one rule at most, so that rules of a name cannot change places. -/
theorem filter_speaking_of_perm (distinct : set.ids.Nodup) (language : Language) (name : String) :
    (other.speaking language).filter (fun rule => rule.id == name) =
      (set.speaking language).filter fun rule => rule.id == name := by
  have perm : (other.speaking language).Perm (set.speaking language) := (same.filter _).filter _
  replace perm := perm.filter fun rule => rule.id == name
  have ids : ((set.speaking language).map Rule.id).Nodup :=
    distinct.sublist ((filter_sublist.trans filter_sublist).map _)
  have apart := (pairwise_map.1 ids).sublist
    (filter_sublist (p := fun rule => rule.id == name))
  have named : ∀ rule ∈ (set.speaking language).filter (fun rule => rule.id == name), rule.id = name :=
    fun rule mem => by simpa using (mem_filter.1 mem).2
  generalize (set.speaking language).filter (fun rule => rule.id == name) = rules at perm apart named
  match rules with
  | [] => exact perm.eq_nil
  | [rule] => exact perm_singleton.1 perm
  | first :: second :: rest =>
    have different := (pairwise_cons.1 apart).1 second (.head _)
    have firstName := named first (.head _)
    have secondName := named second (.tail _ (.head _))
    exact absurd (firstName.trans secondName.symm) different

theorem detect_of_perm (distinct : set.ids.Nodup) :
    other.detect classifier model = set.detect classifier model := by
  have detections (set : RuleSet) : set.detect classifier model =
      ((set.speaking model.tree.language).flatMap (set.detectionsOf classifier model)).mergeSort
        precedes := rfl
  have sorted (found : List Detection) := pairwise_mergeSort precedes_trans
    precedes_total found
  rw [detections, detections, detectionsOf_of_perm same distinct]
  refine eq_of_sorted_of_ranks precedes_total (sorted _) (sorted _) fun detection => ?_
  have ranked := filter_mergeSort precedes_trans precedes_total
    fun found => detection.precedes found && found.precedes detection
  rw [ranked, ranked, filter_flatMap_detectionsOf, filter_flatMap_detectionsOf,
    filter_speaking_of_perm same distinct]

theorem closed_of_perm (closed : set.Closed) : other.Closed := by
  rintro first second ⟨rule, mem, named, runs⟩
  have refers : set.Refers first second := ⟨rule, same.mem_iff.1 mem, named, runs⟩
  exact (ids_of_perm same).mem_iff.2 (closed first second refers)

theorem onCycle_of_perm {id : String} (cycle : other.OnCycle id) : set.OnCycle id := by
  refine Relation.TransGen.mono ?_ id id cycle
  rintro first second ⟨rule, mem, named, runs⟩
  exact ⟨rule, same.mem_iff.1 mem, named, runs⟩

theorem checkReferences_of_perm (distinct : set.ids.Nodup)
    (checked : set.checkReferences = .ok ()) : other.checkReferences = .ok () := by
  obtain ⟨closed, acyclic⟩ := (checkReferences_eq_ok_iff distinct).1 checked
  refine (checkReferences_eq_ok_iff ((ids_of_perm same).nodup_iff.2 distinct)).2 ⟨?_, fun id cycle => ?_⟩
  · exact closed_of_perm same closed
  · exact acyclic id (onCycle_of_perm same cycle)

end

/-- Rules are compiled one by one, and only their names have to be different. -/
theorem compileAll_eq_ok_iff [RegexEngine] {seen : List String} : compileAll seen drafts = .ok rules ↔
      Forall₂ (fun draft rule => Rule.ofDraft draft = .ok rule) drafts rules ∧
        (rules.map Rule.id).Nodup ∧ ∀ rule ∈ rules, rule.id ∉ seen := by
  constructor
  · intro compiled
    refine ⟨?_, compileAll_distinct compiled⟩
    induction drafts generalizing seen rules with
    | nil =>
      cases compiled
      exact .nil
    | cons draft rest ih =>
      unfold compileAll at compiled
      split at compiled
      · cases compiled
      · obtain ⟨rule, first, compiled⟩ := bind_eq_ok.1 compiled
        obtain ⟨others, later, compiled⟩ := bind_eq_ok.1 compiled
        cases compiled
        exact .cons first (ih later)
  · rintro ⟨each, distinct, apart⟩
    induction each generalizing seen with
    | nil => rfl
    | @cons draft rule rest others first _ ih =>
      have named := Rule.id_of_ofDraft first
      obtain ⟨fresh, apart⟩ := forall_mem_cons.1 apart
      obtain ⟨alone, distinct⟩ := nodup_cons.1 distinct
      have unseen : ∀ other ∈ others, other.id ∉ draft.id :: seen := fun other mem => by
        have different : other.id ≠ draft.id := fun same =>
          alone (mem_map.2 ⟨other, mem, same.trans named.symm⟩)
        exact not_mem_cons_of_ne_of_not_mem different (apart other mem)
      have later := ih distinct unseen
      rw [named] at fresh
      rw [compileAll, if_neg (by simpa using fresh)]
      exact bind_eq_ok.2 ⟨rule, first, bind_eq_ok.2 ⟨others, later, rfl⟩⟩

theorem compileAll_of_perm [RegexEngine] (compiled : compileAll [] drafts = .ok rules)
    (same : permuted.Perm drafts) :
    ∃ others, compileAll [] permuted = .ok others ∧ others.Perm rules := by
  obtain ⟨each, distinct, _⟩ := compileAll_eq_ok_iff.1 compiled
  obtain ⟨others, eachOther, moved⟩ := perm_comp_forall₂ same each
  have distinctOther := (moved.map Rule.id).nodup_iff.2 distinct
  exact ⟨others, compileAll_eq_ok_iff.2 ⟨eachOther, distinctOther, fun _ _ => not_mem_nil⟩, moved⟩

/-- Rules that load do so in any order, as the same rules in that order. -/
theorem ofDrafts_of_perm [RegexEngine] (loaded : ofDrafts drafts = .ok set) (same : permuted.Perm drafts) :
    ∃ other, ofDrafts permuted = .ok other ∧ other.rules.Perm set.rules := by
  obtain ⟨rules, compiled, loaded⟩ := bind_eq_ok.1 loaded
  obtain ⟨_, checked, loaded⟩ := bind_eq_ok.1 loaded
  cases loaded
  obtain ⟨others, compiledOther, moved⟩ := compileAll_of_perm compiled same
  have checkedOther : (RuleSet.mk others).checkReferences = .ok () :=
    checkReferences_of_perm moved (compileAll_distinct compiled).1 checked
  exact ⟨⟨others⟩, bind_eq_ok.2 ⟨others, compiledOther, bind_eq_ok.2 ⟨(), checkedOther, rfl⟩⟩, moved⟩

/-- The order of the rules does not matter: neither that in a loaded set nor that in which they are
given, which load in every order or in none. -/
theorem detect_permuted [RegexEngine] (loaded : set.Loaded) :
    (∀ other : RuleSet, other.rules.Perm set.rules → ∀ classifier model,
      other.detect classifier model = set.detect classifier model) ∧
    ∀ drafts permuted, ofDrafts drafts = .ok set → permuted.Perm drafts →
      ∃ other, ofDrafts permuted = .ok other ∧ other.rules.Perm set.rules ∧
        ∀ classifier model, other.detect classifier model = set.detect classifier model := by
  have distinct := loaded.stratified.distinct
  refine ⟨fun other same _ _ => detect_of_perm same distinct, fun drafts permuted given moved => ?_⟩
  obtain ⟨other, loadedOther, same⟩ := ofDrafts_of_perm given moved
  exact ⟨other, loadedOther, same, fun _ _ => detect_of_perm same distinct⟩

/-- The sanitizer may come last or first, and the rules that report at one place in either order. -/
theorem detect_permuted_reversed :
    ∃ set other model, ofDrafts (narrowThenWide :: sinkAndSanitizer) = .ok set ∧ set.Loaded ∧
      ofDrafts (narrowThenWide :: sinkAndSanitizer).reverse = .ok other ∧
      Model.ofTree (Script.tree "calls.js" "f(safe);\nf(a);\n") false {} = .ok model ∧
      (set.rules.flatMap (set.detectionsOf plainClassifier model)).map rule =
        ["call", "call", "sink", "clean"] ∧
      (other.rules.flatMap (other.detectionsOf plainClassifier model)).map rule =
        ["clean", "sink", "call", "call"] ∧
      other.detect plainClassifier model = set.detect plainClassifier model := by
  obtain ⟨set, loaded, other, alsoLoaded, model, analysed, listed, otherListed⟩ :
      ∃ set, ofDrafts (narrowThenWide :: sinkAndSanitizer) = .ok set ∧
      ∃ other, ofDrafts (narrowThenWide :: sinkAndSanitizer).reverse = .ok other ∧
      ∃ model, Model.ofTree (Script.tree "calls.js" "f(safe);\nf(a);\n") false {} = .ok model ∧
      (set.rules.flatMap (set.detectionsOf plainClassifier model)).map rule =
        ["call", "call", "sink", "clean"] ∧
      (other.rules.flatMap (other.detectionsOf plainClassifier model)).map rule =
        ["clean", "sink", "call", "call"] := by
    decide +kernel
  obtain ⟨found, loadedFound, _, same⟩ := (detect_permuted (.ofDrafts loaded)).2 _ _ loaded
    (reverse_perm _)
  obtain rfl : found = other := Except.ok.inj (loadedFound.symm.trans alsoLoaded)
  exact ⟨set, found, model, loaded, .ofDrafts loaded, alsoLoaded, analysed, listed, otherListed,
    same plainClassifier model⟩

end RuleSet

end LeakTrace
