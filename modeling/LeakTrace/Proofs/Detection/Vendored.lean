import LeakTrace.Proofs.Catalog.Judgement
import LeakTrace.Proofs.Detection.Hits

namespace LeakTrace

open List ClassifiedNode

namespace ClassifiedNode

/-- Neither the node nor anything that it holds tells of sensitive data. -/
def Silent (node : ClassifiedNode) : Prop := ∀ holder, node.exposed holder = []

theorem exposedIn_eq (holder : Option String) (nodes : List ClassifiedNode) :
    exposedIn holder nodes = nodes.flatMap (exposed holder) := by
  induction nodes with
  | nil => rfl
  | cons node rest ih => rw [exposedIn, ih, flatMap_cons]

theorem silent_mk_none (name : String) (reason : Reason) {properties : List ClassifiedNode}
    (silent : ∀ node ∈ properties, node.Silent) : (mk (.none name reason) properties).Silent := by
  intro holder
  have inside : exposedIn (some name) properties = [] := by
    rw [exposedIn_eq, flatMap_eq_nil_iff]
    exact fun node mem => silent node mem (some name)
  exact inside

theorem silent_leaf_none (name : String) (reason : Reason) : (leaf (.none name reason)).Silent :=
  silent_mk_none name reason (forall_mem_nil _)

end ClassifiedNode

namespace Classifier

variable {classifier : Classifier} {subject : Subject} {reason : Reason} {name : String}

theorem silent_ofName (gated : classifier.gate? subject = some reason) (name : String) :
    (leaf (classifier.ofName name subject)).Silent := by
  rw [ofName, gated]
  exact silent_leaf_none _ _

theorem silent_ofUnresolved (gated : classifier.gate? subject = some reason) (name : String) :
    (leaf (classifier.ofUnresolved name subject)).Silent := by
  rw [ofUnresolved]
  split
  · exact silent_ofName gated name
  · exact silent_leaf_none _ _

-- The fields of the object, at any depth, are passed over together with it: those inside would be
-- judged without the subject.
theorem silent_ofObject (gated : classifier.objectGate? name subject = some reason)
    (shapes : ShapeStore) (epoch depth : Nat) (shape : ShapeId) :
    (classifier.ofObject shapes epoch depth name shape subject).Silent := by
  rw [ofObject_eq, gated]
  refine silent_mk_none _ _ fun node mem => ?_
  obtain ⟨entry, _, rfl⟩ := mem_map.1 mem
  exact silent_leaf_none _ _

variable (vendored : subject.vendored = true)
include vendored

theorem gate?_of_vendored : classifier.gate? subject = some .includedInVendorFolder := if_pos vendored

theorem objectGate?_of_vendored (name : String) :
    classifier.objectGate? name subject = some .includedInVendorFolder := if_pos vendored

theorem silent_ofShape (shapes : ShapeStore) (epoch : Nat) (name : String) (shape : ShapeId) :
    (classifier.ofShape shapes epoch name shape subject).Silent := by
  rw [ofShape]
  split
  · exact silent_ofObject (objectGate?_of_vendored vendored name) shapes epoch _ shape
  · exact silent_ofName (gate?_of_vendored vendored) name
  · exact silent_ofUnresolved (gate?_of_vendored vendored) name

end Classifier

namespace Search

variable {search : Search}

theorem exposures_of_silent {node : ClassifiedNode} (silent : node.Silent) (id : NodeId)
    (holder : Option String) : search.exposures id holder node = [] := by
  rw [exposures, silent none]
  rfl

variable (vendored : search.vendored = true)
include vendored

theorem access_of_vendored (id : NodeId) : search.access id = [] := by
  simp only [access]
  split
  · rfl
  split
  · rfl
  · apply exposures_of_silent
    split
    · exact Classifier.silent_ofShape vendored _ _ _ _
    · exact Classifier.silent_ofUnresolved (Classifier.gate?_of_vendored vendored) _

theorem object_of_vendored (id : NodeId) : search.object id = [] := by
  simp only [object]
  split
  · rfl
  · exact exposures_of_silent (Classifier.silent_ofShape vendored _ _ _ _) _ _

/-- A captured expression of a vendored file carries no sensitive data, however it is put together. -/
theorem expression_of_vendored (id : NodeId) : search.expression id = [] := by
  induction id using Nat.strongRecOn with | ind id ih
  rw [expression]
  split
  · exact access_of_vendored vendored id
  · split
    · exact object_of_vendored vendored id
    · refine flatMap_eq_nil_iff.2 fun carrier _ => ?_
      exact ih carrier.1 (Tree.lt_of_mem_carriers carrier.2)

end Search

namespace RuleSet

variable {set : RuleSet} {classifier : Classifier} {model : Model} {rule : Rule}

theorem exposuresOf_of_vendored (vendored : classifier.catalog.isVendored model.tree.file = true)
    (rule : Rule) (found : Match) : exposuresOf classifier model rule found = [] := by
  simp only [exposuresOf]
  rw [flatMap_eq_nil_iff.2 ?_]
  · rfl
  · intro name _
    split
    · exact Search.expression_of_vendored vendored _
    · rfl

theorem hitsOf_of_vendored (vendored : classifier.catalog.isVendored model.tree.file = true)
    (requires : rule.requiresDataTypes = true) : set.hitsOf classifier model rule = [] := by
  refine eq_nil_iff_forall_not_mem.2 fun hit mem => ?_
  have first := mem_hitsOf.1 mem
  have same : hit.rule = rule := (Rule.mem_hits.1 first.mem).1
  have reported := first.1
  rw [reports, exposuresOf_of_vendored vendored, same, requires] at reported
  simp at reported

/-- A rule that does not ask for sensitive data reports the same matches whatever the classifier. -/
theorem hitsOf_classifier (free : rule.requiresDataTypes = false) (one two : Classifier) :
    set.hitsOf one model rule = set.hitsOf two model rule := by
  have same : ∀ hit ∈ rule.hits model.tree, set.reports one model hit = set.reports two model hit := by
    intro hit mem
    rw [reports, reports, (Rule.mem_hits.1 mem).1, free, Bool.false_and, Bool.false_and]
  rw [hitsOf, hitsOf, filter_congr same]

/-- What is found in a vendored file tells of no sensitive data: rules that ask for it report nothing,
and the others report what they report with any other classifier, but without sensitive data. -/
theorem detect_vendored (set : RuleSet) (classifier : Classifier) (model : Model)
    (vendored : ∃ directory ∈ (Path.parts model.tree.file).dropLast,
      directory.text ∈ classifier.catalog.vendorDirectories) :
    (∀ detection ∈ set.detect classifier model, detection.exposures = []) ∧
      (∀ rule, rule.requiresDataTypes = true → set.detectionsOf classifier model rule = []) ∧
      ∀ rule, rule.requiresDataTypes = false → ∀ other,
        set.detectionsOf classifier model rule =
          (set.detectionsOf other model rule).map fun detection => { detection with exposures := [] } := by
  have flagged : classifier.catalog.isVendored model.tree.file = true := by
    obtain ⟨directory, member, listed⟩ := vendored
    exact any_eq_true.2 ⟨directory, member, contains_iff_mem.2 listed⟩
  have bare : ∀ hit : Hit, (hit.detection classifier model).exposures = [] :=
    fun hit => exposuresOf_of_vendored flagged hit.rule hit.found
  refine ⟨fun detection member => ?_, fun rule requires => ?_, fun rule free other => ?_⟩
  · rw [detect_eq] at member
    obtain ⟨hit, _, rfl⟩ := mem_map.1 member
    exact bare hit
  · rw [detectionsOf_eq, hitsOf_of_vendored flagged requires]
    rfl
  · rw [detectionsOf_eq, detectionsOf_eq, hitsOf_classifier free classifier other, map_map]
    refine map_congr_left fun hit _ => ?_
    exact congrArg (detectionOf model hit.rule hit.pattern hit.found) (bare hit)

/-- A rule for calls of `send`, which may or may not insist on sensitive data. -/
def sending (id : String) (requiresDataTypes : Bool) : RuleDraft where
  id
  title := "Data is sent"
  description := "Data is handed to a sink."
  severity := .low
  languages := ["javascript"]
  patterns := [{ pattern := "send($<X>)" }]
  dataTypes := ["X"]
  requiresDataTypes := some requiresDataTypes

/-- What a classifier sees that takes every name for an address, but none in a vendor directory. -/
def anyAddress : Classifier where
  catalog :=
    { entries :=
        [{ dataType := { name := "Email Address", id := "email", category := "contact" }
           patterns := [fun _ => true]
           exceptions := []
           caseSensitive := false
           allowIdentifier := true }]
      knownObjects := []
      stopWords := []
      vendorDirectories := ["vendor"]
      fallbackOnUnresolved := true
      isIdentifier := fun _ => false }
  depth := 2

/-- The script hands out an object with a field. -/
theorem detect_vendored_sending :
    let tree := Script.tree "lib/vendor/app.js" "const user = { email: e };\nsend(user);\n"
    ∃ set model, ofDrafts [sending "any" false, sending "data" true] = .ok set ∧
      Model.ofTree tree false {} = .ok model ∧ (set.detect anyAddress model).map Detection.rule = ["any"] ∧
      ∀ detection ∈ set.detect anyAddress model, detection.exposures = [] := by
  intro tree
  obtain ⟨set, loaded, model, analysed, vendored, rules⟩ :
      ∃ set, ofDrafts [sending "any" false, sending "data" true] = .ok set ∧
      ∃ model, Model.ofTree tree false {} = .ok model ∧ anyAddress.catalog.isVendored model.tree.file = true ∧
      (set.detect anyAddress model).map Detection.rule = ["any"] := by
    decide +kernel
  obtain ⟨directory, member, listed⟩ := any_eq_true.1 vendored
  have silent := detect_vendored set anyAddress model
    ⟨directory, member, contains_iff_mem.1 listed⟩
  exact ⟨set, model, loaded, analysed, rules, silent.1⟩

end RuleSet

end LeakTrace
