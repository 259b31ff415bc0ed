import LeakTrace.Catalog.Classify
import LeakTrace.Rule.Set

namespace LeakTrace

structure Exposure where
  name : String
  dataType : DataType
  fieldName : Option String
  objectName : Option String
  subjectName : Option String
  decision : Decision
  line : Nat
  column : Nat
  deriving DecidableEq, Inhabited

structure Detection where
  rule : String
  file : String
  language : Language
  pattern : String
  span : Span
  content : String
  /-- The statement around the match and its text, when it is not the match itself. -/
  context : Option (Span × String)
  captures : List (String × String)
  exposures : List Exposure
  deriving Inhabited

def distinctBy {α β : Type} [BEq β] (key : α → β) (seen : List β) : List α → List α
  | [] => []
  | item :: rest =>
    if seen.contains (key item) then distinctBy key seen rest
    else item :: distinctBy key (key item :: seen) rest

namespace Tree

/-- The parts of an expression whose values flow into its value. -/
def carriers (tree : Tree) (id : NodeId) : List NodeId :=
  match tree.kind id with
  | .assignment => (tree.child? id .right).toList
  | .call =>
    match tree.child? id .arguments with
    | some arguments => tree.codeChildren arguments
    | none => []
  | .arguments | .binary | .template | .array | .spread => tree.codeChildren id
  | _ => []

theorem lt_of_mem_carriers {tree : Tree} {id carrier : Nat} (member : carrier ∈ tree.carriers id) :
    carrier < id := by
  unfold carriers at member
  split at member
  · exact lt_of_child? (Option.mem_toList.1 member)
  · split at member
    · exact Nat.lt_trans (lt_of_mem_codeChildren member) (lt_of_child? (by assumption))
    · cases member
  all_goals first | exact lt_of_mem_codeChildren member | cases member

end Tree

structure Search where
  model : Model
  classifier : Classifier
  vendored : Bool
  subjectName : Option String

namespace Search

variable (search : Search)

/-- The sensitive data that a judged node tells, at the place of a node of the tree. -/
def exposures (id : NodeId) (holder : Option String) (node : ClassifiedNode) : List Exposure :=
  let span := search.model.tree.span id
  (node.exposed none).map fun (parent, classification, dataType) =>
    { name := dataType.name
      dataType
      fieldName := some classification.name
      objectName := match parent with
        | some parent => if parent.isEmpty then none else some parent
        | none => holder
      subjectName := search.subjectName
      decision := classification.decision
      line := span.line
      column := span.column }

/-- The sensitive data of a variable or a property, by its path and its value. -/
def access (id : NodeId) : List Exposure :=
  let model := search.model
  match model.chain? id with
  | none => []
  | some chain =>
    let name? := match chain.fieldName? with
      | some field => some field
      | none =>
        if chain.segments.isEmpty && !chain.unknownTail then chain.rootName? else none
    match name? with
    | none => []
    | some name =>
      let subject : Subject := { objectName := chain.objectName?, vendored := search.vendored }
      let node := match model.shapeOf? id with
        | some shape => search.classifier.ofShape model.shapes (model.epochOf id) name shape subject
        | none => .leaf (search.classifier.ofUnresolved name subject)
      search.exposures id chain.objectName? node

def object (id : NodeId) : List Exposure :=
  let model := search.model
  match model.shapeOf? id with
  | none => []
  | some shape =>
    let name := (model.shapes.objectName? shape).getD ""
    search.exposures id none
      (search.classifier.ofShape model.shapes (model.epochOf id) name shape
        { vendored := search.vendored })

def expression (id : NodeId) : List Exposure :=
  let kind := search.model.tree.kind id
  if kind.isAccess then search.access id
  else if kind == .object then search.object id
  else (search.model.tree.carriers id).attach.flatMap fun carrier => expression carrier.1
termination_by id
decreasing_by exact Tree.lt_of_mem_carriers carrier.2

end Search

namespace RuleSet

variable (set : RuleSet)

/-- Whether a match passes the filters of its pattern and its rule's sanitizer does not match there.
Filters and sanitizers run other rules; the fuel bounds how far, and as much as there are rules is
enough when their references make no cycle. -/
def accepts (model : Model) : (fuel : Nat) → Rule → RulePattern → Match → Bool
  | 0, _, _, _ => false
  | fuel + 1, rule, pattern, found =>
    let tree := model.tree
    let within (id : String) (node : NodeId) : Bool :=
      match set.get? id with
      | none => false
      | some other => (other.patternsFor tree.language).any fun pattern =>
        (pattern.pattern.matchesWithin tree node).any fun found =>
          accepts model fuel other pattern found
    let sanitized := match rule.sanitizer.bind set.get? with
      | none => false
      | some other => (other.patternsFor tree.language).any fun pattern =>
        (pattern.pattern.matchAt? tree found.node).any fun found =>
          accepts model fuel other pattern found
    let scene : FilterScene :=
      { model, captures := found.captures, file := tree.file, detects := some within }
    scene.passes pattern.filters && !sanitized

/-- Whether the rule has an accepted match at the node or below it. -/
def detectsWithin (model : Model) (id : String) (node : NodeId) : Bool :=
  match set.get? id with
  | none => false
  | some rule => (rule.patternsFor model.tree.language).any fun pattern =>
    (pattern.pattern.matchesWithin model.tree node).any fun found =>
      set.accepts model set.size rule pattern found

variable (classifier : Classifier) (model : Model) (rule : Rule)

/-- The sensitive data in the captures that a rule searches, each sort once for each field. -/
def exposuresOf (found : Match) : List Exposure :=
  let search : Search :=
    { model
      classifier
      vendored := classifier.catalog.isVendored model.tree.file
      subjectName := model.className? found.node }
  let all := rule.dataTypes.flatMap fun name =>
    match found.captures.get? name with
    | some id => search.expression id
    | none => []
  distinctBy (fun exposure => (exposure.dataType.id, exposure.fieldName, exposure.objectName)) [] all

def detectionOf (pattern : RulePattern) (found : Match) (exposures : List Exposure) : Detection :=
  let tree := model.tree
  let statement := model.statementOf found.node
  { rule := rule.id
    file := tree.file
    language := tree.language
    pattern := pattern.pattern.source
    span := tree.span found.node
    content := tree.content found.node
    context := if statement == found.node then none
      else some (tree.span statement, tree.content statement)
    captures := found.captures.entries.map fun (name, id) => (name, tree.content id)
    exposures }

/-- The detection of a match, unless the match is not accepted, switched off, or without the
sensitive data that its rule asks for. -/
def detection? (pattern : RulePattern) (found : Match) : Option Detection :=
  if !set.accepts model set.size rule pattern found || model.isSuppressed found.node rule.id then none
  else
    let exposures := exposuresOf classifier model rule found
    if rule.requiresDataTypes && exposures.isEmpty then none
    else some (detectionOf model rule pattern found exposures)

/-- The detections of one rule: for each node the first match that is reported at all. -/
def detectionsOf : List Detection :=
  let candidates := (rule.patternsFor model.tree.language).flatMap fun pattern =>
    (pattern.pattern.matchesIn model.tree).map fun found => (pattern, found)
  (candidates.foldl (fun (seen, detections) (pattern, found) =>
    if seen.contains found.node then (seen, detections)
    else match set.detection? classifier model rule pattern found with
      | some detection => (found.node :: seen, detection :: detections)
      | none => (seen, detections)) (([] : List NodeId), ([] : List Detection))).2.reverse

end RuleSet

namespace Detection

/-- Earlier places come first, and at one place the rule that is first by name. -/
def precedes (a b : Detection) : Bool :=
  ((a.span.compare b.span).then (compare a.rule b.rule)).isLE

end Detection

def RuleSet.detect (set : RuleSet) (classifier : Classifier) (model : Model) : List Detection :=
  let language := model.tree.language
  let rules := (set.forLanguage language).filter fun rule => !rule.auxiliary
  (rules.flatMap (set.detectionsOf classifier model)).mergeSort Detection.precedes

end LeakTrace
