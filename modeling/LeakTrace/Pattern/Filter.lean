import LeakTrace.Model
import LeakTrace.Pattern.Match
import LeakTrace.Regex.Engine

namespace LeakTrace

inductive Comparison where
  | less | lessOrEqual | greater | greaterOrEqual
  deriving DecidableEq, Inhabited

def Comparison.holds (comparison : Comparison) (value bound : Int) : Bool :=
  match comparison with
  | less => value < bound
  | lessOrEqual => value ≤ bound
  | greater => bound < value
  | greaterOrEqual => bound ≤ value

/-- A filter as rules state it: the name of a capture, and what is asked of it. -/
structure FilterDraft where
  capture : Option String := none
  not : Option FilterDraft := none
  either : Option (List FilterDraft) := none
  fileName : Option String := none
  values : Option (List String) := none
  regex : Option String := none
  stringRegex : Option String := none
  shorterThan : Option Nat := none
  less : Option Int := none
  lessOrEqual : Option Int := none
  greater : Option Int := none
  greaterOrEqual : Option Int := none
  detection : Option String := none

instance : Inhabited FilterDraft := ⟨{}⟩

mutual

/-- What is asked of the captures of a match. -/
inductive Filter where
  | not (inner : Filter)
  | either (choices : Filters)
  | fileName (isMatch : String → Bool)
  | values (capture : String) (values : List String)
  | regex (capture : String) (isMatch : String → Bool)
  | stringRegex (capture : String) (isMatch : String → Bool)
  | shorterThan (capture : String) (length : Nat)
  | compare (capture : String) (comparison : Comparison) (bound : Int)
  | detection (capture rule : String)

inductive Filters where
  | none
  | some (filter : Filter) (rest : Filters)

end

instance : Inhabited Filter := ⟨.either .none⟩

namespace FilterDraft

def conditionCount (draft : FilterDraft) : Nat :=
  [draft.not.isSome, draft.either.isSome, draft.fileName.isSome, draft.values.isSome, draft.regex.isSome,
    draft.stringRegex.isSome, draft.shorterThan.isSome, draft.less.isSome, draft.lessOrEqual.isSome,
    draft.greater.isSome, draft.greaterOrEqual.isSome, draft.detection.isSome].count true

def captureOf (rule : String) (pattern : Pattern) (draft : FilterDraft) : Except SetupError String :=
  match draft.capture with
  | none => .error (.invalidFilter rule "this filter needs a `variable`")
  | some name => if pattern.defines name then .ok name else .error (.unknownVariable rule name)

variable [RegexEngine]

def comparisons (draft : FilterDraft) : List (Option (Comparison × Int)) :=
  [draft.less.map (.less, ·), draft.lessOrEqual.map (.lessOrEqual, ·), draft.greater.map (.greater, ·),
    draft.greaterOrEqual.map (.greaterOrEqual, ·)]

def onCapture (rule name : String) (draft : FilterDraft) : Except SetupError Filter := do
  match draft.values, draft.regex, draft.stringRegex, draft.shorterThan, draft.detection with
  | some texts, _, _, _, _ => return .values name texts
  | none, some text, _, _, _ => return .regex name (← RegexEngine.compile text false)
  | none, none, some text, _, _ => return .stringRegex name (← RegexEngine.compile text false)
  | none, none, none, some length, _ => return .shorterThan name length
  | none, none, none, none, some reference => return .detection name reference
  | none, none, none, none, none =>
    match draft.comparisons.findSome? id with
    | some (comparison, bound) => return .compare name comparison bound
    | none => throw (.invalidFilter rule "unknown filter")

mutual

/-- The filter of a draft, which has to state exactly one condition. -/
def compile (rule : String) (pattern : Pattern) (draft : FilterDraft) : Except SetupError Filter :=
  if draft.conditionCount ≠ 1 then .error (.invalidFilter rule "a filter needs exactly one condition")
  else match _not : draft.not, _either : draft.either, draft.fileName with
  | some inner, _, _ => do return .not (← inner.compile rule pattern)
  | none, some choices, _ =>
    if choices.isEmpty then .error (.invalidFilter rule "`either` needs at least one filter")
    else do return .either (← compileAll rule pattern choices)
  | none, none, some text => do return .fileName (← RegexEngine.compile text false)
  | none, none, none => do draft.onCapture rule (← draft.captureOf rule pattern)
termination_by sizeOf draft
decreasing_by all_goals (cases draft; subst_vars; simp; omega)

def compileAll (rule : String) (pattern : Pattern) : List FilterDraft → Except SetupError Filters
  | [] => .ok .none
  | draft :: rest => do
    let filter ← draft.compile rule pattern
    return .some filter (← compileAll rule pattern rest)
termination_by drafts => sizeOf drafts

end

end FilterDraft

structure FilterScene where
  model : Model
  captures : Captures
  file : String
  /-- Whether another rule finds something at a node or below it, where rules are at hand. -/
  detects : Option (String → NodeId → Bool)

namespace FilterScene

def content? (scene : FilterScene) (capture : String) : Option String :=
  (scene.captures.get? capture).map scene.model.tree.content

def string? (scene : FilterScene) (capture : String) : Option String :=
  ((scene.captures.get? capture).bind scene.model.stringValue?).filter fun text => !text.isEmpty

end FilterScene

/-- An answer of any of several filters: true if one is true, else false if one is false. -/
def anyOf (first second : Option Bool) : Option Bool :=
  match first, second with
  | some true, _ | _, some true => some true
  | some false, _ | _, some false => some false
  | none, none => none

mutual

/-- Whether a match passes the filter; nothing if the filter does not apply to it. -/
def Filter.evaluate (scene : FilterScene) : Filter → Option Bool
  | .not inner => (inner.evaluate scene).map (! ·)
  | .either choices => choices.any scene
  | .fileName isMatch => some (isMatch scene.file)
  | .values capture values => (scene.content? capture).map values.contains
  | .regex capture isMatch => (scene.content? capture).map isMatch
  | .stringRegex capture isMatch => (scene.string? capture).map isMatch
  | .shorterThan capture length => (scene.string? capture).map (·.length < length)
  | .compare capture comparison bound =>
    ((scene.content? capture).bind fun text => Text.integer? (Text.trim text.toList)).map
      (comparison.holds · bound)
  | .detection capture rule => do
    let node ← scene.captures.get? capture
    let detects ← scene.detects
    return detects rule node

def Filters.any (scene : FilterScene) : Filters → Option Bool
  | .none => Option.none
  | .some filter rest => anyOf (filter.evaluate scene) (rest.any scene)

end

mutual

def Filter.references : Filter → List String
  | .not inner => inner.references
  | .either choices => choices.references
  | .detection _ rule => [rule]
  | _ => []

def Filters.references : Filters → List String
  | .none => []
  | .some filter rest => filter.references ++ rest.references

end

def FilterScene.passes (scene : FilterScene) (filters : List Filter) : Bool :=
  filters.all fun filter => filter.evaluate scene == some true

end LeakTrace
