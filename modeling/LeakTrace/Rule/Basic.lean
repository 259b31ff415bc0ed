import LeakTrace.Path
import LeakTrace.Pattern.Compile
import LeakTrace.Rule.Draft

namespace LeakTrace

structure RulePattern where
  language : Language
  pattern : Pattern
  filters : List Filter
  deriving Inhabited

structure Rule where
  id : String
  title : String
  description : String
  remediation : String
  severity : Severity
  cwe : Option String
  languages : List Language
  patterns : List RulePattern
  dataTypes : List String
  /-- Matches without sensitive data are dropped. -/
  requiresDataTypes : Bool
  /-- The rule whose match at the same node cancels a match. -/
  sanitizer : Option String
  /-- The rule serves other rules and reports nothing. -/
  auxiliary : Bool
  deriving Inhabited

namespace RulePattern

/-- The pattern of a draft in one language. It has to capture what the rule searches. -/
def ofDraft [RegexEngine] (rule : String) (dataTypes : List String) (language : Language)
    (draft : PatternDraft) :
    Except SetupError RulePattern := do
  let pattern ← Pattern.compile language rule draft.pattern
  if let some missing := dataTypes.find? fun name => !pattern.defines name then
    throw (.unknownVariable rule missing)
  let filters ← draft.filters.mapM fun filter => filter.compile rule pattern
  return { language, pattern, filters }

end RulePattern

namespace Rule

def languagesOf (rule : String) (names : List String) : Except SetupError (List Language) := do
  let languages ← names.mapM fun name =>
    match Language.ofName? name with
    | some language => .ok language
    | none => .error (.unsupportedLanguage rule name)
  if languages.isEmpty then throw (.unsupportedLanguage rule "")
  return languages.eraseDups

/-- Whether matches without sensitive data are dropped: by default, if anything is searched. -/
def requirement (rule : String) (dataTypes : List String) (stated : Option Bool) :
    Except SetupError Bool :=
  match stated with
  | some true =>
    if dataTypes.isEmpty then
      .error (.invalidPattern rule "" "requires_data_types is set but data_types is empty")
    else .ok true
  | some false => .ok false
  | none => .ok !dataTypes.isEmpty

def ofDraft [RegexEngine] (draft : RuleDraft) : Except SetupError Rule := do
  let languages ← languagesOf draft.id draft.languages
  let patterns ← languages.mapM fun language =>
    draft.patterns.mapM (RulePattern.ofDraft draft.id draft.dataTypes language)
  if patterns.flatten.isEmpty then
    throw (.invalidPattern draft.id "" "a rule needs at least one pattern")
  return {
    id := draft.id
    title := draft.title
    description := draft.description
    remediation := draft.remediation
    severity := draft.severity
    cwe := draft.cwe
    languages
    patterns := patterns.flatten
    dataTypes := draft.dataTypes
    requiresDataTypes := ← requirement draft.id draft.dataTypes draft.requiresDataTypes
    sanitizer := draft.sanitizer
    auxiliary := draft.auxiliary }

/-- The rules that the rule runs, each once: its sanitizer, then those of its filters. -/
def references (rule : Rule) : List String :=
  (rule.sanitizer.toList ++
    rule.patterns.flatMap fun pattern => pattern.filters.flatMap Filter.references).eraseDups

def appliesTo (rule : Rule) (language : Language) : Bool := rule.languages.contains language

def patternsFor (rule : Rule) (language : Language) : List RulePattern :=
  rule.patterns.filter fun pattern => pattern.language == language

end Rule

end LeakTrace
