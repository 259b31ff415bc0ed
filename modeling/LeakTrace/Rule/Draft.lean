import LeakTrace.Document.Json
import LeakTrace.Document.Yaml
import LeakTrace.Pattern.Filter
import LeakTrace.Severity

namespace LeakTrace

namespace FilterDraft

def fieldNames : List String :=
  ["variable", "not", "either", "filename_regex", "values", "regex", "string_regex",
    "length_less_than", "less_than", "less_than_or_equal", "greater_than", "greater_than_or_equal",
    "detection"]

/-- Reads a filter, whose conditions may hold filters down to the given depth. -/
def read? : (depth : Nat) → Document → Option FilterDraft
  | 0, _ => none
  | depth + 1, document => do
    let fields ← document.fields? fieldNames true
    return {
      capture := ← fields.option? "variable" Document.string?
      not := ← fields.option? "not" (read? depth)
      either := ← fields.option? "either" (Document.listOf? (read? depth))
      fileName := ← fields.option? "filename_regex" Document.string?
      values := ← fields.option? "values" Document.strings?
      regex := ← fields.option? "regex" Document.string?
      stringRegex := ← fields.option? "string_regex" Document.string?
      shorterThan := ← fields.option? "length_less_than" Document.word?
      less := ← fields.option? "less_than" Document.integer?
      lessOrEqual := ← fields.option? "less_than_or_equal" Document.integer?
      greater := ← fields.option? "greater_than" Document.integer?
      greaterOrEqual := ← fields.option? "greater_than_or_equal" Document.integer?
      detection := ← fields.option? "detection" Document.string? }

def ofDocument? : Document → Option FilterDraft := read? Json.depthLimit

end FilterDraft

structure PatternDraft where
  pattern : String
  filters : List FilterDraft := []
  deriving Inhabited

structure RuleDraft where
  id : String
  title : String
  description : String
  remediation : String := ""
  severity : Severity
  cwe : Option String := none
  languages : List String
  patterns : List PatternDraft
  dataTypes : List String := []
  requiresDataTypes : Option Bool := none
  sanitizer : Option String := none
  auxiliary : Bool := false
  deriving Inhabited

def Severity.ofDocument? (document : Document) : Option Severity :=
  document.string?.bind Severity.ofName?

def PatternDraft.ofDocument? (document : Document) : Option PatternDraft := do
  let fields ← document.fields? ["pattern", "filters"] false
  return {
    pattern := ← fields.need? "pattern" Document.string?
    filters := ← fields.getD? "filters" [] (Document.listOf? FilterDraft.ofDocument?) }

namespace RuleDraft

def ofDocument? (document : Document) : Option RuleDraft := do
  let fields ← document.fields? ["id", "title", "description", "remediation", "severity", "cwe",
    "languages", "patterns", "data_types", "requires_data_types", "sanitizer", "auxiliary"] false
  return {
    id := ← fields.need? "id" Document.string?
    title := ← fields.need? "title" Document.string?
    description := ← fields.need? "description" Document.string?
    remediation := ← fields.getD? "remediation" "" Document.string?
    severity := ← fields.need? "severity" Severity.ofDocument?
    cwe := ← fields.option? "cwe" Document.string?
    languages := ← fields.need? "languages" Document.strings?
    patterns := ← fields.need? "patterns" (Document.listOf? PatternDraft.ofDocument?)
    dataTypes := ← fields.getD? "data_types" [] Document.strings?
    requiresDataTypes := ← fields.option? "requires_data_types" Document.bool?
    sanitizer := ← fields.option? "sanitizer" Document.string?
    auxiliary := ← fields.getD? "auxiliary" false Document.bool? }

def listOfDocument? (document : Document) : Option (List RuleDraft) := do
  let fields ← document.fields? ["rules"] false
  fields.need? "rules" (Document.listOf? ofDocument?)

end RuleDraft

end LeakTrace
