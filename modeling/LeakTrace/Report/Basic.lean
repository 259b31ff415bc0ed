import LeakTrace.Finding

namespace LeakTrace

structure Summary where
  critical : Nat
  high : Nat
  medium : Nat
  low : Nat
  info : Nat
  total : Nat
  deriving DecidableEq, Inhabited

structure SkippedFile where
  path : String
  reason : String
  deriving DecidableEq, Inhabited

structure Report where
  version : String
  timestamp : String
  scannedPath : String
  filesAnalyzed : Nat
  rulesLoaded : Nat
  findings : List Finding
  summary : Summary
  skipped : List SkippedFile
  deriving Inhabited

def currentVersion : String := "0.1.0"

def Summary.ofFindings (findings : List Finding) : Summary :=
  let count (severity : Severity) : Nat :=
    findings.countP fun finding => finding.severity == severity
  { critical := count .critical
    high := count .high
    medium := count .medium
    low := count .low
    info := count .info
    total := findings.length }

namespace Report

def ofFindings (findings : List Finding) (timestamp scannedPath : String)
    (filesAnalyzed rulesLoaded : Nat) (skipped : List SkippedFile) : Report :=
  { version := currentVersion
    timestamp, scannedPath, filesAnalyzed, rulesLoaded, findings, skipped
    summary := .ofFindings findings }

/-- The report with the findings that are at least as grave as `minimum`. -/
def retain (report : Report) (minimum : Severity) : Report :=
  let findings := report.findings.filter fun finding => minimum.rank ≤ finding.severity.rank
  { report with findings, summary := .ofFindings findings }

end Report

/-! ### Documents -/

def DataType.document (dataType : DataType) : Document :=
  .object [("name", .string dataType.name), ("id", .string dataType.id),
    ("category_id", .string dataType.category)]

def Decision.document (decision : Decision) : Document :=
  .object [("state", .string (if decision.isValid then "valid" else "invalid")),
    ("reason", .string decision.reason.name)]

def Exposure.document (exposure : Exposure) : Document :=
  .object [("name", .string exposure.name), ("data_type", exposure.dataType.document),
    ("field_name", .option .string exposure.fieldName),
    ("object_name", .option .string exposure.objectName),
    ("subject_name", .option .string exposure.subjectName),
    ("decision", exposure.decision.document), ("line", .nat exposure.line),
    ("column", .nat exposure.column)]

def Span.document (span : Span) : Document :=
  .object [("start_byte", .nat span.start), ("end_byte", .nat span.stop), ("line", .nat span.line),
    ("column", .nat span.column), ("end_line", .nat span.endLine),
    ("end_column", .nat span.endColumn)]

def Detection.document (detection : Detection) : Document :=
  .object [("rule_id", .string detection.rule), ("file_path", .string detection.file),
    ("language", .string detection.language.name), ("pattern", .string detection.pattern),
    ("match_span", detection.span.document), ("match_content", .string detection.content),
    ("context_span", .option (fun context => context.1.document) detection.context),
    ("context_content", .option (fun context => .string context.2) detection.context),
    ("variables", .object (detection.captures.map fun (name, text) => (name, .string text))),
    ("data_types", .list (detection.exposures.map Exposure.document))]

def Finding.document (finding : Finding) : Document :=
  .object [("id", .string finding.id), ("rule_id", .string finding.rule),
    ("title", .string finding.title), ("description", .string finding.description),
    ("severity", .string finding.severity.name), ("file_path", .string finding.file),
    ("line", .nat finding.line), ("column", .nat finding.column),
    ("location", .string finding.location), ("code_snippet", .option .string finding.snippet),
    ("remediation", .string finding.remediation), ("cwe", .option .string finding.cwe),
    ("data_types", .list (finding.exposures.map Exposure.document))]

def Summary.document (summary : Summary) : Document :=
  .object [("critical", .nat summary.critical), ("high", .nat summary.high),
    ("medium", .nat summary.medium), ("low", .nat summary.low), ("info", .nat summary.info),
    ("total", .nat summary.total)]

def SkippedFile.document (skipped : SkippedFile) : Document :=
  .object [("path", .string skipped.path), ("reason", .string skipped.reason)]

def Report.document (report : Report) : Document :=
  .object [
    ("metadata", .object [("version", .string report.version),
      ("timestamp", .string report.timestamp), ("scanned_path", .string report.scannedPath),
      ("files_analyzed", .nat report.filesAnalyzed), ("rules_loaded", .nat report.rulesLoaded)]),
    ("findings", .list (report.findings.map Finding.document)),
    ("summary", report.summary.document),
    ("skipped", .list (report.skipped.map SkippedFile.document))]

variable (document : Document)

def DataType.ofDocument? : Option DataType := do
  let fields ← document.fields? ["name", "id", "category_id"] false
  return {
    name := ← fields.need? "name" Document.string?
    id := ← fields.need? "id" Document.string?
    category := ← fields.need? "category_id" Document.string? }

def Decision.ofDocument? : Option Decision := do
  let fields ← document.fields? ["state", "reason"] false
  let state ← fields.need? "state" Document.string?
  guard (state == "valid" || state == "invalid")
  let reason ← fields.need? "reason" Document.string?
  return { isValid := state == "valid", reason := ← Reason.ofName? reason }

def Exposure.ofDocument? : Option Exposure := do
  let fields ← document.fields? ["name", "data_type", "field_name", "object_name", "subject_name",
    "decision", "line", "column"] false
  return {
    name := ← fields.need? "name" Document.string?
    dataType := ← fields.need? "data_type" DataType.ofDocument?
    fieldName := ← fields.option? "field_name" Document.string?
    objectName := ← fields.option? "object_name" Document.string?
    subjectName := ← fields.option? "subject_name" Document.string?
    decision := ← fields.need? "decision" Decision.ofDocument?
    line := ← fields.need? "line" Document.word?
    column := ← fields.need? "column" Document.word? }

def Finding.ofDocument? : Option Finding := do
  let fields ← document.fields? ["id", "rule_id", "title", "description", "severity", "file_path",
    "line", "column", "location", "code_snippet", "remediation", "cwe", "data_types"] false
  return {
    id := ← fields.need? "id" Document.string?
    rule := ← fields.need? "rule_id" Document.string?
    title := ← fields.need? "title" Document.string?
    description := ← fields.need? "description" Document.string?
    severity := ← fields.need? "severity" Severity.ofDocument?
    file := ← fields.need? "file_path" Document.string?
    line := ← fields.need? "line" Document.word?
    column := ← fields.need? "column" Document.word?
    location := ← fields.need? "location" Document.string?
    snippet := ← fields.option? "code_snippet" Document.string?
    remediation := ← fields.need? "remediation" Document.string?
    cwe := ← fields.option? "cwe" Document.string?
    exposures := ← fields.getD? "data_types" [] (Document.listOf? Exposure.ofDocument?) }

def SkippedFile.ofDocument? : Option SkippedFile := do
  let fields ← document.fields? ["path", "reason"] false
  return {
    path := ← fields.need? "path" Document.string?
    reason := ← fields.need? "reason" Document.string? }

end LeakTrace
