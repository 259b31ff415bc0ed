import LeakTrace.Report.Basic

namespace LeakTrace.Markdown

def fence (path : String) : String :=
  let ending := (path.toList.reverse.takeWhile (· != '.')).reverse
  match String.ofList ending with
  | "rs" => "rust"
  | "js" | "jsx" | "mjs" | "cjs" => "javascript"
  | _ => ""

def between (before text after : String) : String :=
  if text.isEmpty then "" else before ++ text ++ after

/-- The description without the data types, which have a paragraph of their own. -/
def descriptionOf (finding : Finding) : String :=
  match Text.find? "\nData types:".toList finding.description.toList with
  | some (before, _) => String.ofList before
  | none => finding.description

def remediationOf (finding : Finding) : String :=
  String.ofList ((Text.trim finding.remediation.toList).map fun c => if c == '\n' then ' ' else c)

def findingText (number : Nat) (finding : Finding) : String :=
  let code := finding.snippet.getD ""
  "\n### " ++ toString number ++ ". " ++ finding.title ++ "\n\n" ++
    finding.severity.markdownBadge ++ " `" ++ finding.rule ++ "`" ++
    between " (" (finding.cwe.getD "") ")" ++ "\n\n" ++
    "**Location:** `" ++ finding.file ++ ":" ++ toString finding.line ++ ":" ++
    toString finding.column ++ "`\n\n" ++
    between "**Data types:** " (Exposure.summaries finding.exposures) "\n\n" ++
    descriptionOf finding ++ "\n\n" ++
    between ("```" ++ fence finding.file ++ "\n") code "\n```\n\n" ++
    "**Remediation:** " ++ remediationOf finding ++ "\n"

def findingTexts : (number : Nat) → List Finding → String
  | _, [] => ""
  | number, finding :: rest => findingText number finding ++ findingTexts (number + 1) rest

def row (cells : List String) : String := "| " ++ String.intercalate " | " cells ++ " |\n"

def summaryText (summary : Summary) : String :=
  "## Summary\n\n" ++ row ["Critical", "High", "Medium", "Low", "Info", "Total"] ++
    "|---|---|---|---|---|---|\n" ++
    row ([summary.critical, summary.high, summary.medium, summary.low, summary.info,
      summary.total].map toString) ++ "\n"

def render (report : Report) : String :=
  "# Leak-Sentinel Report\n\n| | |\n|---|---|\n" ++
    row ["Scanned path", "`" ++ report.scannedPath ++ "`"] ++
    row ["Version", report.version] ++
    row ["Timestamp", report.timestamp] ++
    row ["Files analyzed", toString report.filesAnalyzed] ++
    row ["Rules", toString report.rulesLoaded] ++ "\n" ++
    summaryText report.summary ++
    (if report.findings.isEmpty then "No sensitive data leaks found.\n"
      else "## Findings\n" ++ findingTexts 1 report.findings) ++
    (if report.skipped.isEmpty then ""
      else "\n## Skipped Files\n\n" ++ row ["File", "Reason"] ++ "|---|---|\n" ++
        String.join (report.skipped.map fun skipped =>
          row ["`" ++ skipped.path ++ "`", skipped.reason]))

end LeakTrace.Markdown
