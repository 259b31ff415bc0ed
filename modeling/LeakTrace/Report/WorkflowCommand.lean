import LeakTrace.Report.Basic

namespace LeakTrace.WorkflowCommand

/-- The text with a code in place of every occurrence of a character. -/
def replace (c : Char) (code : String) (text : List Char) : List Char :=
  text.flatMap fun d => if d = c then code.toList else [d]

/-- A message is a single line. -/
def message (text : String) : String :=
  String.ofList <| replace '\n' "%0A" <| replace '\r' "%0D" <| replace '%' "%25" text.toList

/-- A property ends at a comma or a colon. -/
def property (text : String) : String :=
  String.ofList <| replace ',' "%2C" <| replace ':' "%3A" (message text).toList

def ofFinding (finding : Finding) : String :=
  "::" ++ finding.severity.annotationLevel ++ " file=" ++ property finding.file ++
    ",line=" ++ toString finding.line ++ ",col=" ++ toString finding.column ++
    ",title=" ++ property (finding.title ++ " [" ++ finding.rule ++ "]") ++ "::" ++
    message finding.description

def render (report : Report) : String :=
  String.intercalate "\n" (report.findings.map ofFinding)

end LeakTrace.WorkflowCommand
