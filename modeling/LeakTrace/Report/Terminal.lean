import LeakTrace.Report.Basic

namespace LeakTrace.Terminal

def line (text : String) : String := text ++ "\n"

def rule (c : Char) : String := line (String.ofList (List.replicate 60 c))

def indentedLines (lines : List String) : String :=
  String.join (lines.map fun text => line ("   " ++ text))

def findingText (number : Nat) (finding : Finding) : String :=
  line "" ++
    line ("#" ++ toString number ++ " " ++ finding.severity.badge ++ " [" ++ finding.rule ++ "] " ++
      finding.title) ++
    line ("   Location: " ++ finding.file ++ ":" ++ toString finding.line ++ ":" ++
      toString finding.column ++ " (" ++ finding.location ++ ")") ++
    indentedLines (Text.linesOf finding.description) ++
    (match finding.snippet with
      | some code => line "" ++ line "   Code:" ++ indentedLines (Text.linesOf code)
      | none => "") ++
    (match finding.cwe with
      | some cwe => line ("   Reference: " ++ cwe)
      | none => "") ++
    line "" ++ line "   Remediation:" ++
    indentedLines ((Text.linesOf finding.remediation).take 3) ++
    rule '-'

def findingTexts : (number : Nat) → List Finding → String
  | _, [] => ""
  | number, finding :: rest => findingText number finding ++ findingTexts (number + 1) rest

def summaryText (report : Report) : String :=
  let summary := report.summary
  line ("[*] Summary: " ++ toString summary.critical ++ " Critical | " ++ toString summary.high ++
      " High | " ++ toString summary.medium ++ " Medium | " ++ toString summary.low ++ " Low | " ++
      toString summary.info ++ " Info") ++
    line ("[*] " ++ toString report.filesAnalyzed ++ " file(s) analyzed, " ++
      toString report.skipped.length ++ " skipped, " ++ toString report.rulesLoaded ++ " rule(s)") ++
    (if summary.total == 0 then line "[+] No issues found."
      else line ("[!] Total: " ++ toString summary.total ++ " issue(s) found"))

def skippedText (skipped : List SkippedFile) : String :=
  if skipped.isEmpty then ""
  else line "" ++ line "[~] Skipped files:" ++
    String.join (skipped.map fun file => line ("    " ++ file.path ++ " " ++ file.reason))

def render (report : Report) : String :=
  skippedText report.skipped ++
    (if report.findings.isEmpty then line "" ++ line "[+] No sensitive data leaks found."
      else line "" ++ line "[!] Leak Findings:" ++ rule '=' ++ findingTexts 1 report.findings) ++
    line "" ++ rule '=' ++ summaryText report

end LeakTrace.Terminal
