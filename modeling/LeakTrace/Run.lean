import LeakTrace.Command.Arguments
import LeakTrace.Report.Markdown
import LeakTrace.Report.Terminal
import LeakTrace.Report.WorkflowCommand
import LeakTrace.Scan

namespace LeakTrace

structure Outcome where
  code : Nat
  output : String
  deriving DecidableEq, Inhabited

namespace Outcome

def done (output : String) : Outcome := { code := 0, output }

def failed : Outcome := { code := 1, output := "" }

def misused : Outcome := { code := 2, output := "" }

end Outcome

/-! ### Texts -/

def Rule.listing (rule : Rule) : String :=
  "  " ++ rule.id ++ " " ++ rule.title ++ " [" ++ rule.severity.title ++ "]" ++
    (if rule.auxiliary then " (auxiliary)" else "") ++ "\n" ++
    "     " ++ String.intercalate ", " (rule.languages.map Language.name) ++ "\n\n"

def RuleSet.listing (set : RuleSet) : String :=
  "[*] Available Detection Rules:\n" ++ Terminal.rule '-' ++ String.join (set.rules.map Rule.listing)

/-- Findings by rule, path below `base` and line; the last one of a key counts. Sorted by keys. -/
def keyedFindings (base : String) (findings : List Finding) : List (String × Finding) :=
  let keyed := findings.map fun finding =>
    (finding.rule ++ ":" ++ Path.relative finding.file base ++ ":" ++ toString finding.line, finding)
  let last := keyed.foldl (fun kept entry => entry :: kept.filter fun other => other.1 != entry.1) []
  last.mergeSort fun a b => a.1 ≤ b.1

def findingsBeyond (known others : List (String × Finding)) : List Finding :=
  (others.filter fun entry => (known.lookup entry.1).isNone).map Prod.snd

def Finding.changeLine (finding : Finding) : String :=
  "  [" ++ finding.rule ++ "] " ++ finding.title ++ " (" ++ finding.file ++ ":" ++
    toString finding.line ++ ")\n"

def changeSection (title : String) (findings : List Finding) : String :=
  if findings.isEmpty then ""
  else "\n[" ++ title ++ "]\n" ++ String.join (findings.map Finding.changeLine)

def changesText (old new : List (String × Finding)) : String :=
  let added := findingsBeyond old new
  let fixed := findingsBeyond new old
  "\n=== Differential Analysis Results ===\n" ++
    if added.isEmpty && fixed.isEmpty then "No leak changes detected.\n"
    else changeSection "NEW LEAKS DETECTED" added ++ changeSection "LEAKS FIXED" fixed

/-! ### Running -/

namespace Disk

variable {m : Type → Type} [Monad m] (disk : Disk m)

/-- Sets up a scan of `path` and carries it out. -/
def perform (path : String) (sources : Sources) : m (Except SetupError (Scanner × ScanResult)) := do
  match ← disk.config sources.config path with
  | .error error => return .error error
  | .ok config =>
    let config := config.merge
      { rules := sources.rules, catalog := sources.catalog, jobs := sources.jobs }
    match ← disk.scanner config sources.only sources.exclude with
    | .error error => return .error error
    | .ok scanner =>
      let files ← disk.discover scanner path
      return .ok (scanner, ← disk.scan scanner files)

def emit (directory : Option String) (name content : String) : m Outcome := do
  match directory with
  | none => return .done (content ++ "\n")
  | some directory =>
    if ← disk.write directory name content then return .done "" else return .failed

variable (timestamp : String)

def runScan (request : ScanRequest) : m Outcome := do
  match ← disk.perform request.path request.sources with
  | .error _ => return .failed
  | .ok (scanner, result) =>
    let minimum := (request.severity.map Severity.ofText).getD .info
    let report := scanner.report timestamp request.path minimum result
    match request.format with
    | .detections =>
      disk.emit request.output "detections.json"
        (Json.pretty 0 (.list (result.files.map FileDetections.document)))
    | .json => disk.emit request.output "leak_report.json" (Json.pretty 0 report.document)
    | .markdown => disk.emit request.output "leak_report.md" (Markdown.render report)
    | .github =>
      let commands := WorkflowCommand.render report
      return .done (if commands.isEmpty then "" else commands ++ "\n")
    | .terminal => return .done (Terminal.render report)

def findingsAt (path : String) (sources : Sources) : m (Option (List (String × Finding))) := do
  match ← disk.perform path sources with
  | .error _ => return none
  | .ok (scanner, result) =>
    return some (keyedFindings path (scanner.rules.grade .info result.detections))

def runDiff (old new : String) (sources : Sources) : m Outcome := do
  match ← disk.canonical old, ← disk.canonical new with
  | some old, some new =>
    match ← disk.findingsAt old sources, ← disk.findingsAt new sources with
    | some old, some new => return .done (changesText old new)
    | _, _ => return .failed
  | _, _ => return .failed

def runRules (path : Option String) : m Outcome := do
  let rules ← match path with
    | some path => disk.rules path
    | none => pure RuleSet.builtIn
  match rules with
  | .ok rules => return .done rules.listing
  | .error _ => return .failed

def runCommand : Command → m Outcome
  | .scan request => disk.runScan timestamp request
  | .diff old new sources => disk.runDiff old new sources
  | .rules path => disk.runRules path
  | .version => return .done ("Leak-Sentinel version: " ++ currentVersion ++ "\n")
  | .tell text => return .done text

def run (arguments : List String) : m Outcome :=
  match Command.ofArguments? arguments with
  | some command => disk.runCommand timestamp command
  | none => return .misused

end Disk

end LeakTrace
