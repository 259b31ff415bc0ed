import LeakTrace.Detection

namespace LeakTrace

structure Finding where
  id : String
  rule : String
  title : String
  description : String
  severity : Severity
  file : String
  line : Nat
  column : Nat
  location : String
  snippet : Option String
  remediation : String
  cwe : Option String
  exposures : List Exposure
  deriving DecidableEq, Inhabited

namespace Exposure

/-- The sort of data and the place that holds it. -/
def summary (exposure : Exposure) : String :=
  let field := exposure.fieldName.getD "?"
  match exposure.objectName with
  | some object => exposure.name ++ " (" ++ object ++ "." ++ field ++ ")"
  | none => exposure.name ++ " (" ++ field ++ ")"

def summaries (exposures : List Exposure) : String :=
  String.intercalate ", " (exposures.map summary)

end Exposure

namespace Finding

/-- A hash of 32 bits that takes the bytes in turn: exclusive or, then a product. -/
def hash (text : String) : UInt32 :=
  text.toUTF8.foldl (fun hash byte => (hash ^^^ byte.toUInt32) * 0x01000193) 0x811c9dc5

def hexWord (n : Nat) : String :=
  let digits := Nat.toDigits 16 n
  String.ofList (List.replicate (8 - digits.length) '0' ++ digits)

/-- An identifier that stays the same from run to run. -/
def idOf (rule file : String) (line column : Nat) : String :=
  let place := file ++ ":" ++ toString line ++ ":" ++ toString column
  rule ++ "-" ++ hexWord (hash place).toNat

def ofDetection (rule : Rule) (detection : Detection) : Finding :=
  let description := Text.trimmed rule.description
  let exposures := detection.exposures
  let code := LeakTrace.snippet detection.content 1
  { id := idOf rule.id detection.file detection.span.line detection.span.column
    rule := rule.id
    title := rule.title
    description := if exposures.isEmpty then description
      else description ++ "\nData types: " ++ Exposure.summaries exposures
    severity := rule.severity
    file := detection.file
    line := detection.span.line
    column := detection.span.column
    location := match exposures.head? with
      | some exposure => exposure.subjectName.getD code
      | none => code
    snippet := some (LeakTrace.snippet
      (match detection.context with
        | some (_, content) => content
        | none => detection.content) 5)
    remediation := rule.remediation
    cwe := rule.cwe
    exposures }

def key (finding : Finding) : String :=
  finding.file ++ ":" ++ toString finding.line ++ ":" ++ toString finding.column ++ ":" ++ finding.rule

def deduplicate (findings : List Finding) : List Finding := distinctBy key [] findings

/-- Graver findings come first, then those of earlier files and places. -/
def precedes (a b : Finding) : Bool :=
  b.severity.rank < a.severity.rank || (a.severity == b.severity &&
    (a.file < b.file || (a.file == b.file &&
      (a.line < b.line || (a.line == b.line && a.column ≤ b.column)))))

end Finding

/-- The findings of the detections whose rules are at least as grave as `minimum`. -/
def RuleSet.grade (set : RuleSet) (minimum : Severity) (detections : List Detection) :
    List Finding :=
  let findings := detections.filterMap fun detection =>
    (set.get? detection.rule).bind fun rule =>
      if minimum.rank ≤ rule.severity.rank then some (Finding.ofDetection rule detection) else none
  (Finding.deduplicate findings).mergeSort Finding.precedes

end LeakTrace
