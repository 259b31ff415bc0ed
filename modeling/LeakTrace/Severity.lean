import LeakTrace.Text.Basic

namespace LeakTrace

inductive Severity where
  | info | low | medium | high | critical
  deriving DecidableEq, Inhabited

namespace Severity

def rank : Severity → Nat
  | info => 0
  | low => 1
  | medium => 2
  | high => 3
  | critical => 4

def all : List Severity := [info, low, medium, high, critical]

def name : Severity → String
  | info => "info"
  | low => "low"
  | medium => "medium"
  | high => "high"
  | critical => "critical"

def title : Severity → String
  | info => "Info"
  | low => "Low"
  | medium => "Medium"
  | high => "High"
  | critical => "Critical"

def badge : Severity → String
  | info => "INFO"
  | low => "LOW"
  | medium => "MEDIUM"
  | high => "HIGH"
  | critical => "CRITICAL"

def ofName? (name : String) : Option Severity := all.find? fun severity => severity.name == name

/-- Reads a threshold in any case; a word that names no severity keeps everything. -/
def ofText (text : String) : Severity := (ofName? (Text.lowered text)).getD info

def annotationLevel : Severity → String
  | critical | high => "error"
  | medium => "warning"
  | low | info => "notice"

def markdownBadge : Severity → String
  | critical => "![Critical](https://img.shields.io/badge/severity-CRITICAL-red)"
  | high => "![High](https://img.shields.io/badge/severity-HIGH-orange)"
  | medium => "![Medium](https://img.shields.io/badge/severity-MEDIUM-yellow)"
  | low => "![Low](https://img.shields.io/badge/severity-LOW-blue)"
  | info => "![Info](https://img.shields.io/badge/severity-INFO-lightgrey)"

end Severity

/-- The first lines of a text, each without blanks at its end, and dots when something is cut. -/
def snippet (content : String) (maxLines : Nat) : String :=
  let lines := Text.lines content.toList
  let shown := (lines.take (max maxLines 1)).map fun line => String.ofList (Text.trimEnd line)
  String.intercalate "\n" (if lines.length > shown.length then shown ++ ["..."] else shown)

end LeakTrace
