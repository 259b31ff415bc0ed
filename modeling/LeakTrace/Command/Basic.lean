namespace LeakTrace

inductive OutputFormat where
  | terminal | json | markdown | github | detections
  deriving DecidableEq, Inhabited

namespace OutputFormat

def all : List OutputFormat := [terminal, json, markdown, github, detections]

def name : OutputFormat → String
  | terminal => "terminal"
  | json => "json"
  | markdown => "markdown"
  | github => "github"
  | detections => "detections"

def ofName? (name : String) : Option OutputFormat := all.find? fun format => format.name == name

end OutputFormat

structure Sources where
  rules : Option String := none
  catalog : Option String := none
  config : Option String := none
  exclude : List String := []
  only : List String := []
  jobs : Option Nat := none
  deriving DecidableEq, Inhabited

structure ScanRequest where
  path : String
  format : OutputFormat := .terminal
  output : Option String := none
  severity : Option String := none
  sources : Sources := {}
  deriving DecidableEq, Inhabited

inductive Command where
  | scan (request : ScanRequest)
  | diff (old new : String) (sources : Sources)
  | rules (path : Option String)
  | version
  /-- Only prints a text: help or a version. -/
  | tell (text : String)
  deriving DecidableEq, Inhabited

end LeakTrace
