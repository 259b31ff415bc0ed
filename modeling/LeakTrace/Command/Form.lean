import LeakTrace.Command.Basic
import LeakTrace.Text.Basic

namespace LeakTrace

inductive ValueSort where
  | path | text | list | number | format
  deriving DecidableEq, Inhabited

/-- A value in a form: its name and what it is for. Further paragraphs stand in the long help only. -/
structure Blank where
  label : String
  about : String
  details : Option String := none
  deriving DecidableEq, Inhabited

structure Switch where
  name : String
  short : Option Char := none
  sort : ValueSort
  blank : Blank
  deriving DecidableEq, Inhabited

structure Form where
  name : String
  about : String
  details : Option String := none
  places : List Blank := []
  switches : List Switch := []
  deriving DecidableEq, Inhabited

def ValueSort.accepts (value : String) : ValueSort → Bool
  | path => !value.isEmpty
  | text | list => true
  | number => (Text.word? value).isSome
  | format => (OutputFormat.ofName? value).isSome

/-- Lists may be given several times, all else once. -/
def ValueSort.repeats (sort : ValueSort) : Bool := sort == .list

namespace Form

def sourceSwitches : List Switch := [
  { name := "rules", sort := .path
    blank := { label := "PATH", about := "Rule file or directory replacing the built-in rules" } },
  { name := "catalog", sort := .path
    blank := { label := "FILE", about := "Data type catalog replacing the built-in catalog" } },
  { name := "config", sort := .path
    blank := { label := "FILE", about := "Configuration file"
               details := some
                 "Defaults to `leak-sentinel.toml` in the scanned directory when present." } },
  { name := "exclude", short := some 'x', sort := .list
    blank := { label := "EXCLUDE", about := "Exclude specific rules from the scan"
               details := some ("Comma-separated list of rule IDs to skip. " ++
                 "Example: --exclude javascript_insecure_http") } },
  { name := "only", sort := .list
    blank := { label := "ONLY", about := "Include only specific rules in the scan"
               details := some ("Comma-separated list of rule IDs to run. " ++
                 "Example: --only javascript_logger_leak,rust_logger_leak") } },
  { name := "jobs", short := some 'j', sort := .number
    blank := { label := "JOBS", about := "Number of worker threads" } }]

def scan : Form where
  name := "scan"
  about := "Scan source code for sensitive data leaks"
  details := some ("Resolves variables, object shapes and property chains per file and reports " ++
    "every rule sink that receives a sensitive data type.")
  places := [
    { label := "PATH", about := "Path to the file or directory to scan"
      details := some ("Directories are searched recursively for `.js`, `.jsx`, `.mjs`, `.cjs` " ++
        "and `.rs` files.") }]
  switches := [
    { name := "format", short := some 'f', sort := .format
      blank := { label := "FORMAT", about := "Output format for the report" } },
    { name := "output", short := some 'o', sort := .path
      blank := { label := "OUTPUT", about := "Output directory for the report"
                 details := some "If not specified, the report is printed to stdout." } },
    { name := "severity", short := some 's', sort := .text
      blank := { label := "SEVERITY", about := "Minimum severity level to include in results"
                 details := some "Valid values: critical, high, medium, low, info" } }]
    ++ sourceSwitches

def diff : Form where
  name := "diff"
  about := "Compare findings between two versions of a codebase"
  details := some "Runs a full scan on both directories and reports: - New leaks - Fixed leaks"
  places := [
    { label := "OLD_PATH", about := "Path to the old version (base)" },
    { label := "NEW_PATH", about := "Path to the new version (target)" }]
  switches := sourceSwitches

def rules : Form where
  name := "rules"
  about := "List the loaded detection rules"
  details := some "Displays the ID, title, severity and languages of each rule."
  switches := sourceSwitches.take 1

def version : Form where
  name := "version"
  about := "Print version information"

def all : List Form := [scan, diff, rules, version]

end Form

end LeakTrace
