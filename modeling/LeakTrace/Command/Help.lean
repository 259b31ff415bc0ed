import LeakTrace.Command.Form

namespace LeakTrace.Help

def programName : String := "leak-sentinel"

def width : Nat := 100

def spaces (n : Nat) : String := String.ofList (List.replicate n ' ')

def padded (n : Nat) (text : String) : String := text ++ spaces (n - text.length)

/-- Fills lines of at most `limit` characters with the words; a longer word has a line of its own. -/
def fill (limit : Nat) : (line : String) → List String → List String
  | line, [] => [line]
  | line, word :: rest =>
    if limit < line.length + 1 + word.length then line :: fill limit word rest
    else fill limit (line ++ " " ++ word) rest

def wrapLines (limit : Nat) (text : String) : List String :=
  match (Text.splitAt (· == ' ') text.toList).map String.ofList with
  | [] => [""]
  | word :: rest => fill limit word rest

def wrap (limit indent : Nat) (text : String) : String :=
  String.intercalate ("\n" ++ spaces indent) (wrapLines limit text)

/-- The short or the long form of a text with details, indented from its second line on. -/
def paragraphs (long : Bool) (indent : Nat) (about : String) (details : Option String) : String :=
  match long, details with
  | true, some details => wrap (width - indent) indent (about ++ ".") ++ "\n" ++ spaces indent ++ "\n" ++
      spaces indent ++ wrap (width - indent) indent details
  | _, _ => wrap (width - indent) indent about

def formatAbout : OutputFormat → String
  | .terminal => "Colorized console output"
  | .json => "The report as JSON"
  | .markdown => "The report as a Markdown document"
  | .github => "GitHub Actions annotations"
  | .detections => "Raw per-file detections as JSON, before grading"

structure Row where
  lead : String
  about : String
  details : Option String := none
  /-- Stands behind a short text, or below a long one. -/
  notes : List String := []
  /-- The same for the long help, where values have texts of their own. -/
  values : List (String × String) := []

def defaultNote : String := "[default: " ++ OutputFormat.terminal.name ++ "]"

def ofSwitch (switch : Switch) : Row :=
  let lead := match switch.short with
    | some c => "-" ++ c.toString ++ ", --"
    | none => "    --"
  { lead := lead ++ switch.name ++ " <" ++ switch.blank.label ++ ">"
    about := switch.blank.about
    details := switch.blank.details
    notes := if switch.sort = .format then
        [defaultNote, "[possible values: " ++
          String.intercalate ", " (OutputFormat.all.map OutputFormat.name) ++ "]"]
      else []
    values := if switch.sort = .format then
        OutputFormat.all.map fun format => (format.name, formatAbout format)
      else [] }

def ofPlace (place : Blank) : Row :=
  { lead := "<" ++ place.label ++ ">", about := place.about, details := place.details }

def shortRow (column : Nat) (row : Row) : String :=
  let text := String.intercalate " " (row.about :: row.notes)
  "  " ++ padded column row.lead ++ "  " ++ wrap (width - column - 4) (column + 4) text

def longRow (row : Row) : String :=
  let indent := spaces 10
  let names := (row.values.map fun (name, _) => name.length).foldl max 0
  "  " ++ row.lead ++ "\n" ++ indent ++ paragraphs true 10 row.about row.details ++
    if row.values.isEmpty then ""
    else "\n\n" ++ indent ++ "Possible values:" ++
      String.join (row.values.map fun (name, about) =>
        "\n" ++ indent ++ "- " ++ padded (names + 2) (name ++ ":") ++ about) ++
      "\n\n" ++ indent ++ defaultNote

def rows (long : Bool) (items : List Row) : String :=
  let column := (items.map fun row => row.lead.length).foldl max 0
  if long then String.intercalate "\n\n" (items.map longRow)
  else String.intercalate "\n" (items.map (shortRow column))

def sectionText (long : Bool) (title : String) (items : List Row) : String :=
  if items.isEmpty then "" else "\n\n" ++ title ++ ":\n" ++ rows long items

def flagRows (helpNote : String) : List Row :=
  [{ lead := "-h, --help", about := "Print help" ++ helpNote },
    { lead := "-V, --version", about := "Print version" }]

def hasLong (form : Form) : Bool :=
  form.details.isSome || form.places.any (·.details.isSome) ||
    form.switches.any fun switch => switch.blank.details.isSome || switch.sort = .format

def ofForm (form : Form) (long : Bool) : String :=
  let isLong := long && hasLong form
  let note := if isLong then " (see a summary with '-h')"
    else if hasLong form then " (see more with '--help')" else ""
  let usage := programName ++ " " ++ form.name ++ (if form.switches.isEmpty then "" else " [OPTIONS]") ++
    String.join (form.places.map fun place => " <" ++ place.label ++ ">")
  paragraphs isLong 0 form.about form.details ++ "\n\nUsage: " ++ usage ++
    sectionText isLong "Arguments" (form.places.map ofPlace) ++
    sectionText isLong "Options" (form.switches.map ofSwitch ++ flagRows note) ++ "\n"

def helpAbout : String := "Print this message or the help of the given subcommand(s)"

def overview : String :=
  "Static analysis scanner for sensitive data leaks in JavaScript and Rust\n\nUsage: " ++ programName ++
    " <COMMAND>" ++
    sectionText false "Commands" ((Form.all.map fun form => { lead := form.name, about := form.about }) ++
      [{ lead := "help", about := helpAbout }]) ++
    sectionText false "Options" (flagRows "") ++ "\n"

def ofHelp : String :=
  helpAbout ++ "\n\nUsage: " ++ programName ++ " help [COMMAND]..." ++
    sectionText false "Arguments"
      [{ lead := "[COMMAND]...", about := "Print help for the subcommand(s)" }] ++ "\n"

end LeakTrace.Help
