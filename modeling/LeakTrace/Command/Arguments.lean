import LeakTrace.Command.Help
import LeakTrace.Report.Basic

namespace LeakTrace

structure Given where
  places : List String := []
  switches : List (String × String) := []
  deriving DecidableEq, Inhabited

namespace Given

def place? (form : Form) (given : Given) (value : String) : Option Given :=
  if given.places.length < form.places.length ∧ ValueSort.path.accepts value then
    some { given with places := given.places ++ [value] }
  else none

variable (given : Given)

def switch? (switch : Switch) (value : String) : Option Given :=
  if switch.sort.accepts value && (switch.sort.repeats || !given.switches.any (·.1 == switch.name)) then
    some { given with switches := given.switches ++ [(switch.name, value)] }
  else none

def value? (name : String) : Option String := given.switches.lookup name

def entries (name : String) : List String :=
  given.switches.flatMap fun (key, value) =>
    if key == name then (Text.splitAt (· == ',') value.toList).map String.ofList else []

def sources : Sources where
  rules := given.value? "rules"
  catalog := given.value? "catalog"
  config := given.value? "config"
  exclude := given.entries "exclude"
  only := given.entries "only"
  jobs := (given.value? "jobs").bind Text.word?

end Given

inductive Argument where
  | place
  | help (long : Bool)
  | version
  /-- An option with its value, or with the value to follow. -/
  | switch (switch : Switch) (value : Option String)
  | dashes
  | unknown
  deriving DecidableEq, Inhabited

namespace Argument

def attached : List Char → Option String
  | [] => none
  | '=' :: value => some (String.ofList value)
  | value => some (String.ofList value)

def ofText (form : Form) (text : String) : Argument :=
  match text.toList with
  | ['-', '-'] => dashes
  | '-' :: '-' :: rest =>
    let name := String.ofList (rest.takeWhile (· != '='))
    let value := match rest.dropWhile (· != '=') with
      | [] => none
      | _ :: value => some (String.ofList value)
    match name, value with
    | "help", none => help true
    | "version", none => version
    | _, _ =>
      match form.switches.find? fun switch => switch.name == name with
      | some found => switch found value
      | none => unknown
  | '-' :: 'h' :: _ => help false
  | '-' :: 'V' :: _ => version
  | '-' :: c :: rest =>
    match form.switches.find? fun switch => switch.short == some c with
    | some found => switch found (attached rest)
    | none => unknown
  | _ => place

end Argument

inductive Reading where
  | given (given : Given)
  | tell (text : String)
  | refused
  deriving DecidableEq, Inhabited

namespace Form

def readPlaces (form : Form) (given : Given) : List String → Reading
  | [] => .given given
  | value :: rest =>
    match given.place? form value with
    | some given => form.readPlaces given rest
    | none => .refused

/-- Reads arguments from left to right. The first that is wrong, or asks for help, decides. -/
def read (form : Form) (given : Given) : List String → Reading
  | [] => .given given
  | text :: rest =>
    match Argument.ofText form text with
    | .place =>
      match given.place? form text with
      | some given => form.read given rest
      | none => .refused
    | .help long => .tell (Help.ofForm form long)
    | .version => .tell (Help.programName ++ "-" ++ form.name ++ " " ++ currentVersion ++ "\n")
    | .switch switch (some value) =>
      match given.switch? switch value with
      | some given => form.read given rest
      | none => .refused
    | .switch switch none =>
      match rest with
      | [] => .refused
      | value :: rest =>
        match Argument.ofText form value with
        | .place =>
          match given.switch? switch value with
          | some given => form.read given rest
          | none => .refused
        | _ => .refused
    | .dashes => form.readPlaces given rest
    | .unknown => .refused

def command? (form : Form) (given : Given) : Option Command :=
  match form.name, given.places with
  | "scan", [path] => some (.scan {
      path
      format := ((given.value? "format").bind OutputFormat.ofName?).getD .terminal
      output := given.value? "output"
      severity := given.value? "severity"
      sources := given.sources })
  | "diff", [old, new] => some (.diff old new given.sources)
  | "rules", [] => some (.rules (given.value? "rules"))
  | "version", [] => some .version
  | _, _ => none

def named? (name : String) : Option Form := all.find? fun form => form.name == name

end Form

namespace Command

/-- What the arguments ask for; none if they cannot be understood. -/
def ofArguments? : List String → Option Command
  | [] => none
  | "help" :: rest =>
    match rest with
    | [] => some (.tell Help.overview)
    | ["help"] => some (.tell Help.ofHelp)
    | [name] => (Form.named? name).map fun form => .tell (Help.ofForm form true)
    | _ => none
  | name :: rest =>
    match Form.named? name with
    | some form =>
      match form.read {} rest with
      | .given given => form.command? given
      | .tell text => some (.tell text)
      | .refused => none
    | none =>
      match Argument.ofText default name with
      | .help _ => some (.tell Help.overview)
      | .version => some (.tell (Help.programName ++ " " ++ currentVersion ++ "\n"))
      | _ => none

end Command

end LeakTrace
