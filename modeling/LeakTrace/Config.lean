import LeakTrace.Document.Toml
import LeakTrace.Flow.Pass
import LeakTrace.Glob
import LeakTrace.Path

namespace LeakTrace

structure Config where
  maxDepth : Nat := 512
  maxNodes : Nat := 250000
  classificationDepth : Nat := 1
  maxFileBytes : Nat := 2097152
  jobs : Option Nat := none
  exclude : List String := []
  rules : Option String := none
  catalog : Option String := none
  deriving DecidableEq, Inhabited

structure Overrides where
  rules : Option String := none
  catalog : Option String := none
  jobs : Option Nat := none
  exclude : List String := []
  deriving DecidableEq, Inhabited

namespace Config

/-- The file that is looked for in a scanned directory. -/
def fileName : String := "leak-sentinel.toml"

def ofDocument? (document : Document) : Option Config := do
  let fields ← document.fields? ["max_depth", "max_nodes", "classification_depth",
    "max_file_bytes", "jobs", "exclude", "rules", "catalog"] true
  let base : Config := {}
  return {
    maxDepth := ← fields.getD? "max_depth" base.maxDepth Document.word?
    maxNodes := ← fields.getD? "max_nodes" base.maxNodes Document.word?
    classificationDepth :=
      ← fields.getD? "classification_depth" base.classificationDepth Document.word?
    maxFileBytes := ← fields.getD? "max_file_bytes" base.maxFileBytes Document.word?
    jobs := ← fields.option? "jobs" Document.word?
    exclude := ← fields.getD? "exclude" base.exclude Document.strings?
    rules := ← fields.option? "rules" Document.string?
    catalog := ← fields.option? "catalog" Document.string? }

def ofText (origin text : String) : Except SetupError Config :=
  match (Toml.document? text).bind ofDocument? with
  | some config => .ok config
  | none => .error (.toml origin)

/-- The configuration of a file, whose paths start at the file's directory. -/
def ofFile (path text : String) : Except SetupError Config := do
  let config ← ofText path text
  let base := (Path.parent? path).getD "."
  return { config with
    rules := config.rules.map (Path.join base)
    catalog := config.catalog.map (Path.join base) }

variable (config : Config)

def merge (overrides : Overrides) : Config :=
  { config with
    rules := overrides.rules.orElse fun _ => config.rules
    catalog := overrides.catalog.orElse fun _ => config.catalog
    jobs := overrides.jobs.orElse fun _ => config.jobs
    exclude := if overrides.exclude.isEmpty then config.exclude else overrides.exclude }

def limits : Limits := { maxDepth := config.maxDepth, maxNodes := config.maxNodes }

def globs : Except SetupError (List Glob) :=
  config.exclude.mapM fun text =>
    match Glob.ofText? text with
    | some glob => .ok glob
    | none => .error (.invalidGlob text)

def document : Document :=
  .object [("max_depth", .nat config.maxDepth), ("max_nodes", .nat config.maxNodes),
    ("classification_depth", .nat config.classificationDepth),
    ("max_file_bytes", .nat config.maxFileBytes), ("jobs", .option .nat config.jobs),
    ("exclude", .strings config.exclude), ("rules", .option .string config.rules),
    ("catalog", .option .string config.catalog)]

end Config

end LeakTrace
