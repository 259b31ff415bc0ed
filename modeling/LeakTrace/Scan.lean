import LeakTrace.Catalog.Defaults
import LeakTrace.Config
import LeakTrace.Disk
import LeakTrace.Document.Format
import LeakTrace.Regex.Read
import LeakTrace.Report.Basic
import LeakTrace.Rule.Defaults

namespace LeakTrace

structure FileDetections where
  path : String
  detections : List Detection
  deriving Inhabited

structure ScanResult where
  files : List FileDetections
  skipped : List SkippedFile
  deriving Inhabited

structure Scanner where
  config : Config
  rules : RuleSet
  classifier : Classifier
  excludes : List Glob
  deriving Inhabited

def FileDetections.document (file : FileDetections) : Document :=
  .object [("path", .string file.path),
    ("detections", .list (file.detections.map Detection.document))]

def ScanResult.detections (result : ScanResult) : List Detection :=
  result.files.flatMap FileDetections.detections

namespace Scanner

variable (scanner : Scanner)

def detect (file source : String) : Except FileFault (List Detection) := do
  match Language.ofPath? file with
  | none => throw (.unsupportedLanguage file)
  | some language =>
    let tree ← Source.tree language file source scanner.config.maxDepth
    let model ← Model.ofTree tree language.blockScoped scanner.config.limits
    return scanner.rules.detect scanner.classifier model

def detectBytes (path : String) (bytes : ByteArray) : Except FileFault (List Detection) :=
  let limit := scanner.config.maxFileBytes
  if limit < bytes.size then .error (.fileTooLarge bytes.size limit)
  else match String.fromUTF8? bytes with
    | some source => scanner.detect path source
    | none => .error (.unreadable path "stream did not contain valid UTF-8")

/-- Whether a glob leaves out the file, by its path from the scanned root or by its whole path. -/
def isExcluded (relative path : String) : Bool :=
  scanner.excludes.any fun glob => glob.matchesPath relative || glob.matchesPath path

def resultOf (outcomes : List (String × Except FileFault (List Detection))) : ScanResult :=
  let files := outcomes.filterMap fun (path, outcome) =>
    match outcome with
    | .ok detections => some { path, detections : FileDetections }
    | .error _ => none
  let skipped := outcomes.filterMap fun (path, outcome) =>
    match outcome with
    | .ok _ => none
    | .error fault => some { path, reason := fault.message : SkippedFile }
  { files := files.mergeSort fun a b => a.path ≤ b.path
    skipped := skipped.mergeSort fun a b => a.path ≤ b.path }

/-- The report on a scan of `root`, without findings below `minimum`. -/
def report (timestamp root : String) (minimum : Severity) (result : ScanResult) : Report :=
  .ofFindings (scanner.rules.grade minimum result.detections) timestamp root result.files.length
    scanner.rules.reported.length result.skipped

end Scanner

/-! ### Reading from a disk -/

namespace Disk

variable {m : Type → Type} [Monad m] {α : Type} (disk : Disk m)

def text (path : String) : m (Except SetupError String) := do
  match ← disk.read path with
  | .ok bytes =>
    match String.fromUTF8? bytes with
    | some text => return .ok text
    | none => return .error (.unreadable path)
  | .error _ => return .error (.unreadable path)

def load (read : Document → Option α) (path : String) : m (Except SetupError α) := do
  match ← disk.text path with
  | .ok text => return (Format.ofPath path).load read path text
  | .error error => return .error error

def loadAll (read : Document → Option (List α)) :
    List String → m (Except SetupError (List α))
  | [] => return .ok []
  | path :: rest => do
    match ← disk.load read path with
    | .error error => return .error error
    | .ok items =>
      match ← loadAll read rest with
      | .error error => return .error error
      | .ok more => return .ok (items ++ more)

/-- The rule files at a path: the file itself, or those of a directory in order. -/
def ruleFiles (path : String) : m (List String) := do
  if ← disk.isDirectory path then
    let names ← disk.entries path
    let paths := path :: names.map (Path.join path)
    let wanted := paths.filter fun path =>
      ["yml", "yaml", "json"].contains ((Path.extension? path).getD "")
    return wanted.mergeSort Path.le
  else return [path]

def rules (path : String) : m (Except SetupError RuleSet) := do
  match ← disk.loadAll RuleDraft.listOfDocument? (← disk.ruleFiles path) with
  | .ok drafts => return RuleSet.ofDrafts drafts
  | .error error => return .error error

def catalog (path : String) : m (Except SetupError Catalog) := do
  match ← disk.load CatalogDraft.ofDocument? path with
  | .ok draft => return Catalog.ofDraft draft
  | .error error => return .error error

def configAt (path : String) : m (Except SetupError Config) := do
  match ← disk.text path with
  | .ok text => return Config.ofFile path text
  | .error error => return .error error

/-- The configuration of a run: of the given file, or of a file beside what is scanned. -/
def config (given : Option String) (root : String) : m (Except SetupError Config) := do
  match given with
  | some path => disk.configAt path
  | none =>
    let directory := if ← disk.isDirectory root then root else (Path.parent? root).getD "."
    let candidate := Path.join directory Config.fileName
    if ← disk.isFile candidate then disk.configAt candidate else return .ok {}

def scanner (config : Config) (only exclude : List String) : m (Except SetupError Scanner) := do
  let rules ← match config.rules with
    | some path => disk.rules path
    | none => pure RuleSet.builtIn
  match rules with
  | .error error => return .error error
  | .ok rules =>
    let catalog ← match config.catalog with
      | some path => disk.catalog path
      | none => pure Catalog.builtIn
    return do
      let catalog ← catalog
      let excludes ← config.globs
      return {
        config
        rules := rules.select only exclude
        classifier := Classifier.ofCatalog catalog config.classificationDepth
        excludes }

def ignored : List String := [".git", "target"]

def depthLimit : Nat := 4096

def filesBelow : (fuel : Nat) → (relative path : String) → m (List (String × String))
  | 0, _, _ => return []
  | fuel + 1, relative, path => do
    let found ← (← disk.entries path).mapM fun name => do
      let inner := Path.join relative name
      let full := Path.join path name
      if ← disk.isDirectory full then
        if ignored.contains name then pure [] else filesBelow fuel inner full
      else if ← disk.isFile full then pure [(inner, full)]
      else pure []
    return found.flatten

/-- The files that a scan of `root` looks at, sorted by paths. A file is taken as it is. -/
def discover (scanner : Scanner) (root : String) : m (List String) := do
  if ← disk.isFile root then return [root]
  else if ← disk.isDirectory root then
    let files ← disk.filesBelow depthLimit "" root
    let wanted := files.filter fun (relative, path) =>
      (Language.ofPath? path).isSome && !scanner.isExcluded relative path
    return (wanted.map Prod.snd).mergeSort Path.le
  else return []

/-- Looks at every file in turn. A file that fails never stops the scan. -/
def scan (scanner : Scanner) (files : List String) : m ScanResult := do
  let outcomes ← files.mapM fun path => do
    match ← disk.read path with
    | .ok bytes => return (path, scanner.detectBytes path bytes)
    | .error cause => return (path, .error (.unreadable path cause))
  return Scanner.resultOf outcomes

end Disk

end LeakTrace
