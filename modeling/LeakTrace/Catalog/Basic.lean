import LeakTrace.Catalog.FieldName
import LeakTrace.Document.Basic
import LeakTrace.Path
import LeakTrace.Regex.Engine

namespace LeakTrace

structure DataType where
  name : String
  id : String
  category : String
  deriving DecidableEq, Inhabited

structure DataTypeDraft where
  dataType : DataType
  patterns : List String
  excludePatterns : List String := []
  caseSensitive : Bool := false
  /-- The patterns may fit names of database identifiers. -/
  allowIdentifier : Bool := false
  deriving Inhabited

structure CatalogDraft where
  dataTypes : List DataTypeDraft
  knownObjects : List String := []
  stopWords : List String := []
  fallbackOnUnresolved : Bool := true
  vendorDirectories : List String := ["vendor", "node_modules", "third_party"]
  deriving Inhabited

def DataTypeDraft.ofDocument? (document : Document) : Option DataTypeDraft := do
  let fields ← document.fields? ["name", "id", "category_id", "patterns", "exclude_patterns",
    "case_sensitive", "allow_identifier"] false
  return {
    dataType :=
      { name := ← fields.need? "name" Document.string?
        id := ← fields.need? "id" Document.string?
        category := ← fields.need? "category_id" Document.string? }
    patterns := ← fields.need? "patterns" Document.strings?
    excludePatterns := ← fields.getD? "exclude_patterns" [] Document.strings?
    caseSensitive := ← fields.getD? "case_sensitive" false Document.bool?
    allowIdentifier := ← fields.getD? "allow_identifier" false Document.bool? }

def CatalogDraft.ofDocument? (document : Document) : Option CatalogDraft := do
  let fields ← document.fields? ["data_types", "known_objects", "stop_words",
    "fallback_on_unresolved", "vendor_directories"] false
  let base : CatalogDraft :=
    { dataTypes := ← fields.need? "data_types" (Document.listOf? DataTypeDraft.ofDocument?) }
  return { base with
    knownObjects := ← fields.getD? "known_objects" [] Document.strings?
    stopWords := ← fields.getD? "stop_words" [] Document.strings?
    fallbackOnUnresolved := ← fields.getD? "fallback_on_unresolved" true Document.bool?
    vendorDirectories :=
      ← fields.getD? "vendor_directories" base.vendorDirectories Document.strings? }

structure CatalogEntry where
  dataType : DataType
  patterns : List (String → Bool)
  exceptions : List (String → Bool)
  caseSensitive : Bool
  allowIdentifier : Bool
  deriving Inhabited

structure Catalog where
  entries : List CatalogEntry
  knownObjects : List (String → Bool)
  /-- In canonical form. -/
  stopWords : List String
  vendorDirectories : List String
  fallbackOnUnresolved : Bool
  isIdentifier : String → Bool
  deriving Inhabited

/-- A sort of data that a name tells, and whether the name looks like a database identifier. -/
structure NameMatch where
  dataType : DataType
  identifier : Bool
  deriving DecidableEq, Inhabited

namespace CatalogEntry

def regexes [RegexEngine] (texts : List String) (caseless : Bool) :
    Except SetupError (List (String → Bool)) :=
  texts.mapM (RegexEngine.compile · caseless)

def ofDraft [RegexEngine] (draft : DataTypeDraft) : Except SetupError CatalogEntry := do
  return {
    dataType := draft.dataType
    patterns := ← regexes draft.patterns (!draft.caseSensitive)
    exceptions := ← regexes draft.excludePatterns (!draft.caseSensitive)
    caseSensitive := draft.caseSensitive
    allowIdentifier := draft.allowIdentifier }

def fits (entry : CatalogEntry) (name normalized : String) : Bool :=
  let subject := if entry.caseSensitive then name else normalized
  entry.patterns.any (· subject) && !entry.exceptions.any (· subject)

end CatalogEntry

namespace Catalog

def entriesOf [RegexEngine] (seen : List String) :
    List DataTypeDraft → Except SetupError (List CatalogEntry)
  | [] => .ok []
  | draft :: rest => do
    let id := draft.dataType.id
    if seen.contains id then throw (.duplicateDataType id)
    let entry ← CatalogEntry.ofDraft draft
    return entry :: (← entriesOf (id :: seen) rest)

def ofDraft [RegexEngine] (draft : CatalogDraft) : Except SetupError Catalog := do
  let entries ← entriesOf [] draft.dataTypes
  return {
    entries
    knownObjects := ← CatalogEntry.regexes draft.knownObjects true
    stopWords := draft.stopWords.map FieldName.normalize
    vendorDirectories := draft.vendorDirectories
    fallbackOnUnresolved := draft.fallbackOnUnresolved
    isIdentifier := ← RegexEngine.compile "\\b(uu)?id\\z" true }

variable (catalog : Catalog) (name : String)

/-- The first entry that fits the name. Names of identifiers fit only entries that allow them. -/
def match? : Option NameMatch :=
  let normalized := FieldName.normalize name
  if normalized.isEmpty then none
  else
    let identifier := catalog.isIdentifier normalized
    (catalog.entries.find? fun entry =>
      (!identifier || entry.allowIdentifier) && entry.fits name normalized).map fun entry =>
        { dataType := entry.dataType, identifier }

def isKnownObject : Bool :=
  let normalized := FieldName.normalize name
  !normalized.isEmpty && catalog.knownObjects.any (· normalized)

def isStopWord : Bool :=
  catalog.stopWords.contains (FieldName.normalize name)

def isVendored (path : String) : Bool :=
  ((Path.parts path).dropLast).any fun part => catalog.vendorDirectories.contains part.text

end Catalog

end LeakTrace
