import LeakTrace.Document.Json
import LeakTrace.Document.Yaml
import LeakTrace.Error
import LeakTrace.Path

namespace LeakTrace

inductive Format where
  | yaml | json
  deriving DecidableEq, Inhabited

namespace Format

def ofPath (path : String) : Format :=
  if Path.extension? path == some "json" then json else yaml

def document? : Format → String → Option Document
  | yaml => Yaml.document?
  | json => Json.document?

def error (origin : String) : Format → SetupError
  | yaml => .yaml origin
  | json => .json origin

/-- Reads what a text holds; `origin` names the text in errors. -/
def load {α : Type} (format : Format) (read : Document → Option α) (origin text : String) :
    Except SetupError α :=
  match (format.document? text).bind read with
  | some value => .ok value
  | none => .error (format.error origin)

end Format

end LeakTrace
