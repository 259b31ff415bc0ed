import LeakTrace.Error

namespace LeakTrace

/-- What regular expressions are read with. -/
class RegexEngine where
  /-- The test whether a text holds a match of the expression, if the expression is well formed. -/
  read? (text : String) (caseless : Bool) : Option (String → Bool)

def RegexEngine.compile [RegexEngine] (text : String) (caseless : Bool) :
    Except SetupError (String → Bool) :=
  match read? text caseless with
  | some isMatch => .ok isMatch
  | none => .error (.invalidRegex text)

end LeakTrace
