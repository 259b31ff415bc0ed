import LeakTrace.Text.Basic

namespace LeakTrace.FieldName

/-- Whether a word starts at the capital `c` that follows `previous`: after a small letter or a
digit, or when it is the last capital of a run that goes on in small letters. -/
def startsWord (previous c : Char) (next : Option Char) : Bool :=
  Letter.isUppercase c &&
    (Letter.isLowercase previous || Letter.isAsciiDigit previous ||
      (Letter.isUppercase previous && next.any Letter.isLowercase))

def flush (word : List Char) (words : List (List Char)) : List (List Char) :=
  if word.isEmpty then words else word :: words

/-- The words of a name in lower case. `word` is the word under way, and `previous` the character
before the rest. -/
def splitFrom (previous : Char) (word : List Char) : List Char → List (List Char)
  | [] => flush word []
  | c :: rest =>
    if !Letter.isAlphanumeric c then flush word (splitFrom c [] rest)
    else if !word.isEmpty && startsWord previous c rest.head? then
      word :: splitFrom c (Letter.lower c) rest
    else splitFrom c (word ++ Letter.lower c) rest

def wordsOf (name : String) : List (List Char) := splitFrom ' ' [] name.toList

/-- The canonical form of a name: its words in lower case with single spaces between them. -/
def normalize (name : String) : String :=
  String.intercalate " " ((wordsOf name).map String.ofList)

end LeakTrace.FieldName
