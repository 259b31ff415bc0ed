import LeakTrace.Tree.Kind

namespace LeakTrace.Path

inductive Part where
  | root | here | up
  | name (text : String)
  deriving DecidableEq, Inhabited

def Part.text : Part → String
  | root => "/"
  | here => "."
  | up => ".."
  | name text => text

def part? (text : List Char) : Option Part :=
  if text = [] ∨ text = ['.'] then none
  else if text = ['.', '.'] then some .up
  else some (.name (String.ofList text))

/-- The parts of a path. Only a dot at the very start is kept. -/
def parts (path : String) : List Part :=
  let cs := path.toList
  let pieces := Text.splitAt (· == '/') cs
  let rest := pieces.filterMap part?
  match cs with
  | '/' :: _ => .root :: rest
  | _ => if pieces.head? = some ['.'] then .here :: rest else rest

def fileName? (path : String) : Option String :=
  match (parts path).getLast? with
  | some (.name text) => some text
  | _ => none

/-- What follows the last dot of the file name; a dot at its start does not count. -/
def extension? (path : String) : Option String :=
  (fileName? path).bind fun name =>
    let backwards := name.toList.reverse
    let ending := backwards.takeWhile (· != '.')
    match backwards.drop (ending.length + 1) with
    | [] => none
    | _ :: _ => some (String.ofList ending.reverse)

/-- The reversed text without slashes and dots at its end that say nothing; the root is kept. -/
def dropTrailing : List Char → List Char
  | ['/'] => ['/']
  | '/' :: rest => dropTrailing rest
  | '.' :: '/' :: rest =>
    match rest with
    | [] => ['/']
    | _ => dropTrailing rest
  | cs => cs

/-- The path without its last part; a root or an empty path has none. -/
def parent? (path : String) : Option String :=
  match dropTrailing path.toList.reverse with
  | [] | ['/'] => none
  | cs => some (String.ofList (dropTrailing (cs.dropWhile (· != '/'))).reverse)

/-- The second path below the first one, unless it starts at the root. -/
def join (base path : String) : String :=
  if path.toList.head? == some '/' || base.isEmpty then path
  else if base.toList.getLast? == some '/' then base ++ path
  else base ++ "/" ++ path

def Part.rank : Part → Nat
  | root => 0
  | here => 1
  | up => 2
  | name _ => 3

def partsLe : List Part → List Part → Bool
  | [], _ => true
  | _ :: _, [] => false
  | a :: as, b :: bs =>
    if a.rank != b.rank then a.rank < b.rank
    else if a.text != b.text then a.text < b.text
    else partsLe as bs

def le (a b : String) : Bool := partsLe (parts a) (parts b)

/-- What remains of two lists of parts without their common start. -/
def dropCommon : List Part → List Part → List Part × List Part
  | a :: as, b :: bs => if a == b then dropCommon as bs else (a :: as, b :: bs)
  | as, bs => (as, bs)

def relative (path base : String) : String :=
  let (rest, left) := dropCommon (parts path) (parts base)
  String.intercalate "/" ((left.map fun _ => "..") ++ rest.map Part.text)

end LeakTrace.Path

namespace LeakTrace.Language

def ofName? (name : String) : Option Language :=
  match Text.lowered name with
  | "javascript" | "js" => some .javascript
  | "rust" => some .rust
  | _ => none

def ofPath? (path : String) : Option Language :=
  match (Path.extension? path).map Text.lowered with
  | some "js" | some "jsx" | some "mjs" | some "cjs" => some .javascript
  | some "rs" => some .rust
  | _ => none

end LeakTrace.Language
