import LeakTrace.Path

namespace LeakTrace

/-- What a run asks of the place that holds its files. -/
structure Disk (m : Type → Type) where
  isFile : String → m Bool
  isDirectory : String → m Bool
  read : String → m (Except String ByteArray)
  entries : String → m (List String)
  /-- The path from the root without detours, if anything is there. -/
  canonical : String → m (Option String)
  /-- Writes a file in a directory, which is made if need be; tells whether that went well. -/
  write : (directory name content : String) → m Bool

/-- Files that are held in memory, by the names on the way to them. -/
structure Folder where
  home : String
  files : List (List String × ByteArray)

namespace Folder

def ofFiles (home : String) (files : List (String × ByteArray)) : Folder :=
  { home, files := files.map fun (path, bytes) => ((Path.parts path).map Path.Part.text, bytes) }

section

variable (folder : Folder) (names : List String)

def file? : Option ByteArray := folder.files.lookup names

def namesBelow : List String :=
  (folder.files.filterMap fun (path, _) =>
    if names.isPrefixOf path then (path.drop names.length).head? else none).eraseDups

def hasDirectory : Bool :=
  names.isEmpty || !(folder.namesBelow names).isEmpty

/-- Follows the parts of a way. Only what `leads` on may stand before the last one, and no way
goes above the folder. -/
def follow (leads : List String → Bool) : (names : List String) → List Path.Part →
    Option (List String)
  | names, [] => some names
  | names, part :: rest =>
    if leads names then
      match part, names with
      | .root, _ => none
      | .here, _ => follow leads names rest
      | .up, [] => none
      | .up, _ :: _ => follow leads names.dropLast rest
      | .name text, _ => follow leads (names ++ [text]) rest
    else none

section

variable (path : String)

/-- The parts of a path, which starts in the folder or at the folder's own path. -/
def partsIn : List Path.Part :=
  match Text.after? folder.home.toList path.toList with
  | some [] => [.here]
  | some ('/' :: rest) => .here :: Path.parts (String.ofList rest)
  | _ => Path.parts path

def resolve? : Option (List String) :=
  match folder.partsIn path with
  | [] => none
  | parts => follow folder.hasDirectory [] parts

def endsWithSlash : Bool := path.toList.getLast? == some '/'

def isFile : Bool :=
  !endsWithSlash path && (folder.resolve? path).any fun names => (folder.file? names).isSome

def isDirectory : Bool :=
  (folder.resolve? path).any folder.hasDirectory

def read : Except String ByteArray :=
  match folder.resolve? path with
  | none => .error "No such file or directory (os error 2)"
  | some names =>
    match folder.file? names with
    | some bytes => .ok bytes
    | none =>
      if folder.hasDirectory names then .error "Is a directory (os error 21)"
      else .error "No such file or directory (os error 2)"

def canonical? : Option String := do
  let names ← folder.resolve? path
  guard (folder.isFile path || folder.isDirectory path)
  return String.intercalate "/" (folder.home :: names)

end

def isBlocked : List String → Bool
  | [] => false
  | names => (List.range names.length).any fun n => (folder.file? (names.take (n + 1))).isSome

def write (directory name content : String) : Option Folder := do
  let names ← follow (fun _ => true) [] (folder.partsIn directory)
  let target := names ++ [name]
  guard (!folder.isBlocked names && (folder.namesBelow target).isEmpty)
  let others := folder.files.filter fun entry => entry.1 != target
  return { folder with files := (target, content.toUTF8) :: others }

end

def disk : Disk (StateM Folder) where
  isFile path := do return (← get).isFile path
  isDirectory path := do return (← get).isDirectory path
  read path := do return (← get).read path
  entries path := do
    let folder ← get
    return ((folder.resolve? path).map folder.namesBelow).getD []
  canonical path := do return (← get).canonical? path
  write directory name content := do
    match (← get).write directory name content with
    | some folder =>
      set folder
      return true
    | none => return false

end Folder

end LeakTrace
