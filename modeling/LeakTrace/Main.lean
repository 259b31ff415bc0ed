import LeakTrace.Run
import Std.Time.DateTime.Timestamp

namespace LeakTrace

def attempt? {α : Type} (action : IO α) : IO (Option α) := do
  match ← action.toBaseIO with
  | .ok value => return some value
  | .error _ => return none

def succeeds (action : IO Bool) : IO Bool := return (← attempt? action).getD false

def machineDisk : Disk IO where
  isFile path := succeeds do
    return (← (← IO.FS.realPath path).metadata).type == .file
  isDirectory path := succeeds do (← IO.FS.realPath path).isDir
  read path := do
    match ← (IO.FS.readBinFile path).toBaseIO with
    | .ok bytes => return .ok bytes
    | .error error => return .error (toString error)
  entries path := do
    let found ← attempt? do (← IO.FS.realPath path).readDir
    return (found.getD #[]).toList.map fun entry => entry.fileName
  canonical path := do
    let place ← attempt? (IO.FS.realPath path)
    return place.map toString
  write directory name content := succeeds do
    IO.FS.createDirAll directory
    IO.FS.writeFile (Path.join directory name) content
    return true

end LeakTrace

/-- Scans source code for leaks of sensitive data. -/
def main (arguments : List String) : IO UInt32 := do
  let now ← Std.Time.Timestamp.now
  let outcome ← LeakTrace.machineDisk.run (toString now.toSecondsSinceUnixEpoch.val) arguments
  (← IO.getStdout).putStr outcome.output
  return outcome.code.toUInt32
