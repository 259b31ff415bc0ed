import LeakTrace.Crate.Program
import LeakTrace.Error
import LeakTrace.Script.Program

namespace LeakTrace.Source

/-- The tree of a file, unless its brackets nest deeper than `maxDepth` in a language that is read
by recursion. -/
def tree (language : Language) (file source : String) (maxDepth : Nat) : Except FileFault Tree :=
  match language with
  | .javascript => .ok (Script.tree file source)
  | .rust =>
    if maxDepth < Crate.nesting source then .error (.depthExceeded maxDepth)
    else .ok (Crate.tree file source)

def snippet (language : Language) (text : String) : Except FileFault Tree :=
  match language with
  | .javascript => .ok (Script.tree "<pattern>" text)
  | .rust =>
    match Crate.snippetTree? text with
    | some tree => .ok tree
    | none => .error (.unparsable "<pattern>")

end LeakTrace.Source
