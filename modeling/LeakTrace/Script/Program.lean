import LeakTrace.Script.Drawing
import LeakTrace.Script.Repair

namespace LeakTrace.Script

def programOf (size : Nat) (cursor : Cursor) (parts : List Syntax) : Syntax :=
  let comments := (cursor.gap.reverse ++ cursor.comments).reverse
  let children := Syntax.attachAll comments parts
  let start := match children with
    | first :: _ => first.start
    | [] => cursor.start
  .node .program none start size children

def program (source : String) : Syntax :=
  let size := source.utf8ByteSize
  match (bestAttempt source).map Attempt.outcome with
  | some (.ok (parts, cursor)) => programOf size cursor parts
  | _ => Syntax.leaf .error (Cursor.ofSource source []).start size

def tree (file source : String) : Tree :=
  ((program source).toOutline source.toUTF8).toTree file .javascript source

end LeakTrace.Script
