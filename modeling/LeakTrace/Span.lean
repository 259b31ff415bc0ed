import LeakTrace.Text.Basic

namespace LeakTrace

/-- A stretch of source text. Lines and columns count from one, columns in bytes. -/
structure Span where
  start : Nat := 0
  stop : Nat := 0
  line : Nat := 0
  column : Nat := 0
  endLine : Nat := 0
  endColumn : Nat := 0
  deriving DecidableEq, Inhabited

namespace Span

def cover (a b : Span) : Span :=
  let first := if a.start ≤ b.start then a else b
  let last := if a.stop ≥ b.stop then a else b
  { start := first.start, line := first.line, column := first.column,
    stop := last.stop, endLine := last.endLine, endColumn := last.endColumn }

def contains (a b : Span) : Bool := a.start ≤ b.start && b.stop ≤ a.stop

/-- Order by start, then by stop, then by the positions. -/
def compare (a b : Span) : Ordering :=
  (Ord.compare a.start b.start).then <| (Ord.compare a.stop b.stop).then <|
    (Ord.compare a.line b.line).then <| (Ord.compare a.column b.column).then <|
      (Ord.compare a.endLine b.endLine).then <| Ord.compare a.endColumn b.endColumn

end Span

/-- The byte offsets at which the lines of a text start; the first is zero. -/
structure LineIndex where
  starts : Array Nat
  deriving Inhabited

namespace LineIndex

def collect : List Char → Nat → Array Nat → Array Nat
  | [], _, starts => starts
  | c :: cs, offset, starts =>
    let next := offset + c.utf8Size
    collect cs next (if c = '\n' then starts.push next else starts)

def ofSource (source : String) : LineIndex := ⟨collect source.toList 0 #[0]⟩

/-- The number of lines that start at or before `offset`, looked for between `low` and `high`. -/
def startsUpTo (starts : Array Nat) (offset low high : Nat) : Nat :=
  if low < high then
    let middle := (low + high) / 2
    match starts[middle]? with
    | some start =>
      if start ≤ offset then startsUpTo starts offset (middle + 1) high
      else startsUpTo starts offset low middle
    | none => low
  else low
termination_by high - low

variable (index : LineIndex)

def position (offset : Nat) : Nat × Nat :=
  let line := startsUpTo index.starts offset 0 index.starts.size
  (line, offset - index.starts.getD (line - 1) 0 + 1)

def span (start stop : Nat) : Span :=
  let (line, column) := index.position start
  let (endLine, endColumn) := index.position stop
  { start, stop, line, column, endLine, endColumn }

/-- Byte offset of a character column, counted from zero, of a line; at most the line's end, and the
end of the text when there is no such line. -/
def offset (source : String) (line column : Nat) : Nat :=
  match index.starts[line - 1]? with
  | none => source.utf8ByteSize
  | some start =>
    let text := (Text.dropBytes start source.toList).takeWhile (· != '\n')
    start + Text.byteLength (text.take column)

end LineIndex

end LeakTrace
