namespace LeakTrace

/-- A set of characters, kept as closed ranges of code points in increasing order. -/
structure CharSet where
  ranges : Array (Nat × Nat)
  deriving Inhabited, BEq, Repr

namespace CharSet

/-- The number of ranges that start at or below `code`, looked for between `low` and `high`. -/
def startsBelow (ranges : Array (Nat × Nat)) (code low high : Nat) : Nat :=
  if low < high then
    let middle := (low + high) / 2
    match ranges[middle]? with
    | some (start, _) =>
      if start ≤ code then startsBelow ranges code (middle + 1) high
      else startsBelow ranges code low middle
    | none => low
  else low
termination_by high - low

/-- Membership: the last range that starts at or below the character reaches it. -/
def contains (set : CharSet) (c : Char) : Bool :=
  match startsBelow set.ranges c.toNat 0 set.ranges.size with
  | 0 => false
  | n + 1 => match set.ranges[n]? with
    | some (_, stop) => c.toNat ≤ stop
    | none => false

def merge : List (Nat × Nat) → List (Nat × Nat)
  | [] => []
  | [r] => [r]
  | (a, b) :: (c, d) :: rest =>
    if c ≤ b + 1 then merge ((a, max b d) :: rest) else (a, b) :: merge ((c, d) :: rest)
termination_by ranges => ranges.length

def ofRanges (ranges : List (Nat × Nat)) : CharSet :=
  ⟨(merge (ranges.mergeSort fun a b => a.1 < b.1 || (a.1 == b.1 && a.2 ≤ b.2))).toArray⟩

def empty : CharSet := ⟨#[]⟩

def all : CharSet := ⟨#[(0, 0x10FFFF)]⟩

def ofChar (c : Char) : CharSet := ⟨#[(c.toNat, c.toNat)]⟩

def union (s t : CharSet) : CharSet := ofRanges (s.ranges.toList ++ t.ranges.toList)

def gaps : Nat → List (Nat × Nat) → List (Nat × Nat)
  | next, [] => if next ≤ 0x10FFFF then [(next, 0x10FFFF)] else []
  | next, (a, b) :: rest => if next < a then (next, a - 1) :: gaps (b + 1) rest else gaps (b + 1) rest

def complement (s : CharSet) : CharSet := ⟨(gaps 0 s.ranges.toList).toArray⟩

def inter (s t : CharSet) : CharSet := (s.complement.union t.complement).complement

def diff (s t : CharSet) : CharSet := s.inter t.complement

def hexValue? (c : Char) : Option Nat :=
  if '0' ≤ c ∧ c ≤ '9' then some (c.toNat - 48)
  else if 'a' ≤ c ∧ c ≤ 'f' then some (c.toNat - 87)
  else if 'A' ≤ c ∧ c ≤ 'F' then some (c.toNat - 55)
  else none

/-- The number written in base sixteen; other characters are passed over. -/
def hexNumber (digits : String) : Nat :=
  digits.toList.foldl (fun n c => match hexValue? c with
    | some d => n * 16 + d
    | none => n) 0

end CharSet

/-- A run of characters, every one or every second, each sent to the same distances. -/
structure CharRun where
  start : Nat
  stop : Nat
  step : Nat
  moves : List Int

namespace CharRun

def signedHex (text : String) : Int :=
  if text.startsWith "-" then -(CharSet.hexNumber text : Int) else CharSet.hexNumber text

/-- Reads one run written as `19-6`, `be-2e/2` or `1:20,20df`: how far it starts behind `last`, how long it
is, and where its characters are sent to. -/
def read (last : Nat) (item : String) : CharRun :=
  let (place, moves) := match item.splitOn ":" with
    | [place, moves] => (place, (moves.splitOn ",").map signedHex)
    | _ => (item, [])
  let (place, step) := match place.splitOn "/" with
    | [place, _] => (place, 2)
    | _ => (place, 1)
  match (place.splitOn "-").map CharSet.hexNumber with
  | [gap, length] => ⟨last + gap, last + gap + length, step, moves⟩
  | _ => ⟨last + CharSet.hexNumber place, last + CharSet.hexNumber place, step, moves⟩

def readFrom (last : Nat) : List String → List CharRun
  | [] => []
  | item :: rest =>
    let run := read last item
    run :: readFrom run.start rest

def ofHex (lines : List String) : List CharRun := readFrom 0 (lines.flatMap (·.splitOn " "))

/-- The run and all that it is sent to, each sent to the others. -/
def peers (run : CharRun) : List CharRun :=
  let places : List Int := 0 :: run.moves
  places.map fun (own : Int) => ⟨(own + run.start).toNat, (own + run.stop).toNat, run.step,
    (places.erase own).map (· - own)⟩

end CharRun

def CharSet.ofHex (lines : List String) : CharSet :=
  ⟨((CharRun.ofHex lines).flatMap fun run =>
    if run.step = 1 then [(run.start, run.stop)]
    else (List.range ((run.stop - run.start) / 2 + 1)).map fun n =>
      (run.start + 2 * n, run.start + 2 * n)).toArray⟩

/-- A map from characters to the characters at given distances. -/
structure CharMap where
  runs : Array CharRun

namespace CharMap

def ofHex (lines : List String) : CharMap := ⟨(CharRun.ofHex lines).toArray⟩

/-- Characters that belong together are sent to each other; only the first of them are written. -/
def ofClasses (lines : List String) : CharMap := ⟨((CharRun.ofHex lines).flatMap CharRun.peers).toArray⟩

/-- The characters that `c` is sent to; none when it is outside the map. -/
def images (map : CharMap) (c : Char) : List Char :=
  let code := c.toNat
  match map.runs.find? fun r => r.start ≤ code && code ≤ r.stop && (code - r.start) % r.step == 0 with
  | some r => r.moves.map fun move => Char.ofNat ((code : Int) + move).toNat
  | none => []

end CharMap

end LeakTrace
