import LeakTrace.Script.Statement

namespace LeakTrace.Script

/-- A fault that a reading goes by, with the number of trees that it passes over and its cost. -/
structure Detour where
  fault : Fault
  trees : Nat
  cost : Nat

structure Attempt where
  detours : List Detour
  outcome : Except Nat (List Syntax × Cursor)

namespace Attempt

def cost (attempt : Attempt) : Nat := attempt.detours.foldl (fun cost detour => cost + detour.cost) 0

def faultsOf (detours : List Detour) : List Fault := detours.map Detour.fault

def ofDetours (source : String) (detours : List Detour) : Attempt :=
  { detours, outcome := statements.run (Cursor.ofSource source (faultsOf detours)) }

/-- Where the reading ends: at an offset where it fails, or behind the text. -/
def reach (size : Nat) (attempt : Attempt) : Nat :=
  match attempt.outcome with
  | .ok _ => size + 1
  | .error offset => offset

def lastFault (attempt : Attempt) : Nat :=
  attempt.detours.foldl (fun last detour => max last detour.fault.offset) 0

end Attempt

namespace Repair

/-! ### What a fault costs -/

def faultCost : Nat := 500

def treeCost : Nat := 100

def lineCost : Nat := 30

def missingCost : Nat := faultCost + 110

/-! ### The text before a fault -/

structure Lexeme where
  token : Token
  start : Nat
  stop : Nat

def lexemes : (fuel : Nat) → Cursor → List Lexeme
  | 0, _ => []
  | fuel + 1, cursor =>
    if cursor.token = .finish then []
    else
      let rest := lexemes fuel cursor.next
      if cursor.supplied then rest else ⟨cursor.token, cursor.start, cursor.tokenStop⟩ :: rest

inductive UnitSort where
  | operand | operator | opening | dot | statement | word
  deriving DecidableEq

/-- A run of tokens that belong together when the text breaks off: a token, an operand with all that
hangs on it, or a whole statement. -/
structure TextUnit where
  sort : UnitSort
  start : Nat
  opening : Option String := none

def leadingWords : List String :=
  ["if", "for", "while", "do", "switch", "return", "throw", "const", "let", "var", "function",
    "class", "new", "typeof", "void", "delete", "in", "of", "instanceof", "else", "case", "default",
    "try", "catch", "finally", "import", "export", "extends", "yield", "await", "async", "with"]

def binaryOperators : List String :=
  ["=", "+", "-", "*", "/", "%", "**", "&&", "||", "??", "&", "|", "^", "<<", ">>", ">>>", "==", "===",
    "!=", "!==", "<", ">", "<=", ">=", "+=", "-=", "*=", "/=", "%="]

/-- The units from the latest opening mark of the given kind on, which has to be the latest open one. -/
def dropGroup (opening : String) : List TextUnit → Option (Nat × List TextUnit)
  | [] => none
  | unit :: rest =>
    match unit.opening with
    | some text => if text == opening then some (unit.start, rest) else none
    | none => dropGroup opening rest

/-- The units of the statement that just ended, dropped, with its start. Inside brackets other than
braces no statement ends. -/
def dropStatement (start : Option Nat) : List TextUnit → Option (Option Nat × List TextUnit)
  | [] => some (start, [])
  | unit :: rest =>
    match unit.opening with
    | some "\x7b" => some (start, unit :: rest)
    | some _ => none
    | none =>
      if unit.sort = .statement then some (start, unit :: rest)
      else dropStatement (some unit.start) rest

def pushOperand (start : Nat) (joins : Bool) (units : List TextUnit) : List TextUnit :=
  match units with
  | ⟨.operand, first, _⟩ :: rest =>
    if joins then ⟨.operand, first, none⟩ :: rest else ⟨.operand, start, none⟩ :: units
  | ⟨.dot, _, _⟩ :: ⟨.operand, first, _⟩ :: rest => ⟨.operand, first, none⟩ :: rest
  | _ => ⟨.operand, start, none⟩ :: units

def pushLexeme (units : List TextUnit) (lexeme : Lexeme) : List TextUnit :=
  let start := lexeme.start
  let close (opening : String) (joins : Bool) : List TextUnit :=
    match dropGroup opening units with
    | some (first, rest) => pushOperand first joins rest
    | none => ⟨.word, start, none⟩ :: units
  match lexeme.token with
  | .word text =>
    if leadingWords.contains text && (units.head?.map TextUnit.sort) != some .dot then
      ⟨.word, start, none⟩ :: units
    else pushOperand start false units
  | .privateName | .number | .string | .template => pushOperand start false units
  | .punct "(" => ⟨.opening, start, some "("⟩ :: units
  | .punct "[" => ⟨.opening, start, some "["⟩ :: units
  | .punct "\x7b" => ⟨.opening, start, some "\x7b"⟩ :: units
  | .punct ")" => close "(" true
  | .punct "]" => close "[" true
  | .punct "\x7d" => close "\x7b" false
  | .punct ";" =>
    match dropStatement none units with
    | some (first, rest) => ⟨.statement, first.getD start, none⟩ :: rest
    | none => ⟨.word, start, none⟩ :: units
  | .punct "." | .punct "?." => ⟨.dot, start, none⟩ :: units
  | .punct text =>
    ⟨if binaryOperators.contains text then .operator else .word, start, none⟩ :: units
  | .finish | .unreadable => ⟨.word, start, none⟩ :: units

/-- How many trees units, latest first, come to: operands with operators between them are one. -/
def treeCount : List TextUnit → Nat
  | ⟨.operand, _, _⟩ :: ⟨.operator, _, _⟩ :: ⟨.operand, start, _⟩ :: rest =>
    treeCount (⟨.operand, start, none⟩ :: rest)
  | _ :: rest => treeCount rest + 1
  | [] => 0
termination_by units => units.length

/-- The beginnings of ever more units, latest first, each with the number of trees from there on. -/
def cuts (passed : List TextUnit) : List TextUnit → List (Nat × Nat)
  | [] => []
  | unit :: rest =>
    (unit.start, treeCount (passed ++ [unit])) :: cuts (passed ++ [unit]) rest

def cutLimit : Nat := 16

/-! ### Looking for the cheapest reading -/

def linesBetween (bytes : ByteArray) (start stop : Nat) : Nat :=
  ((bytes.extract start stop).toList.filter (· == 10)).length

def skipCost (bytes : ByteArray) (start stop trees : Nat) : Nat :=
  faultCost + (stop - start) + lineCost * linesBetween bytes start stop + treeCost * trees

structure Scene where
  source : String
  bytes : ByteArray
  offset : Nat
  detours : List Detour
  before : List Lexeme
  after : List Lexeme

namespace Scene

variable (scene : Scene)

def stopBefore (offset : Nat) : Nat :=
  ((scene.before.filter fun lexeme => lexeme.start < offset).getLast?.map Lexeme.stop).getD 0

/-- The detours with the text from `start` to `stop` passed over as well. Text passed over just before
it joins it; detours inside it still cost what they did. -/
def withSkipped (start stop trees : Nat) : List Detour :=
  let (before, inside) := scene.detours.partition fun detour => detour.fault.offset < start
  let inner := inside.foldl (fun cost detour => cost + detour.cost) 0
  let detour (first trees : Nat) : Detour :=
    ⟨.skipped first stop, trees, inner + skipCost scene.bytes first stop trees⟩
  match before.getLast? with
  | some ⟨.skipped first _, more, _⟩ =>
    if scene.stopBefore start ≤ first then before.dropLast ++ [detour first (trees + more)]
    else before ++ [detour start trees]
  | _ => before ++ [detour start trees]

def withMissing (token : Token) : List Detour :=
  scene.detours ++ [⟨.missing scene.offset token, 0, missingCost⟩]

/-- The tokens that may be supplied; the empty word is a name. -/
def supplies : List Token :=
  let names := match (scene.after.head?).map Lexeme.token with
    | some (.punct "=") | some (.punct "=>") => []
    | _ => [.word ""]
  names ++ [.punct ";", .punct ")", .punct "]", .punct "\x7d"]

def skippedTrees (lexeme : Lexeme) : Nat :=
  match lexeme.token with
  | .unreadable => if lexeme.stop - lexeme.start ≤ 1 then 0 else 2
  | _ => 1

def firstPassing (offset : Nat) : List (List Detour) → Option Attempt
  | [] => none
  | detours :: rest =>
    let attempt := Attempt.ofDetours scene.source detours
    if offset < attempt.reach scene.bytes.size then some attempt
    else firstPassing offset rest

/-- Where the text before the failure can be cut off, latest first, with the trees from there on. -/
def cutsBefore : List (Nat × Nat) :=
  (cuts [] (scene.before.foldl pushLexeme [])).take cutLimit

/-- A reading that passes over the tokens from the failure up to `stop`, and as little as possible
before them. -/
def skippingTo (places : List (Nat × Nat)) (trees stop ahead : Nat) : Option Attempt :=
  scene.firstPassing ahead <| places.map fun (start, before) =>
    scene.withSkipped start stop (before + trees)

/-- Whether it is no use to pass over more tokens. -/
def tooDear (best : Option Nat) (count trees stop : Nat) : Bool :=
  1 < count && best.any (· < skipCost scene.bytes scene.offset stop trees)

/-- Readings that pass over ever more tokens, `count` so far. One token is always tried; more only as
long as that is no dearer than the best reading found. -/
def skipping (places : List (Nat × Nat)) (best : Option Nat) (count trees stop : Nat) :
    List Lexeme → List Attempt
  | [] =>
    if scene.tooDear best count trees stop then []
    else (scene.skippingTo places trees stop scene.bytes.size).toList
  | lexeme :: rest =>
    if scene.tooDear best count trees stop then []
    else
      let found := scene.skippingTo places trees stop lexeme.start
      let best := (best.toList ++ (found.map Attempt.cost).toList).min?
      let places := if count = 0 then (scene.offset, 0) :: places else places
      found.toList ++
        skipping places best (count + 1) (trees + skippedTrees lexeme) lexeme.stop rest

def goOn : List Attempt :=
  let missing := scene.firstPassing scene.offset (scene.supplies.map scene.withMissing)
  missing.toList ++
    scene.skipping scene.cutsBefore (missing.map Attempt.cost) 0 0 (scene.stopBefore scene.offset)
      scene.after

/-- How many nodes a reading has built behind the failure, about eight for five tokens. -/
def progress (attempt : Attempt) : Nat :=
  let reach := attempt.reach scene.bytes.size
  8 * (scene.after.filter fun lexeme => lexeme.start < reach).length / 5

/-- Whether the second reading is given up for the first before that fails. -/
def displaces (first second : Attempt) : Bool :=
  1600 < (second.cost - first.cost) * (1 + scene.progress first)

/-- Whether the second reading is to be preferred: it gets further, or as far and costs no more. -/
def prefers (first second : Attempt) : Bool :=
  let size := scene.bytes.size
  if first.reach size = second.reach size then
    second.cost < first.cost || second.cost == first.cost && first.lastFault ≤ second.lastFault
  else if first.reach size < second.reach size then !scene.displaces first second
  else scene.displaces second first

def best : Option Attempt :=
  match scene.goOn with
  | [] => none
  | first :: rest =>
    some (rest.foldl (fun best next => if scene.prefers best next then next else best) first)

end Scene

def sceneOf (source : String) (attempt : Attempt) (offset : Nat) : Scene :=
  let bytes := source.toUTF8
  let cursor := Cursor.ofSource source (Attempt.faultsOf attempt.detours)
  let (before, after) := (lexemes (bytes.size + 1) cursor).span fun lexeme => lexeme.start < offset
  { source, bytes, offset, detours := attempt.detours, before, after }

def complete (source : String) : (fuel : Nat) → Attempt → Option Attempt
  | 0, _ => none
  | fuel + 1, attempt =>
    match attempt.outcome with
    | .ok _ => some attempt
    | .error offset => ((sceneOf source attempt offset).best).bind (complete source fuel)

/-- How many failures are gone on from; fewer for long texts. -/
def patience (size : Nat) : Nat := 2 + min 100 (200000 / (size + 1))

end Repair

def bestAttempt (source : String) : Option Attempt :=
  Repair.complete source (Repair.patience source.utf8ByteSize) (Attempt.ofDetours source [])

end LeakTrace.Script
