import LeakTrace.Regex.Basic
import LeakTrace.Regex.Engine

namespace LeakTrace.Regex

structure Flags where
  caseless : Bool := false
  lines : Bool := false
  dotAll : Bool := false
  spaced : Bool := false
  ascii : Bool := false
  deriving DecidableEq, Inhabited

/-- What remains to be read, with the switches in force and the names of groups so far. -/
structure Place where
  rest : List Char
  flags : Flags := {}
  names : List String := []

abbrev Reader := StateT Place Option

namespace Reader

def peek : Reader (Option Char) := do return (← get).rest.head?

def flags : Reader Flags := do return (← get).flags

def skipBlanks : Reader Unit := do
  let place ← get
  if place.flags.spaced then
    set { place with rest := blanks (place.rest.length + 1) place.rest }
where
  blanks : (fuel : Nat) → List Char → List Char
    | 0, cs => cs
    | fuel + 1, cs =>
      match cs.dropWhile Text.isBlank with
      | '#' :: rest => blanks fuel (rest.dropWhile (· != '\n'))
      | cs => cs

def next : Reader Char := do
  match (← get).rest with
  | c :: rest =>
    modify ({ · with rest })
    return c
  | [] => failure

def accept (c : Char) : Reader Bool := do
  match (← get).rest with
  | d :: rest =>
    if c == d then
      modify ({ · with rest })
      return true
    else return false
  | [] => return false

def expect (c : Char) : Reader Unit := do
  if !(← accept c) then failure

def takeWhile (sort : Char → Bool) : Reader (List Char) := do
  let place ← get
  let taken := place.rest.takeWhile sort
  set { place with rest := place.rest.drop taken.length }
  return taken

end Reader

open Reader

/-- The characters that differ from those of the set at most in case. -/
def caseClosed (set : CharSet) : CharSet :=
  let more := Letter.caseMap.runs.toList.flatMap fun run =>
    (List.range ((run.stop - run.start) / run.step + 1)).flatMap fun i =>
      let c := Char.ofNat (run.start + i * run.step)
      if set.contains c then (Letter.otherCases c).map fun d => (d.toNat, d.toNat) else []
  if more.isEmpty then set else set.union (CharSet.ofRanges more)

def literal (flags : Flags) (c : Char) : Regex :=
  if flags.caseless then
    match Letter.otherCases c with
    | [] => chars (CharSet.ofChar c)
    | others => chars (CharSet.ofRanges ((c :: others).map fun d => (d.toNat, d.toNat)))
  else chars (CharSet.ofChar c)

namespace Class

def asciiDigits : CharSet := ⟨#[(0x30, 0x39)]⟩

def asciiWord : CharSet := ⟨#[(0x30, 0x39), (0x41, 0x5A), (0x5F, 0x5F), (0x61, 0x7A)]⟩

def asciiSpace : CharSet := ⟨#[(9, 13), (32, 32)]⟩

def space : CharSet :=
  ⟨#[(9, 13), (0x20, 0x20), (0x85, 0x85), (0xA0, 0xA0), (0x1680, 0x1680), (0x2000, 0x200A),
    (0x2028, 0x2029), (0x202F, 0x202F), (0x205F, 0x205F), (0x3000, 0x3000)]⟩

/-- The class of a letter such as that of `\d`; a capital stands for all other characters. -/
def ofLetter? (ascii : Bool) (letter : Char) : Option CharSet :=
  match letter with
  | 'd' => some (if ascii then asciiDigits else Letter.digitSet)
  | 'w' => some (if ascii then asciiWord else Letter.wordSet)
  | 's' => some (if ascii then asciiSpace else space)
  | 'D' => some (if ascii then asciiDigits else Letter.digitSet).complement
  | 'W' => some (if ascii then asciiWord else Letter.wordSet).complement
  | 'S' => some (if ascii then asciiSpace else space).complement
  | _ => none

def named? (name : String) : Option CharSet :=
  let lower := (0x61, 0x7A)
  let upper := (0x41, 0x5A)
  let digit := (0x30, 0x39)
  let ranges? := match name with
    | "alnum" => some [digit, upper, lower]
    | "alpha" => some [upper, lower]
    | "ascii" => some [(0, 0x7F)]
    | "blank" => some [(9, 9), (32, 32)]
    | "cntrl" => some [(0, 0x1F), (0x7F, 0x7F)]
    | "digit" => some [digit]
    | "graph" => some [(0x21, 0x7E)]
    | "lower" => some [lower]
    | "print" => some [(0x20, 0x7E)]
    | "punct" => some [(0x21, 0x2F), (0x3A, 0x40), (0x5B, 0x60), (0x7B, 0x7E)]
    | "space" => some [(9, 13), (32, 32)]
    | "upper" => some [upper]
    | "word" => some [digit, upper, (0x5F, 0x5F), lower]
    | "xdigit" => some [digit, (0x41, 0x46), (0x61, 0x66)]
    | _ => none
  ranges?.map CharSet.ofRanges

def ofProperty? (name : String) : Option CharSet :=
  match Text.lowered name with
  | "lu" | "uppercase_letter" | "uppercase" | "upper" => some Letter.uppercaseSet
  | "ll" | "lowercase_letter" | "lowercase" | "lower" => some Letter.lowercaseSet
  | "nd" | "decimal_number" => some Letter.digitSet
  | "alphabetic" | "alpha" | "l" | "letter" => some (Letter.nameStartSet.diff (CharSet.ofChar '_'))
  | "any" => some CharSet.all
  | "ascii" => some ⟨#[(0, 0x7F)]⟩
  | "white_space" | "space" | "whitespace" => some space
  | "xid_start" | "xids" => some Letter.nameStartSet
  | "xid_continue" | "xidc" => some Letter.nameContinueSet
  | _ => none

end Class

/-- What a backslash and the characters behind it stand for. -/
inductive Escape where
  | char (c : Char)
  | set (set : CharSet)
  | look (look : Look)

def hexDigits (cs : List Char) : Nat :=
  cs.foldl (fun n c => n * 16 + (CharSet.hexValue? c).getD 0) 0

def hexChar (digits : Nat) : Reader Char := do
  let isHex (c : Char) : Bool := (CharSet.hexValue? c).isSome
  let taken ← if ← accept '\x7b' then
      let taken ← takeWhile isHex
      expect '\x7d'
      pure taken
    else
      let place ← get
      let taken := place.rest.take digits
      if taken.length < digits || !taken.all isHex then failure
      set { place with rest := place.rest.drop digits }
      pure taken
  let value := hexDigits taken
  if taken.isEmpty || !value.isValidChar then failure
  return Char.ofNat value

def property (negated : Bool) : Reader CharSet := do
  let (name, inverse) ← if ← accept '\x7b' then
      let inverse ← accept '^'
      let name ← takeWhile (· != '\x7d')
      expect '\x7d'
      pure (name, inverse)
    else pure ([← next], false)
  match Class.ofProperty? (String.ofList name) with
  | some found => return if negated != inverse then found.complement else found
  | none => failure

def wordEdge (ascii : Bool) : Reader Look := do
  let place ← get
  match place.rest with
  | '\x7b' :: rest =>
    let isName (c : Char) : Bool := Letter.isAsciiLetter c || c == '-'
    if !rest.head?.any isName then return .wordEdge ascii
    let name := rest.takeWhile isName
    set { place with rest := rest.drop name.length }
    expect '\x7d'
    match String.ofList name with
    | "start" => return .wordStart ascii
    | "end" => return .wordEnd ascii
    | "start-half" => return .wordStartHalf ascii
    | "end-half" => return .wordEndHalf ascii
    | _ => failure
  | _ => return .wordEdge ascii

def escape : Reader Escape := do
  let flags ← flags
  let c ← next
  match c with
  | 'x' => return .char (← hexChar 2)
  | 'u' => return .char (← hexChar 4)
  | 'U' => return .char (← hexChar 8)
  | 'p' => return .set (← property false)
  | 'P' => return .set (← property true)
  | 'a' => return .char '\x07'
  | 'f' => return .char '\x0c'
  | 't' => return .char '\t'
  | 'n' => return .char '\n'
  | 'r' => return .char '\r'
  | 'v' => return .char '\x0b'
  | 'A' => return .look .start
  | 'z' => return .look .finish
  | 'b' => return .look (← wordEdge flags.ascii)
  | 'B' => return .look (.noWordEdge flags.ascii)
  | '<' => return .look (.wordStart flags.ascii)
  | '>' => return .look (.wordEnd flags.ascii)
  | _ =>
    match Class.ofLetter? flags.ascii c with
    | some found => return .set found
    | none =>
      if Letter.isAscii c && !Letter.isAsciiLetter c && !Letter.isAsciiDigit c then return .char c
      else failure

namespace Class

inductive Item where
  | char (c : Char)
  | set (set : CharSet)

def Item.toSet : Item → CharSet
  | char c => CharSet.ofChar c
  | set found => found

def item : Reader Item := do
  let c ← next
  if c == '\\' then
    match ← escape with
    | .char c => return .char c
    | .set found => return .set found
    | .look _ => failure
  else return .char c

def range : Reader CharSet := do
  let first ← item
  skipBlanks
  let place ← get
  match place.rest with
  | [] => failure
  | '-' :: rest =>
    let after := if place.flags.spaced then rest.dropWhile Text.isBlank else rest
    if after.head? == some ']' || after.head? == some '-' then return first.toSet
    let _ ← next
    skipBlanks
    match first, ← item with
    | .char low, .char high =>
      if high < low then failure
      return ⟨#[(low.toNat, high.toNat)]⟩
    | _, _ => failure
  | _ => return first.toSet

def named : Reader (Option CharSet) := do
  let place ← get
  match place.rest with
  | '[' :: ':' :: rest =>
    let (negated, rest) := match rest with
      | '^' :: rest => (true, rest)
      | _ => (false, rest)
    let name := rest.takeWhile (· != ':')
    match rest.drop name.length with
    | ':' :: ']' :: rest =>
      match named? (String.ofList name) with
      | some found =>
        set { place with rest }
        return some (if negated then found.complement else found)
      | none => return none
    | _ => return none
  | _ => return none

inductive Join where
  | union | intersection | difference | symmetric

def Join.apply (join : Join) (a b : CharSet) : CharSet :=
  match join with
  | union => a.union b
  | intersection => a.inter b
  | difference => a.diff b
  | symmetric => (a.diff b).union (b.diff a)

def folded (set : CharSet) : Reader CharSet := do
  return if (← flags).caseless then caseClosed set else set

/-- Hyphens and a closing bracket at the start of a class stand for themselves. -/
def opening : Reader CharSet := do
  let hyphens ← takeWhile (· == '-')
  let start := if hyphens.isEmpty then CharSet.empty else CharSet.ofChar '-'
  if hyphens.isEmpty && (← accept ']') then return CharSet.ofChar ']'
  else return start

mutual

def bracketed : (fuel : Nat) → Reader CharSet
  | 0 => failure
  | fuel + 1 => do
    skipBlanks
    let negated ← accept '^'
    skipBlanks
    let start ← opening
    let found ← folded (← items fuel none start)
    return if negated then found.complement else found

/-- The items up to the closing bracket. `before` holds what an operator joins them to. -/
def items : (fuel : Nat) → (before : Option (CharSet × Join)) → CharSet → Reader CharSet
  | 0, _, _ => failure
  | fuel + 1, before, found => do
    skipBlanks
    let joined : Reader CharSet := do
      match before with
      | some (left, join) => return join.apply (← folded left) (← folded found)
      | none => return found
    let operator (join : Join) : Reader CharSet := do
      let _ ← next
      let _ ← next
      items fuel (some (← joined, join)) CharSet.empty
    match (← get).rest with
    | [] => failure
    | ']' :: _ =>
      let _ ← next
      joined
    | '&' :: '&' :: _ => operator .intersection
    | '-' :: '-' :: _ => operator .difference
    | '~' :: '~' :: _ => operator .symmetric
    | '[' :: _ =>
      match ← named with
      | some inner => items fuel before (found.union inner)
      | none =>
        let _ ← next
        let inner ← bracketed fuel
        items fuel before (found.union inner)
    | _ =>
      let inner ← range
      items fuel before (found.union inner)

end

end Class

def counts : Reader (Nat × Option Nat) := do
  let low ← decimal
  if ← accept ',' then
    skipBlanks
    if ← accept '\x7d' then
      match low with
      | some low => return (low, none)
      | none => failure
    match low, ← decimal with
    | some low, some high =>
      expect '\x7d'
      if high < low then failure
      return (low, some high)
    | _, _ => failure
  else
    expect '\x7d'
    match low with
    | some low => return (low, some low)
    | none => failure
where
  decimal : Reader (Option Nat) := do
    let _ ← takeWhile Text.isBlank
    let digits ← takeWhile Letter.isAsciiDigit
    let _ ← takeWhile Text.isBlank
    if digits.isEmpty then return none
    match (Text.digits? digits).filter (· < Text.halfWordBound) with
    | some value => return some value
    | none => failure

def sizeLimit : Nat := 100000

def repeated (body : Regex) (low : Nat) (high : Option Nat) : Reader Regex := do
  if sizeLimit < body.size * (max low (high.getD 0) + 1) then failure
  match high with
  | some high => return (times low body).followedBy (upTo (high - low) body)
  | none => return (times low body).followedBy (star body)

def repetitions : (fuel : Nat) → Regex → Reader Regex
  | 0, _ => failure
  | fuel + 1, body => do
    skipBlanks
    let lazily : Reader Unit := do
      let _ ← accept '?'
    match ← peek with
    | some '*' =>
      let _ ← next
      lazily
      repetitions fuel (star body)
    | some '+' =>
      let _ ← next
      lazily
      repetitions fuel (body.followedBy (star body))
    | some '?' =>
      let _ ← next
      lazily
      repetitions fuel (alt body empty)
    | some '\x7b' =>
      let _ ← next
      let (low, high) ← counts
      lazily
      repetitions fuel (← repeated body low high)
    | _ => return body

/-- The letters of switches, up to a colon or a closing bracket. Tells which one it was. -/
def switches : (fuel : Nat) → (negated : Bool) → (last : Option Bool) → Reader Bool
  | 0, _, _ => failure
  | fuel + 1, negated, last => do
    let c ← next
    let turn (change : Flags → Flags) : Reader Bool := do
      modify fun place => { place with flags := change place.flags }
      switches fuel negated (some true)
    match c with
    | ':' | ')' => if last == some false then failure else return c == ':'
    | '-' => if negated then failure else switches fuel true (some false)
    | 'i' => turn fun flags => { flags with caseless := !negated }
    | 'm' => turn fun flags => { flags with lines := !negated }
    | 's' => turn fun flags => { flags with dotAll := !negated }
    | 'x' => turn fun flags => { flags with spaced := !negated }
    | 'u' => turn fun flags => { flags with ascii := negated }
    | 'U' | 'R' => turn id
    | _ => failure

def groupName : Reader Unit := do
  let name ← takeWhile (· != '>')
  expect '>'
  let isStart (c : Char) : Bool := c == '_' || Letter.isNameStart c
  let isPart (c : Char) : Bool :=
    c == '_' || c == '.' || c == '[' || c == ']' || Letter.isAlphanumeric c
  if !name.head?.any isStart || !name.all isPart then failure
  let text := String.ofList name
  let place ← get
  if place.names.contains text then failure
  set { place with names := text :: place.names }

mutual

def branches : (fuel : Nat) → Reader Regex
  | 0 => failure
  | fuel + 1 => do
    let first ← branch fuel empty
    if ← accept '|' then return alt first (← branches fuel) else return first

def branch : (fuel : Nat) → Regex → Reader Regex
  | 0, _ => failure
  | fuel + 1, before => do
    skipBlanks
    match ← peek with
    | none | some '|' | some ')' => return before
    | some '*' | some '+' | some '?' | some '\x7b' => failure
    | some _ =>
      match ← part fuel with
      | some body => branch fuel (before.followedBy (← repetitions (fuel + 1) body))
      | none =>
        skipBlanks
        match ← peek with
        | some '*' | some '+' | some '?' | some '\x7b' => failure
        | _ => branch fuel before

def part : (fuel : Nat) → Reader (Option Regex)
  | 0 => failure
  | fuel + 1 => do
    let flags ← flags
    match ← next with
    | '(' => group fuel
    | '[' => return some (chars (← Class.bracketed fuel))
    | '\\' =>
      match ← escape with
      | .char c => return some (literal flags c)
      | .set found => return some (chars found)
      | .look condition => return some (look condition)
    | '.' => return some (chars (if flags.dotAll then CharSet.all else
        (CharSet.ofChar '\n').complement))
    | '^' => return some (look (if flags.lines then .lineStart else .start))
    | '$' => return some (look (if flags.lines then .lineEnd else .finish))
    | c => return some (literal flags c)

/-- A group after its opening bracket. Switches turned inside it end with it. -/
def group : (fuel : Nat) → Reader (Option Regex)
  | 0 => failure
  | fuel + 1 => do
    let flags ← flags
    let body : Reader (Option Regex) := do
      let inner ← branches fuel
      expect ')'
      modify ({ · with flags })
      return some inner
    match (← get).rest with
    | '?' :: 'P' :: '<' :: rest =>
      modify ({ · with rest })
      groupName
      body
    | '?' :: '<' :: rest =>
      modify ({ · with rest })
      groupName
      body
    | '?' :: rest =>
      modify ({ · with rest })
      if rest.head? == some ')' then failure
      if ← switches (fuel + 1) false none then body else return none
    | _ => body

end

def ofText? (text : String) (caseless : Bool) : Option Regex :=
  let cs := text.toList
  match (branches (4 * cs.length + 8)).run { rest := cs, flags := { caseless } } with
  | some (regex, { rest := [], .. }) => some regex
  | _ => none

instance : RegexEngine where
  read? text caseless := (ofText? text caseless).map isMatch

end LeakTrace.Regex
