import LeakTrace.Document.Basic

namespace LeakTrace.Yaml

/-- The tokens of a text, with the starts and ends of blocks that its indentation implies. -/
inductive Token where
  | directive
  | documentStart
  | documentEnd
  | blockList
  | blockRecord
  | blockEnd
  | flowList
  | flowListEnd
  | flowRecord
  | flowRecordEnd
  | dash
  | comma
  | key
  | value
  | reference (name : String)
  | anchor (name : String)
  | tag
  | scalar (plain : Bool) (text : String)
  deriving DecidableEq, Inhabited

structure KeyStart where
  token : Nat
  required : Bool
  index : Nat
  line : Nat
  column : Nat

structure Scan where
  rest : List Char
  index : Nat := 0
  line : Nat := 0
  column : Nat := 0
  tokens : Array Token := #[]
  /-- The column of the innermost block, and those of the blocks around it. -/
  indent : Int := -1
  outer : List Int := []
  /-- One for each flow bracket that is open, innermost first, and one for the block around them. -/
  keys : List (Option KeyStart) := [none]
  keyAllowed : Bool := true

abbrev Scanner := StateT Scan Option

def isBreak (c : Char) : Bool :=
  c == '\n' || c == '\r' || c == '\u0085' || c == '\u2028' || c == '\u2029'

def isSpace (c : Char) : Bool := c == ' ' || c == '\t'

def blankAhead (cs : List Char) : Bool := cs.head?.all fun c => isSpace c || isBreak c

namespace Scan

def inFlow (scan : Scan) : Bool := 1 < scan.keys.length

def pass (count : Nat) (scan : Scan) : Scan :=
  { scan with
    rest := scan.rest.drop count
    index := scan.index + count
    column := scan.column + count }

def passBreak (scan : Scan) : Scan :=
  let count := match scan.rest with
    | '\r' :: '\n' :: _ => 2
    | _ => 1
  { scan with
    rest := scan.rest.drop count
    index := scan.index + count
    line := scan.line + 1
    column := 0 }

def breakChar (scan : Scan) : Char :=
  match scan.rest with
  | '\u2028' :: _ => '\u2028'
  | '\u2029' :: _ => '\u2029'
  | _ => '\n'

def push (token : Token) (scan : Scan) : Scan :=
  { scan with tokens := scan.tokens.push token }

def atMarker (mark : Char) (scan : Scan) : Bool :=
  scan.column == 0 && scan.rest.take 3 == [mark, mark, mark] && blankAhead (scan.rest.drop 3)

def atDocumentMarker (scan : Scan) : Bool := scan.atMarker '-' || scan.atMarker '.'

def unroll (column : Int) : (indent : Int) → (outer : List Int) → Scan → Scan
  | indent, [], scan => { scan with indent, outer := [] }
  | indent, next :: outer, scan =>
    if column < indent then unroll column next outer (scan.push .blockEnd)
    else { scan with indent, outer := next :: outer }

def unrollTo (column : Int) (scan : Scan) : Scan :=
  if scan.inFlow then scan else unroll column scan.indent scan.outer scan

/-- Starts a block if the column is deeper than the innermost one. The token goes to the place
`at`. -/
def roll (column : Nat) (place : Nat) (token : Token) (scan : Scan) : Scan :=
  if !scan.inFlow && scan.indent < column then
    { scan with
      indent := column
      outer := scan.indent :: scan.outer
      tokens := scan.tokens.insertIdxIfInBounds place token }
  else scan

def dropKey? (scan : Scan) : Option Scan :=
  match scan.keys with
  | some key :: keys => if key.required then none else some { scan with keys := none :: keys }
  | _ => some scan

def noteKey? (scan : Scan) : Option Scan :=
  if scan.keyAllowed then do
    let required := !scan.inFlow && scan.indent == scan.column
    let scan ← scan.dropKey?
    let key : KeyStart :=
      { token := scan.tokens.size, required, index := scan.index, line := scan.line
        column := scan.column }
    return { scan with keys := some key :: scan.keys.tail }
  else some scan

def dropStale? (scan : Scan) : Option Scan := do
  let keys ← scan.keys.mapM fun
    | some key =>
      if key.line < scan.line || key.index + 1024 < scan.index then
        if key.required then none else some none
      else some (some key)
    | none => some none
  return { scan with keys }

end Scan

def skipBlanks : (fuel : Nat) → Scan → Scan
  | 0, scan => scan
  | fuel + 1, scan =>
    match scan.rest with
    | ' ' :: _ => skipBlanks fuel (scan.pass 1)
    | '\t' :: _ => if scan.inFlow || !scan.keyAllowed then skipBlanks fuel (scan.pass 1) else scan
    | '#' :: _ => skipBlanks fuel (scan.pass (scan.rest.takeWhile fun c => !isBreak c).length)
    | c :: _ =>
      if isBreak c then
        let scan := scan.passBreak
        skipBlanks fuel (if scan.inFlow then scan else { scan with keyAllowed := true })
      else scan
    | [] => scan

/-- Text that is gathered over several lines, last character first, with the blanks and line ends
that come before the next part of it. -/
structure Gathered where
  reversed : List Char := []
  blanks : List Char := []
  /-- The first line end, and those after it, last first. -/
  firstBreak : Option Char := none
  moreBreaks : List Char := []
  broken : Bool := false

namespace Gathered

variable (text : Gathered)

/-- Writes what stands between two parts: a single line end counts as a blank. -/
def join : Gathered :=
  let between := if text.broken then
      if text.firstBreak == some '\n' then
        if text.moreBreaks.isEmpty then [' '] else text.moreBreaks
      else text.moreBreaks ++ text.firstBreak.toList
    else text.blanks
  { reversed := between ++ text.reversed }

def add (c : Char) : Gathered := { text with reversed := c :: text.reversed }

def addBlank (c : Char) : Gathered :=
  if text.broken then text else { text with blanks := c :: text.blanks }

def addBreak (c : Char) : Gathered :=
  if text.broken then { text with moreBreaks := c :: text.moreBreaks }
  else { text with blanks := [], firstBreak := some c, broken := true }

end Gathered

def plainWord : (fuel : Nat) → Gathered → Scan → Option (Gathered × Scan)
  | 0, _, _ => none
  | fuel + 1, text, scan =>
    match scan.rest with
    | [] => some (text, scan)
    | c :: rest =>
      if isSpace c || isBreak c then some (text, scan)
      else
        let inFlow := scan.inFlow
        let closesFlow := rest.head?.any fun d => [',', '?', '[', ']', '\x7b', '\x7d'].contains d
        if inFlow && c == ':' && closesFlow then none
        else if (c == ':' && blankAhead rest) ||
            (inFlow && [',', '[', ']', '\x7b', '\x7d'].contains c) then some (text, scan)
        else
          let joined := if text.broken || !text.blanks.isEmpty then text.join else text
          plainWord fuel (joined.add c) (scan.pass 1)

def plainBlanks (indent : Int) : (fuel : Nat) → Gathered → Scan → Option (Gathered × Scan)
  | 0, _, _ => none
  | fuel + 1, text, scan =>
    match scan.rest with
    | c :: _ =>
      if isSpace c then
        if text.broken && scan.column < indent && c == '\t' then none
        else plainBlanks indent fuel (text.addBlank c) (scan.pass 1)
      else if isBreak c then plainBlanks indent fuel (text.addBreak scan.breakChar) scan.passBreak
      else some (text, scan)
    | [] => some (text, scan)

def plainText (indent : Int) : (fuel : Nat) → Gathered → Scan → Option (Gathered × Scan)
  | 0, _, _ => none
  | fuel + 1, text, scan => do
    if scan.atDocumentMarker || scan.rest.head? == some '#' then return (text, scan)
    let (text, scan) ← plainWord (scan.rest.length + 1) text scan
    if !scan.rest.head?.any (fun c => isSpace c || isBreak c) then return (text, scan)
    let (text, scan) ← plainBlanks indent (scan.rest.length + 1) text scan
    if !scan.inFlow && scan.column < indent then return (text, scan)
    plainText indent fuel text scan

def escaped? (cs : List Char) : Option (Char × Nat) :=
  let hex (digits : Nat) : Option (Char × Nat) := do
    let taken := (cs.drop 1).take digits
    guard (taken.length == digits)
    let value ← Scalar.natural? 16 taken
    guard value.isValidChar
    return (Char.ofNat value, digits + 1)
  match cs with
  | '0' :: _ => some ('\x00', 1)
  | 'a' :: _ => some ('\x07', 1)
  | 'b' :: _ => some ('\x08', 1)
  | 't' :: _ | '\t' :: _ => some ('\t', 1)
  | 'n' :: _ => some ('\n', 1)
  | 'v' :: _ => some ('\x0b', 1)
  | 'f' :: _ => some ('\x0c', 1)
  | 'r' :: _ => some ('\r', 1)
  | 'e' :: _ => some ('\x1b', 1)
  | ' ' :: _ => some (' ', 1)
  | '"' :: _ => some ('"', 1)
  | '/' :: _ => some ('/', 1)
  | '\\' :: _ => some ('\\', 1)
  | 'N' :: _ => some ('\u0085', 1)
  | '_' :: _ => some ('\u00A0', 1)
  | 'L' :: _ => some ('\u2028', 1)
  | 'P' :: _ => some ('\u2029', 1)
  | 'x' :: _ => hex 2
  | 'u' :: _ => hex 4
  | 'U' :: _ => hex 8
  | _ => none

def quotedText (double : Bool) : (fuel : Nat) → Gathered → Scan → Option (Gathered × Scan)
  | 0, _, _ => none
  | fuel + 1, text, scan =>
    if scan.atDocumentMarker then none
    else
      let waiting := text.broken || !text.blanks.isEmpty
      let joined := if waiting then text.join else text
      match scan.rest with
      | [] => none
      | '\'' :: '\'' :: rest =>
        if double then quotedText double fuel (joined.add '\'') (scan.pass 1)
        else quotedText double fuel (joined.add '\'') { scan.pass 2 with rest }
      | '\\' :: rest =>
        if !double then quotedText double fuel (joined.add '\\') (scan.pass 1)
        else if rest.head?.any isBreak then
          quotedText double fuel { joined with broken := true } (scan.pass 1).passBreak
        else
          match escaped? rest with
          | some (c, length) => quotedText double fuel (joined.add c) (scan.pass (length + 1))
          | none => none
      | c :: _ =>
        if c == (if double then '"' else '\'') then some (joined, scan.pass 1)
        else if isSpace c then quotedText double fuel (text.addBlank c) (scan.pass 1)
        else if isBreak c then quotedText double fuel (text.addBreak scan.breakChar) scan.passBreak
        else quotedText double fuel (joined.add c) (scan.pass 1)

/-- Reads the empty lines of a block of text, and its indentation if that is not known yet. The
deepest column is kept. -/
def blockBreaks (known : Option Nat) : (fuel : Nat) → (deepest : Nat) → (breaks : List Char) →
    Scan → Option (Nat × List Char × Scan)
  | 0, _, _, _ => none
  | fuel + 1, deepest, breaks, scan =>
    let spaces := (scan.rest.takeWhile (· == ' ')).length
    let scan := scan.pass (match known with
      | some indent => min spaces (indent - scan.column)
      | none => spaces)
    let deepest := max deepest scan.column
    let inside := known.all fun indent => scan.column < indent
    match scan.rest with
    | c :: _ =>
      if inside && c == '\t' then none
      else if isBreak c then blockBreaks known fuel deepest (scan.breakChar :: breaks) scan.passBreak
      else some (deepest, breaks, scan)
    | [] => some (deepest, breaks, scan)

/-- Reads the lines of a block of text, last character first, with the line end after the last one
and the empty lines behind it. -/
def blockLines (literal : Bool) (indent : Nat) : (fuel : Nat) → (reversed : List Char) →
    (lineEnd : Option Char) → (breaks : List Char) → (ledByBlank : Bool) → Scan →
    Option (List Char × Option Char × List Char × Scan)
  | 0, _, _, _, _, _ => none
  | fuel + 1, reversed, lineEnd, breaks, ledByBlank, scan =>
    if scan.column != indent || scan.rest.isEmpty then some (reversed, lineEnd, breaks, scan)
    else do
      let blank := scan.rest.head?.any isSpace
      let folds := !literal && lineEnd == some '\n' && !ledByBlank && !blank
      let reversed := if folds then
          if breaks.isEmpty then ' ' :: reversed else reversed
        else lineEnd.toList ++ reversed
      let line := scan.rest.takeWhile fun c => !isBreak c
      let reversed := line.reverse ++ breaks ++ reversed
      let scan := scan.pass line.length
      let (lineEnd, scan) := if scan.rest.isEmpty then (none, scan)
        else (some scan.breakChar, scan.passBreak)
      let (_, breaks, scan) ← blockBreaks (some indent) (scan.rest.length + 1) 0 [] scan
      blockLines literal indent fuel reversed lineEnd breaks blank scan

inductive Chomping where
  | strip | clip | keep

/-- The signs after the start of a block of text, how many there are, the way of chomping and the
number of columns. -/
def blockHeader? (cs : List Char) : Option (Nat × Chomping × Option Nat) :=
  let chomping? (c : Char) : Option Chomping :=
    if c == '+' then some .keep else if c == '-' then some .strip else none
  match cs with
  | [] => some (0, .clip, none)
  | c :: rest =>
    match chomping? c with
    | some chomping =>
      match rest.head? with
      | some d =>
        if d == '0' then none
        else if Letter.isAsciiDigit d then some (2, chomping, some (d.toNat - 48))
        else some (1, chomping, none)
      | none => some (1, chomping, none)
    | none =>
      if c == '0' then none
      else if Letter.isAsciiDigit c then
        match rest.head?.bind chomping? with
        | some chomping => some (2, chomping, some (c.toNat - 48))
        | none => some (1, .clip, some (c.toNat - 48))
      else some (0, .clip, none)

def blockText (literal : Bool) (scan : Scan) : Option (String × Scan) := do
  let scan := scan.pass 1
  let (signs, chomping, increment) ← blockHeader? scan.rest
  let scan := scan.pass signs
  let scan := scan.pass (scan.rest.takeWhile isSpace).length
  let scan := if scan.rest.head? == some '#' then
      scan.pass (scan.rest.takeWhile fun c => !isBreak c).length
    else scan
  guard (scan.rest.head?.all isBreak)
  let scan := if scan.rest.isEmpty then scan else scan.passBreak
  let known := increment.map fun n => if 0 ≤ scan.indent then scan.indent.toNat + n else n
  let (deepest, breaks, scan) ← blockBreaks known (scan.rest.length + 1) 0 [] scan
  let indent := known.getD (max (max deepest (scan.indent + 1).toNat) 1)
  let (reversed, lineEnd, breaks, scan) ←
    blockLines literal indent (scan.rest.length + 1) [] none breaks false scan
  let reversed := match chomping with
    | .strip => reversed
    | .clip => lineEnd.toList ++ reversed
    | .keep => breaks ++ lineEnd.toList ++ reversed
  return (String.ofList reversed.reverse, scan)

def isNameChar (c : Char) : Bool :=
  Letter.isAsciiLetter c || Letter.isAsciiDigit c || c == '_' || c == '-'

section

variable (scan : Scan)

def nameAfterSign : Option (String × Scan) := do
  let scan := scan.pass 1
  let name := scan.rest.takeWhile isNameChar
  guard !name.isEmpty
  let scan := scan.pass name.length
  guard (blankAhead scan.rest ||
    scan.rest.head?.any fun c => ['?', ':', ',', ']', '\x7d', '%', '@', '\x60'].contains c)
  return (String.ofList name, scan)

def tagAfterSign : Option Scan := do
  let scan := scan.pass (scan.rest.takeWhile fun c => !isSpace c && !isBreak c &&
    !(scan.inFlow && [',', '[', ']', '\x7b', '\x7d'].contains c)).length
  guard (blankAhead scan.rest || (scan.inFlow && scan.rest.head? == some ','))
  return scan

/-- Passes a directive; only versions whose major number is one are known. -/
def directiveAfterSign : Option Scan := do
  let line := scan.rest.takeWhile fun c => !isBreak c
  let words := (Text.splitAt isSpace line).filter fun word => !word.isEmpty
  match words with
  | name :: version :: rest =>
    guard (rest.head?.all fun word => word.head? == some '#' || name == "%TAG".toList)
    guard ((name == "%YAML".toList && version.take 2 == ['1', '.']) || name == "%TAG".toList)
    return scan.pass line.length
  | _ => none

def sign? : Option Token :=
  match scan.rest with
  | '[' :: _ => some .flowList
  | ']' :: _ => some .flowListEnd
  | '\x7b' :: _ => some .flowRecord
  | '\x7d' :: _ => some .flowRecordEnd
  | ',' :: _ => some .comma
  | '-' :: rest => if blankAhead rest then some .dash else none
  | '?' :: rest => if scan.inFlow || blankAhead rest then some .key else none
  | ':' :: rest => if scan.inFlow || blankAhead rest then some .value else none
  | _ => none

def scanSign (token : Token) (scan : Scan) : Option Scan := do
  match token with
  | .flowList | .flowRecord =>
    let scan ← scan.noteKey?
    return { (scan.pass 1).push token with keys := none :: scan.keys, keyAllowed := true }
  | .flowListEnd | .flowRecordEnd =>
    let scan ← scan.dropKey?
    let keys := if scan.inFlow then scan.keys.tail else scan.keys
    return { (scan.pass 1).push token with keys, keyAllowed := false }
  | .comma =>
    let scan ← scan.dropKey?
    return { (scan.pass 1).push token with keyAllowed := true }
  | .dash =>
    guard (scan.inFlow || scan.keyAllowed)
    let scan ← (scan.roll scan.column scan.tokens.size .blockList).dropKey?
    return { (scan.pass 1).push token with keyAllowed := true }
  | .key =>
    guard (scan.inFlow || scan.keyAllowed)
    let scan ← (scan.roll scan.column scan.tokens.size .blockRecord).dropKey?
    return { (scan.pass 1).push token with keyAllowed := !scan.inFlow }
  | _ =>
    match scan.keys with
    | some key :: keys =>
      let scan := { scan with tokens := scan.tokens.insertIdxIfInBounds key.token .key }
      let scan := scan.roll key.column key.token .blockRecord
      return { (scan.pass 1).push .value with keys := none :: keys, keyAllowed := false }
    | _ =>
      guard (scan.inFlow || scan.keyAllowed)
      let scan := scan.roll scan.column scan.tokens.size .blockRecord
      return { (scan.pass 1).push .value with keyAllowed := !scan.inFlow }

def startsPlain : Bool :=
  match scan.rest with
  | [] => false
  | c :: rest =>
    let special := ['-', '?', ':', ',', '[', ']', '\x7b', '\x7d', '#', '&', '*', '!', '|', '>', '\'',
      '"', '%', '@', '\x60']
    if special.contains c then
      (c == '-' && !rest.head?.any isSpace) ||
        (!scan.inFlow && (c == '?' || c == ':') && !blankAhead rest)
    else !isSpace c && !isBreak c

def scanToken : Option Scan := do
  let fuel := scan.rest.length + 1
  let marker (token : Token) : Option Scan := do
    let scan ← (scan.unrollTo (-1)).dropKey?
    return { (scan.pass 3).push token with keyAllowed := false }
  if scan.column == 0 && scan.rest.head? == some '%' then
    let scan ← (scan.unrollTo (-1)).dropKey?
    let scan ← directiveAfterSign scan
    return { scan.push .directive with keyAllowed := false }
  if scan.atMarker '-' then marker .documentStart
  else if scan.atMarker '.' then marker .documentEnd
  else match sign? scan with
    | some token => scanSign token scan
    | none =>
      match scan.rest.head? with
      | some '*' =>
        let (name, scan) ← nameAfterSign (← scan.noteKey?)
        return { scan.push (.reference name) with keyAllowed := false }
      | some '&' =>
        let (name, scan) ← nameAfterSign (← scan.noteKey?)
        return { scan.push (.anchor name) with keyAllowed := false }
      | some '!' =>
        let scan ← tagAfterSign (← scan.noteKey?)
        return { scan.push .tag with keyAllowed := false }
      | some '\'' =>
        let scan ← scan.noteKey?
        let (text, scan) ← quotedText false fuel {} (scan.pass 1)
        return { scan.push (.scalar false (String.ofList text.reversed.reverse)) with
          keyAllowed := false }
      | some '"' =>
        let scan ← scan.noteKey?
        let (text, scan) ← quotedText true fuel {} (scan.pass 1)
        return { scan.push (.scalar false (String.ofList text.reversed.reverse)) with
          keyAllowed := false }
      | some c =>
        if (c == '|' || c == '>') && !scan.inFlow then
          let scan ← scan.dropKey?
          let (text, scan) ← blockText (c == '|') scan
          return { scan.push (.scalar false text) with keyAllowed := true }
        else if startsPlain scan then
          let scan ← scan.noteKey?
          let (text, scan) ← plainText (scan.indent + 1) fuel {} { scan with keyAllowed := false }
          return { scan.push (.scalar true (String.ofList text.reversed.reverse)) with
            keyAllowed := text.broken }
        else none
      | none => none

end

def scanAll : (fuel : Nat) → Scan → Option Scan
  | 0, _ => none
  | fuel + 1, scan => do
    let scan := skipBlanks (scan.rest.length + 1) scan
    let scan ← scan.dropStale?
    let scan := scan.unrollTo scan.column
    if scan.rest.isEmpty then (scan.unrollTo (-1)).dropKey?
    else scanAll fuel (← scanToken scan)

def isPrintable (c : Char) : Bool :=
  let n := c.toNat
  n == 9 || n == 10 || n == 13 || (0x20 ≤ n && n ≤ 0x7E) || n == 0x85 || (0xA0 ≤ n && n ≤ 0xD7FF) ||
    (0xE000 ≤ n && n ≤ 0xFFFD && n != 0xFEFF) || 0x10000 ≤ n

def tokens? (text : String) : Option (Array Token) := do
  let cs := match text.toList with
    | '\uFEFF' :: rest => rest
    | cs => cs
  guard (cs.all isPrintable)
  let scan ← scanAll (cs.length + 2) { rest := cs }
  return scan.tokens

end LeakTrace.Yaml
