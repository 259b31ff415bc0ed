import LeakTrace.Crate.Literal

namespace LeakTrace.Crate

inductive Delimiter where
  | paren | bracket | brace
  deriving DecidableEq, Inhabited

/-- A token with the bytes where it starts and stops. What stands between two brackets is one token,
and a mark is joined if another mark follows it at once. -/
inductive Token where
  | word (text : String) (raw : Bool) (start stop : Nat)
  | mark (sign : Char) (joined : Bool) (start stop : Nat)
  | lifetime (text : String) (start stop : Nat)
  | literal (value : Literal) (text : String) (start stop : Nat)
  | group (delimiter : Delimiter) (inner : List Token) (start stop : Nat)
  deriving Inhabited

namespace Token

def start : Token → Nat
  | word _ _ start _ | mark _ _ start _ | lifetime _ start _ | literal _ _ start _
  | group _ _ start _ => start

def stop : Token → Nat
  | word _ _ _ stop | mark _ _ _ stop | lifetime _ _ stop | literal _ _ _ stop
  | group _ _ _ stop => stop

def glued : Token → Token → Bool
  | mark first true _ _, mark second _ _ _ =>
    [(':', ':'), ('-', '>'), ('.', '.')].contains (first, second)
  | _, _ => false

mutual

def text : Token → String
  | word text raw _ _ => if raw then "r#" ++ text else text
  | mark sign _ _ _ => sign.toString
  | lifetime text _ _ | literal _ text _ _ => text
  | group delimiter inner _ _ =>
    match delimiter with
    | .paren => "(" ++ texts inner ++ ")"
    | .bracket => "[" ++ texts inner ++ "]"
    | .brace => "\x7b " ++ texts inner ++ (if inner.isEmpty then "\x7d" else " \x7d")

/-- Tokens as text, with a blank between two of them unless they are printed as one. -/
def texts : List Token → String
  | [] => ""
  | token :: rest =>
    let gap := match rest with
      | [] => ""
      | next :: _ => if glued token next then "" else " "
    text token ++ gap ++ texts rest

end

end Token

namespace Lexer

def isBlank (c : Char) : Bool := Text.isBlank c || c.toNat == 0x200E || c.toNat == 0x200F

/-- Length of a block comment, in which further ones may lie; nothing if it does not end. -/
def blockLength? : (depth : Nat) → List Char → (length : Nat) → Option Nat
  | depth, '/' :: '*' :: rest, length => blockLength? (depth + 1) rest (length + 2)
  | depth, '*' :: '/' :: rest, length =>
    if depth ≤ 1 then some (length + 2) else blockLength? (depth - 1) rest (length + 2)
  | depth, _ :: rest, length => blockLength? depth rest (length + 1)
  | _, [], _ => none

def lineLength : List Char → Nat → Nat
  | [], length => length
  | c :: rest, length =>
    if c = '\n' || c = '\r' && rest.head? == some '\n' then length else lineLength rest (length + 1)

def commentLength? (cs : List Char) : Option Nat :=
  match cs with
  | '/' :: '/' :: '!' :: _ => none
  | '/' :: '/' :: '/' :: '/' :: rest => some (lineLength rest 4)
  | '/' :: '/' :: '/' :: _ => none
  | '/' :: '/' :: rest => some (lineLength rest 2)
  | '/' :: '*' :: '*' :: '/' :: _ => some 4
  | '/' :: '*' :: '!' :: _ => none
  | '/' :: '*' :: '*' :: '*' :: _ => blockLength? 0 cs 0
  | '/' :: '*' :: '*' :: _ => none
  | '/' :: '*' :: _ => blockLength? 0 cs 0
  | _ => none

/-- Length of a comment that documents what follows it, or with `true` what holds it. -/
def docLength? (cs : List Char) : Option (Nat × Bool) :=
  let inner := Text.startsWith ['/', '/', '!'] cs || Text.startsWith ['/', '*', '!'] cs
  let length? := match cs with
    | '/' :: '/' :: '!' :: rest | '/' :: '/' :: '/' :: rest => some (lineLength rest 3)
    | '/' :: '*' :: '!' :: _ | '/' :: '*' :: '*' :: _ => blockLength? 0 cs 0
    | _ => none
  length?.bind fun length =>
    if loneReturn (cs.take length) then none else some (length, inner)
where
  loneReturn : List Char → Bool
    | '\r' :: '\n' :: rest => loneReturn rest
    | '\r' :: _ => true
    | _ :: rest => loneReturn rest
    | [] => false

def skip : (fuel : Nat) → List Char → Nat → List Char × Nat
  | 0, cs, offset => (cs, offset)
  | fuel + 1, cs, offset =>
    match cs with
    | [] => ([], offset)
    | c :: rest =>
      if c = '/' then
        match commentLength? cs with
        | some n => skip fuel (cs.drop n) (offset + Text.byteLength (cs.take n))
        | none => (cs, offset)
      else if isBlank c then skip fuel rest (offset + c.utf8Size)
      else (cs, offset)

/-- A documenting comment stands for the attribute that it abbreviates, latest token first. -/
def docTokens (inner : Bool) (start stop : Nat) : List Token :=
  let body := [.word "doc" false start stop, .mark '=' false start stop,
    .literal (.string "") "" start stop]
  .group .bracket body start stop ::
    ((if inner then [.mark '!' false start stop] else []) ++ [.mark '#' false start stop])

def isMark (cs : List Char) : Bool :=
  match cs with
  | '/' :: '/' :: _ | '/' :: '*' :: _ => false
  | c :: _ => "~!@#$%^&*-=+|;:,<.>/?'".toList.contains c
  | [] => false

def startsLiteral (cs : List Char) : Bool :=
  [['r', '"'], ['r', '#', '"'], ['r', '#', '#'], ['b', '"'], ['b', '\''], ['b', 'r', '"'],
    ['b', 'r', '#'], ['c', '"'], ['c', 'r', '"'], ['c', 'r', '#']].any (Text.startsWith · cs)

def name? (cs : List Char) : Option (String × Bool × Nat) :=
  let raw := Text.startsWith ['r', '#'] cs
  let body := if raw then cs.drop 2 else cs
  let length := nameLength body
  let text := String.ofList (body.take length)
  if length = 0 then none
  else if raw then
    if ["_", "super", "self", "Self", "crate"].contains text then none
    else some (text, true, length + 2)
  else some (text, false, length)

def lifetimeLength? : List Char → Option Nat
  | '\'' :: rest =>
    (name? rest).bind fun (_, raw, length) =>
      match (rest.drop length).head? with
      | some '\'' => none
      | some '#' => if raw then some (length + 1) else none
      | _ => some (length + 1)
  | _ => none

def leaf? (size : Nat) (cs : List Char) (offset : Nat) : Option (Token × Nat) :=
  let stop (n : Nat) : Nat := offset + Text.byteLength (cs.take n)
  match literalLength? size cs with
  | some n =>
    let text := cs.take n
    some (.literal (Literal.ofText text) (String.ofList text) offset (stop n), n)
  | none =>
    match cs with
    | '\'' :: _ => (lifetimeLength? cs).map fun n =>
        (.lifetime (String.ofList (cs.take n)) offset (stop n), n)
    | c :: rest =>
      if isMark cs then some (.mark c (isMark rest) offset (offset + 1), 1)
      else if startsLiteral cs then none
      else (name? cs).map fun (text, raw, n) => (.word text raw offset (stop n), n)
    | [] => none

def opening? : Char → Option Delimiter
  | '(' => some .paren
  | '[' => some .bracket
  | '\x7b' => some .brace
  | _ => none

def closing? : Char → Option Delimiter
  | ')' => some .paren
  | ']' => some .bracket
  | '\x7d' => some .brace
  | _ => none

/-- Reads the tokens of a text; nothing if it holds something else or its brackets do not match.
`read` holds the tokens since the last open bracket, latest first, and `outer` those before it. -/
def scan : (fuel : Nat) → List Char → Nat → (outer : List (Delimiter × Nat × List Token)) →
    (read : List Token) → Option (List Token)
  | 0, _, _, _, _ => none
  | fuel + 1, cs, offset, outer, read =>
    match skip (fuel + 1) cs offset with
    | ([], _) => if outer.isEmpty then some read.reverse else none
    | (c :: rest, offset) =>
      match if c = '/' then docLength? (c :: rest) else none with
      | some (n, inner) =>
        let stop := offset + Text.byteLength ((c :: rest).take n)
        scan fuel ((c :: rest).drop n) stop outer (docTokens inner offset stop ++ read)
      | none =>
        match opening? c, closing? c with
        | some delimiter, _ => scan fuel rest (offset + 1) ((delimiter, offset, read) :: outer) []
        | none, some delimiter =>
          match outer with
          | (opened, start, before) :: outer =>
            if opened = delimiter then
              let group := .group delimiter read.reverse start (offset + 1)
              scan fuel rest (offset + 1) outer (group :: before)
            else none
          | [] => none
        | none, none =>
          match leaf? (fuel + 1) (c :: rest) offset with
          | some (token, n) => scan fuel ((c :: rest).drop n) token.stop outer (token :: read)
          | none => none

end Lexer

/-- The tokens of a text that starts at byte `offset`. A byte order mark before it is passed. -/
def tokens? (cs : List Char) (offset : Nat) : Option (List Token) :=
  match cs with
  | '\uFEFF' :: rest => Lexer.scan (rest.length + 1) rest (offset + 3) [] []
  | _ => Lexer.scan (cs.length + 1) cs offset [] []

end LeakTrace.Crate
