import LeakTrace.Text.Basic

namespace LeakTrace

inductive Look where
  | start | finish | lineStart | lineEnd
  | wordEdge (ascii : Bool)
  | noWordEdge (ascii : Bool)
  | wordStart (ascii : Bool)
  | wordEnd (ascii : Bool)
  | wordStartHalf (ascii : Bool)
  | wordEndHalf (ascii : Bool)
  deriving DecidableEq

namespace Look

def isWord (ascii : Bool) (c : Option Char) : Bool :=
  c.any fun c => Letter.isWord c && (!ascii || Letter.isAscii c)

/-- Whether the condition holds between the two characters. At the ends of a text one is missing. -/
def holds (look : Look) (before after : Option Char) : Bool :=
  match look with
  | start => before.isNone
  | finish => after.isNone
  | lineStart => before.isNone || before == some '\n'
  | lineEnd => after.isNone || after == some '\n'
  | wordEdge ascii => isWord ascii before != isWord ascii after
  | noWordEdge ascii => isWord ascii before == isWord ascii after
  | wordStart ascii => !isWord ascii before && isWord ascii after
  | wordEnd ascii => isWord ascii before && !isWord ascii after
  | wordStartHalf ascii => !isWord ascii before
  | wordEndHalf ascii => !isWord ascii after

end Look

/-- A regular expression over characters, with conditions on the places between them. -/
inductive Regex where
  | never
  | empty
  | chars (set : CharSet)
  | look (condition : Look)
  | seq (first second : Regex)
  | alt (left right : Regex)
  | star (body : Regex)
  deriving BEq, Inhabited

namespace Regex

def followedBy : Regex → Regex → Regex
  | empty, second => second
  | never, _ => never
  | first, empty => first
  | first, second => seq first second

/-- Whether the expression accepts the empty text between the two characters. -/
def acceptsEmpty (before after : Option Char) : Regex → Bool
  | never => false
  | empty => true
  | chars _ => false
  | look condition => condition.holds before after
  | seq first second => acceptsEmpty before after first && acceptsEmpty before after second
  | alt left right => acceptsEmpty before after left || acceptsEmpty before after right
  | star _ => true

/-- What may remain of the expression after the character `c`. -/
def step (before : Option Char) (c : Char) : Regex → List Regex
  | never => []
  | empty => []
  | chars set => if set.contains c then [empty] else []
  | look _ => []
  | seq first second =>
    let inFirst := (step before c first).map (followedBy · second)
    if acceptsEmpty before (some c) first then inFirst ++ step before c second else inFirst
  | alt left right => step before c left ++ step before c right
  | star body => (step before c body).map (followedBy · (star body))

def addNew (found : List Regex) : List Regex → List Regex
  | [] => found
  | next :: rest => addNew (if found.contains next then found else next :: found) rest

/-- Whether some place of the text starts a match of `whole`, or one of the `pending` expressions
matches from here on. -/
def search (whole : Regex) : (pending : List Regex) → (before : Option Char) → List Char → Bool
  | pending, before, cs =>
    let pending := addNew pending [whole]
    pending.any (acceptsEmpty before cs.head?) ||
      match cs with
      | [] => false
      | c :: rest => search whole (addNew [] (pending.flatMap (step before c))) (some c) rest

def isMatch (regex : Regex) (text : String) : Bool := search regex [] none text.toList

def times : Nat → Regex → Regex
  | 0, _ => empty
  | n + 1, body => followedBy body (times n body)

def upTo : Nat → Regex → Regex
  | 0, _ => empty
  | n + 1, body => alt (followedBy body (upTo n body)) empty

def size : Regex → Nat
  | seq first second => size first + size second + 1
  | alt left right => size left + size right + 1
  | star body => size body + 1
  | _ => 1

end Regex

end LeakTrace
