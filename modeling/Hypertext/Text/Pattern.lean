import Hypertext.Text.Blank
import Hypertext.Text.Caseless
import Hypertext.Text.Letter
import Hypertext.Text.Numeral
import Hypertext.Text.Quoted

/-! # Search patterns

A pattern is found in a text when it matches some stretch of it. Only whether it is found
is asked, so matching computes the set of all ends of a match instead of a preferred one.
-/

namespace Hypertext.Text

set_option autoImplicit false

inductive CharSet where
  | char (c : Char)
  | range (low high : Char)
  | digit
  | blank
  | word
  deriving DecidableEq, Repr

inductive Expr where
  | empty
  | char (c : Char)
  | any
  | oneOf (negated : Bool) (sets : List CharSet)
  | start
  | finish
  | seq (first second : Expr)
  | alt (left right : Expr)
  | opt (body : Expr)
  | star (body : Expr)
  deriving DecidableEq, Repr

/-- A pattern with its source text, which is what a written pattern shows. -/
structure Pattern where
  source : String
  ignoreCase : Bool
  expr : Expr
  deriving DecidableEq, Repr

namespace CharSet

def hasExactly (c : Char) : CharSet → Bool
  | char d => c = d
  | range low high => low ≤ c && c ≤ high
  | digit => isDigit c
  | blank => isBlank c
  | word => isLetter c || isNumeral c || c = '_'

def has (ignoreCase : Bool) (c : Char) (set : CharSet) : Bool :=
  if ignoreCase then
    match set with
    | char d => alike d c
    | range low high =>
      let folded := foldCodePoint c.toNat
      let raised := raiseCodePoint loweringRows folded
      (low.toNat ≤ folded && folded ≤ high.toNat) || (low.toNat ≤ raised && raised ≤ high.toNat)
    | other => other.hasExactly c
  else set.hasExactly c

end CharSet

/-- A place in a text: whether it is the beginning, and what follows. -/
structure Place where
  atStart : Bool
  rest : List Char
  deriving DecidableEq

namespace Place

def advance (place : Place) (test : Char → Bool) : List Place :=
  match place.rest with
  | [] => []
  | c :: rest => if test c then [⟨false, rest⟩] else []

end Place

namespace Expr

/-- All places at which a repetition may stop, each reached by passes that move on. -/
def closure (pass : Place → List Place) : Nat → List Place → List Place → List Place
  | 0, _, reached => reached
  | rounds + 1, frontier, reached =>
    let fresh := (frontier.flatMap pass).eraseDups.filter (!reached.contains ·)
    if fresh.isEmpty then reached else closure pass rounds fresh (reached ++ fresh)

def ends (ignoreCase : Bool) : Expr → Place → List Place
  | empty, place => [place]
  | char d, place => place.advance fun c => if ignoreCase then alike d c else c = d
  | any, place => place.advance (· ≠ '\n')
  | oneOf negated sets, place =>
    place.advance fun c => negated != sets.any (·.has ignoreCase c)
  | start, place => if place.atStart then [place] else []
  | finish, place => if place.rest = [] || place.rest = ['\n'] then [place] else []
  | seq first second, place =>
    ((first.ends ignoreCase place).flatMap (second.ends ignoreCase)).eraseDups
  | alt left right, place =>
    (left.ends ignoreCase place ++ right.ends ignoreCase place).eraseDups
  | opt body, place => (place :: body.ends ignoreCase place).eraseDups
  | star body, place =>
    closure (body.ends ignoreCase) (place.rest.length + 1) [place] [place]

/-! ## Reading -/

def escapeSet : Char → CharSet
  | 'd' => .digit
  | 's' => .blank
  | 'w' => .word
  | 'n' => .char '\n'
  | 't' => .char '\t'
  | 'r' => .char '\r'
  | 'f' => .char '\x0c'
  | c => .char c

/-- The sets up to the closing bracket, and what follows it. -/
def readSets : List CharSet → List Char → List CharSet × List Char
  | sets, [] => (sets, [])
  | sets, ']' :: rest => (sets, rest)
  | sets, '\\' :: c :: rest => readSets (sets ++ [escapeSet c]) rest
  | sets, low :: '-' :: high :: rest =>
    if high = ']' then (sets ++ [.char low, .char '-'], rest)
    else readSets (sets ++ [.range low high]) rest
  | sets, c :: rest => readSets (sets ++ [.char c]) rest

/-- A bracket that stands first in a set is a member of it. -/
def readBracket : List Char → List CharSet × List Char
  | ']' :: rest => readSets [.char ']'] rest
  | cs => readSets [] cs

def ofSet : CharSet → Expr
  | .char c => char c
  | set => oneOf false [set]

def repeated (e : Expr) : List Char → Expr × List Char
  | '*' :: rest => (star e, rest)
  | '+' :: rest => (seq e (star e), rest)
  | '?' :: rest => (opt e, rest)
  | rest => (e, rest)

/-- Reads alternatives up to a closing parenthesis or the end. `left` is the alternative
already complete, if any, and `sofar` the sequence under way; each call reads one item, so
the budget of one more than the number of characters is never used up. -/
def readAlternatives : Nat → Option Expr → Expr → List Char → Expr × List Char
  | 0, left, sofar, cs => (finishAlternative left sofar, cs)
  | budget + 1, left, sofar, cs =>
    match cs with
    | [] => (finishAlternative left sofar, [])
    | ')' :: rest => (finishAlternative left sofar, ')' :: rest)
    | '|' :: rest => readAlternatives budget (some (finishAlternative left sofar)) empty rest
    | '(' :: rest =>
      let (body, after) := readAlternatives budget none empty rest
      item budget left sofar body (after.drop 1)
    | '[' :: '^' :: rest =>
      let (sets, after) := readBracket rest
      item budget left sofar (oneOf true sets) after
    | '[' :: rest =>
      let (sets, after) := readBracket rest
      item budget left sofar (oneOf false sets) after
    | '\\' :: c :: rest => item budget left sofar (ofSet (escapeSet c)) rest
    | '.' :: rest => item budget left sofar any rest
    | '^' :: rest => item budget left sofar start rest
    | '$' :: rest => item budget left sofar finish rest
    | c :: rest => item budget left sofar (char c) rest
where
  finishAlternative (left : Option Expr) (sofar : Expr) : Expr :=
    match left with
    | none => sofar
    | some e => alt e sofar
  item (budget : Nat) (left : Option Expr) (sofar e : Expr) (rest : List Char) :
      Expr × List Char :=
    let (e, rest) := repeated e rest
    readAlternatives budget left (seq sofar e) rest

def ofChars (cs : List Char) : Expr := (readAlternatives (cs.length + 1) none empty cs).1

end Expr

namespace Pattern

def ofSource (source : String) (ignoreCase : Bool) : Pattern :=
  ⟨source, ignoreCase, Expr.ofChars source.toList⟩

def foundFrom (pattern : Pattern) (atStart : Bool) : List Char → Bool
  | [] => !(pattern.expr.ends pattern.ignoreCase ⟨atStart, []⟩).isEmpty
  | c :: rest =>
    !(pattern.expr.ends pattern.ignoreCase ⟨atStart, c :: rest⟩).isEmpty ||
      pattern.foundFrom false rest

def found (pattern : Pattern) (text : String) : Bool := pattern.foundFrom true text.toList

def written (pattern : Pattern) : String :=
  let flags := if pattern.ignoreCase then ", re.IGNORECASE" else ""
  "re.compile(" ++ String.ofList ((quoted pattern.source).toList.take 200) ++ flags ++ ")"

end Pattern

end Hypertext.Text
