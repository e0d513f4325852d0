import Hypertext.Token.Lines
import Hypertext.Token.Scan

/-! # Reading by offsets

A cursor goes over a text that is held whole. A character is asked for by its offset, and a loop goes
on until one of its passes ends it. To ask for a character behind the end is a fault, and so is a loop
that needs more passes than it may make.
-/

namespace Hypertext

set_option autoImplicit false

open Text

inductive Pass (σ β : Type) where
  | again (state : σ)
  | done (result : β)
  deriving DecidableEq, Repr

def Pass.loop {σ β : Type} (pass : σ → Outcome (Pass σ β)) : Nat → σ → Outcome β
  | 0, _ => .error .exhausted
  | limit + 1, state => do
    match ← pass state with
    | .done result => return result
    | .again next => loop pass limit next

structure Cursor where
  mode : Mode
  /-- The offset of the first unread character. -/
  offset : Nat
  /-- The offset at which the text begins that is held back. -/
  heldFrom : Option Nat
  tokens : Array Token
  deriving DecidableEq, Repr

namespace Cursor

/-! ## Parts of the text -/

variable (text : Array Char)

def charAt (offset : Nat) : Outcome Char :=
  match text[offset]? with
  | some c => .ok c
  | none => .error (.raised (.plain "IndexError" "string index out of range"))

def slice (start stop : Nat) : List Char := (text.extract start stop).toList

def unread (offset : Nat) : List Char := text.toList.drop offset

def startsWith (mark : List Char) (offset : Nat) : Bool :=
  slice text offset (offset + mark.length) = mark

def find? (mark : List Char) (offset : Nat) : Option Nat :=
  (breakAfter mark (unread text offset)).map fun parts => offset + parts.1.length - mark.length

def matchEndTag? (offset : Nat) : Option (List Char × Nat) :=
  (readEndTag? (unread text (offset + 2))).map fun parts => (parts.1, text.size - parts.2.length)

def searchEnd? (element : RawElement) (offset : Nat) : Option Nat :=
  let parts := splitRaw element (unread text offset)
  if parts.2 = [] then none else some (offset + parts.1.length)

/-! ## Start tags -/

def skipPass (test : Char → Bool) (offset : Nat) : Outcome (Pass Nat Nat) :=
  if offset < text.size then do
    return if test (← charAt text offset) then .again (offset + 1) else .done offset
  else .ok (.done offset)

/-- No loop within a tag takes more passes than there are characters, and one that ends it. -/
def skip (test : Char → Bool) (offset : Nat) : Outcome Nat :=
  Pass.loop (skipPass text test) (text.size + 1) offset

def readValue (offset : Nat) : Outcome (Option (Nat × List Char)) := do
  let start ← skip text isSpacing offset
  if start < text.size then
    let quote ← charAt text start
    if quote = '"' || quote = '\'' then
      return (find? text [quote] (start + 1)).map fun close =>
        (close + 1, slice text (start + 1) close)
    else
      let stop ← skip text isUnquotedChar start
      return some (stop, slice text start stop)
  else return none

def readAssignment (offset : Nat) : Outcome (Option (Nat × List Char)) := do
  let equals ← skip text isSpacing offset
  if equals < text.size then
    if (← charAt text equals) = '=' then readValue text (equals + 1)
    else return some (offset, [])
  else return some (offset, [])

structure Listed where
  offset : Nat
  attributes : List AttributeText
  deriving DecidableEq, Repr

structure Ending where
  offset : Nat
  attributes : List AttributeText
  selfClosing : Bool
  deriving DecidableEq, Repr

/-- One more attribute, a slash that is passed over, or the end of the tag. -/
def attributePass (listed : Listed) : Outcome (Pass Listed (Option Ending)) := do
  let start ← skip text isSpacing listed.offset
  if start < text.size then
    let c ← charAt text start
    if c = '>' then return .done (some ⟨start + 1, listed.attributes, false⟩)
    else if c = '/' then
      if startsWith text ['/', '>'] start then
        return .done (some ⟨start + 2, listed.attributes, true⟩)
      else return .again ⟨start + 1, listed.attributes⟩
    else
      let stop ← skip text isNameChar (start + 1)
      match ← readAssignment text stop with
      | none => return .done none
      | some (next, value) =>
        return .again ⟨next, listed.attributes ++ [⟨slice text start stop, value⟩]⟩
  else return .done none

def readStartTag (start : Nat) : Outcome (Option (StartTag × Nat)) := do
  let stop ← skip text isNameChar (start + 1)
  let ending ← Pass.loop (attributePass text) (text.size + 1) ⟨stop, []⟩
  return ending.map fun ending =>
    (⟨slice text (start + 1) stop, ending.attributes, ending.selfClosing⟩, ending.offset)

/-! ## Tokens -/

variable (starts : Array Nat)

/-- Holds text back from an offset on, unless some is held back already. -/
def mark (s : Cursor) (start : Nat) : Cursor := { s with heldFrom := some (s.heldFrom.getD start) }

def literal (s : Cursor) (start : Nat) : Cursor :=
  { s.mark start with offset := start + 1, mode := .data }

def flush (s : Cursor) (stop : Nat) : Outcome Cursor :=
  match s.heldFrom with
  | none => .ok s
  | some start =>
    if start < stop then do
      let position ← Position.locate starts start
      let token : Token := ⟨position, .text (String.ofList (slice text start stop))⟩
      return { s with heldFrom := none, tokens := s.tokens.push token }
    else .ok { s with heldFrom := none }

def emit (s : Cursor) (lexeme : Lexeme) (start next : Nat) (mode : Mode) : Outcome Cursor := do
  let flushed ← flush text starts s start
  let position ← Position.locate starts start
  return { flushed with mode, offset := next, tokens := flushed.tokens.push ⟨position, lexeme⟩ }

def readData (s : Cursor) : Cursor :=
  match find? text ['<'] s.offset with
  | none => { s.mark s.offset with offset := text.size }
  | some next =>
    { (if s.offset < next then s.mark s.offset else s) with offset := next, mode := .tagOpen }

def readTag (casing : Casing) (s : Cursor) : Outcome Cursor := do
  let start := s.offset
  if startsWith text commentOpen start then
    let stop :=
      match find? text commentClose (start + commentOpen.length) with
      | none => text.size
      | some close => close + commentClose.length
    emit text starts s (.comment (String.ofList (slice text start stop))) start stop .data
  else if startsWith text ['<', '!'] start || startsWith text ['<', '?'] start then
    match find? text ['>'] start with
    | none => return s.literal start
    | some close =>
      emit text starts s (.directive (String.ofList (slice text start (close + 1)))) start
        (close + 1) .data
  else if startsWith text ['<', '/'] start then
    match matchEndTag? text start with
    | none => return s.literal start
    | some (name, next) => emit text starts s (.endTag (casing.tagName name)) start next .data
  else if start + 1 < text.size then
    if isLetter (← charAt text (start + 1)) then
      match ← readStartTag text start with
      | none => return s.literal start
      | some (tag, next) =>
        emit text starts s (Scan.startLexeme casing tag) start next (Scan.modeAfter tag)
    else return s.literal start
  else return s.literal start

def readRaw (element : RawElement) (s : Cursor) : Cursor :=
  let found := searchEnd? text element s.offset
  let stop := found.getD text.size
  { (if s.offset < stop then s.mark s.offset else s) with
    offset := stop
    mode := if found.isSome then .tagOpen else .data }

def step (casing : Casing) (s : Cursor) : Outcome Cursor :=
  match s.mode with
  | .data => .ok (readData text s)
  | .tagOpen => readTag text starts casing s
  | .raw element => .ok (readRaw text element s)

def stepPass (casing : Casing) (s : Cursor) : Outcome (Pass Cursor Cursor) :=
  if s.offset < text.size then do return .again (← step text starts casing s)
  else .ok (.done s)

def begin : Cursor := ⟨.data, 0, none, #[]⟩

/-- The tokens of a text. Twice as many steps as there are characters and one more must do. -/
def scan (casing : Casing) (markup : String) : Outcome (List Token) := do
  let text := markup.toList.toArray
  let starts := lineStarts markup.toList
  let last ← Pass.loop (stepPass text starts casing) (2 * text.size + 2) begin
  let flushed ← flush text starts last text.size
  return flushed.tokens.toList

end Cursor

end Hypertext
