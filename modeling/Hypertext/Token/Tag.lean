import Hypertext.Text.Blank
import Hypertext.Text.Caseless
import Hypertext.Text.Letter
import Hypertext.Token.Basic

/-! # Readers of single tokens

Each reader is given the text from a `<` on and answers with what it read and the text that is
left, or with nothing when the construct is not complete. What is left is always shorter.
-/

namespace Hypertext

set_option autoImplicit false

open Text

/-- The text up to and including the first occurrence of `mark`, and what follows it. -/
def breakAfter (mark : List Char) : List Char → Option (List Char × List Char)
  | [] => if mark.isEmpty then some ([], []) else none
  | c :: rest =>
    if mark.isPrefixOf (c :: rest) then
      some ((c :: rest).take mark.length, (c :: rest).drop mark.length)
    else (breakAfter mark rest).map fun parts => (c :: parts.1, parts.2)

theorem breakAfter_append {mark text first rest : List Char}
    (h : breakAfter mark text = some (first, rest)) : first ++ rest = text := by
  induction text generalizing first with
  | nil =>
    unfold breakAfter at h
    split at h <;> simp_all
  | cons c text ih =>
    unfold breakAfter at h
    split at h
    · simp only [Option.some.injEq, Prod.mk.injEq] at h
      rw [← h.1, ← h.2, List.take_append_drop]
    · simp only [Option.map_eq_some_iff, Prod.mk.injEq, Prod.exists] at h
      obtain ⟨first', rest', hBreak, rfl, rfl⟩ := h
      rw [List.cons_append, ih hBreak]

/-! ## Comments and directives -/

def commentOpen : List Char := ['<', '!', '-', '-']

def commentClose : List Char := ['-', '-', '>']

/-- A comment that is never closed goes on to the end. -/
def readComment? (text : List Char) : Option (List Char × List Char) :=
  if commentOpen.isPrefixOf text then
    match breakAfter commentClose (text.drop 4) with
    | some (inner, rest) => some (commentOpen ++ inner, rest)
    | none => some (text, [])
  else none

def opensDirective : List Char → Bool
  | '<' :: '!' :: _ => true
  | '<' :: '?' :: _ => true
  | _ => false

/-! ## End tags -/

def isEndNameChar (c : Char) : Bool := !isBlank c && c ≠ '/' && c ≠ '>'

/-- The name of an end tag and the text after it, given the text after `</`. -/
def readEndTag? (text : List Char) : Option (List Char × List Char) :=
  let text := text.dropWhile isBlank
  let name := text.takeWhile isEndNameChar
  if name.isEmpty then none
  else (breakAfter ['>'] (text.dropWhile isEndNameChar)).map fun parts => (name, parts.2)

/-! ## Start tags -/

/-- The characters of which names of start tags and of attributes are made. -/
def isNameChar (c : Char) : Bool := !isSpacing c && c ≠ '/' && c ≠ '>' && c ≠ '='

def isUnquotedChar (c : Char) : Bool := !isSpacing c && c ≠ '>'

def readValue? (text : List Char) : Option (List Char × List Char) :=
  match text.dropWhile isSpacing with
  | [] => none
  | c :: rest =>
    if c = '"' || c = '\'' then
      (breakAfter [c] rest).map fun parts => (parts.1.dropLast, parts.2)
    else some ((c :: rest).takeWhile isUnquotedChar, (c :: rest).dropWhile isUnquotedChar)

def readAssignment? (text : List Char) : Option (List Char × List Char) :=
  match text.dropWhile isSpacing with
  | '=' :: rest => readValue? rest
  | _ => some ([], text)

structure AttributeText where
  name : List Char
  value : List Char
  deriving DecidableEq, Repr

structure StartTag where
  name : List Char
  attributes : List AttributeText
  selfClosing : Bool
  deriving DecidableEq, Repr

theorem length_dropWhile_le {α : Type} (test : α → Bool) (xs : List α) :
    (xs.dropWhile test).length ≤ xs.length :=
  (List.dropWhile_suffix test).length_le

theorem length_breakAfter_le {mark text first rest : List Char}
    (h : breakAfter mark text = some (first, rest)) : rest.length ≤ text.length := by
  rw [← breakAfter_append h, List.length_append]
  omega

theorem length_readValue_le {text value rest : List Char}
    (h : readValue? text = some (value, rest)) : rest.length ≤ text.length := by
  have hDrop := length_dropWhile_le isSpacing text
  unfold readValue? at h
  split at h
  · cases h
  · rename_i c tail hText
    rw [hText] at hDrop
    split at h
    · simp only [Option.map_eq_some_iff, Prod.mk.injEq, Prod.exists] at h
      obtain ⟨first, after, hBreak, _, rfl⟩ := h
      have := length_breakAfter_le hBreak
      simp only [List.length_cons] at hDrop
      omega
    · simp only [Option.some.injEq, Prod.mk.injEq] at h
      rw [← h.2]
      exact Nat.le_trans (length_dropWhile_le _ _) hDrop

theorem length_readAssignment_le {text value rest : List Char}
    (h : readAssignment? text = some (value, rest)) : rest.length ≤ text.length := by
  have hDrop := length_dropWhile_le isSpacing text
  unfold readAssignment? at h
  split at h
  · rename_i tail hText
    rw [hText, List.length_cons] at hDrop
    have := length_readValue_le h
    omega
  · simp only [Option.some.injEq, Prod.mk.injEq] at h
    exact Nat.le_of_eq (congrArg List.length h.2.symm)

/-- The attributes of a start tag up to its end, given the text after its name. A name may begin
with any character that is neither spacing nor an end of the tag; a slash that does not end the
tag is passed over. -/
def readAttributes? (text : List Char) : Option (List AttributeText × Bool × List Char) :=
  match _ : text.dropWhile isSpacing with
  | [] => none
  | '>' :: rest => some ([], false, rest)
  | '/' :: '>' :: rest => some ([], true, rest)
  | '/' :: rest => readAttributes? rest
  | c :: rest =>
    match _ : readAssignment? (rest.dropWhile isNameChar) with
    | none => none
    | some (value, after) =>
      (readAttributes? after).map fun parts =>
        (⟨c :: rest.takeWhile isNameChar, value⟩ :: parts.1, parts.2)
termination_by text.length
decreasing_by
  · rename_i hText
    have := length_dropWhile_le isSpacing text
    rw [hText] at this
    simp only [List.length_cons] at this
    omega
  · rename_i hText hRead
    have := length_dropWhile_le isSpacing text
    rw [hText] at this
    have := length_readAssignment_le hRead
    have := length_dropWhile_le isNameChar rest
    simp only [List.length_cons] at *
    omega

def readStartTag? (text : List Char) : Option (StartTag × List Char) :=
  match text with
  | [] => none
  | c :: _ =>
    if isLetter c then
      (readAttributes? (text.dropWhile isNameChar)).map fun parts =>
        (⟨text.takeWhile isNameChar, parts.1, parts.2.1⟩, parts.2.2)
    else none

/-! ## Raw text -/

/-- Elements whose content is text up to their own end tag. -/
inductive RawElement where
  | script
  | style
  deriving DecidableEq, Repr

namespace RawElement

def name : RawElement → String
  | script => "script"
  | style => "style"

def ofName? (name : String) : Option RawElement :=
  if name = "script" then some script else if name = "style" then some style else none

end RawElement

/-- The text after `name`, when the text begins with it in any case. -/
def dropAlike : List Char → List Char → Option (List Char)
  | [], text => some text
  | _ :: _, [] => none
  | c :: name, d :: text => if alike c d then dropAlike name text else none

/-- Whether raw text ends here: at `</` and the element's name, followed by a blank or an end. -/
def endsRaw (element : RawElement) : List Char → Bool
  | '<' :: '/' :: text =>
    match dropAlike element.name.toList (text.dropWhile isBlank) with
    | some (c :: _) => isBlank c || c = '/' || c = '>'
    | _ => false
  | _ => false

def splitRaw (element : RawElement) : List Char → List Char × List Char
  | [] => ([], [])
  | c :: rest =>
    if endsRaw element (c :: rest) then ([], c :: rest)
    else
      let parts := splitRaw element rest
      (c :: parts.1, parts.2)

theorem splitRaw_append (element : RawElement) (text : List Char) :
    (splitRaw element text).1 ++ (splitRaw element text).2 = text := by
  induction text with
  | nil => rfl
  | cons c rest ih =>
    unfold splitRaw
    split
    · rfl
    · simp only [List.cons_append, ih]

end Hypertext
