import Hypertext.Text.Lowering
import Hypertext.Token.Tag

/-! # Scanning markup

No markup is refused. A scan is in one of three modes, and each step either moves on in the text
or moves to a `<`. Text is held back until the next token or the end, so that pieces of text that
turn out to belong together are one token; a `<` that opens nothing complete is text.
-/

namespace Hypertext

set_option autoImplicit false

open Text

inductive Mode where
  | data
  | tagOpen
  | raw (element : RawElement)
  deriving DecidableEq, Repr

structure Scan where
  mode : Mode
  /-- The place of the first unread character. -/
  position : Position
  rest : List Char
  /-- Where the text that is held back begins. -/
  heldFrom : Position
  held : List Char
  deriving DecidableEq, Repr

namespace Casing

def tagName (casing : Casing) (name : List Char) : String :=
  String.ofList (if casing.tags then lowerChars name else name)

def attributeName (casing : Casing) (name : List Char) : String :=
  String.ofList (if casing.attributes then lowerChars name else name)

end Casing

namespace Scan

def begin (text : List Char) : Scan := ⟨.data, .start, text, .start, []⟩

def read (s : Scan) (rest : List Char) : List Char := s.rest.take (s.rest.length - rest.length)

/-- Moves on to `rest` and holds back what was read as text. -/
def hold (s : Scan) (rest : List Char) (mode : Mode) : Scan :=
  { mode
    position := s.position.after (s.read rest)
    rest
    heldFrom := if s.held = [] then s.position else s.heldFrom
    held := s.held ++ s.read rest }

def heldTokens (s : Scan) : List Token :=
  if s.held = [] then [] else [⟨s.heldFrom, .text (String.ofList s.held)⟩]

/-- Moves on to `rest` and gives out the held text and the token that was read. -/
def emit (s : Scan) (lexeme : Lexeme) (rest : List Char) (mode : Mode) : List Token × Scan :=
  (s.heldTokens ++ [⟨s.position, lexeme⟩],
    ⟨mode, s.position.after (s.read rest), rest, s.position, []⟩)

/-- The mode after a start tag: raw text after one that opens a raw element. -/
def modeAfter (tag : StartTag) : Mode :=
  if tag.selfClosing then .data
  else
    match RawElement.ofName? (String.ofList (lowerChars tag.name)) with
    | some element => .raw element
    | none => .data

def startLexeme (casing : Casing) (tag : StartTag) : Lexeme :=
  .startTag (casing.tagName tag.name)
    (tag.attributes.map fun a => (casing.attributeName a.name, String.ofList a.value))
    tag.selfClosing

/-- What stands at the beginning of a text, when it is a complete construct: its token, the text
after it, and the mode in which to go on. -/
def construct? (casing : Casing) (text : List Char) : Option (Lexeme × List Char × Mode) :=
  match readComment? text with
  | some (comment, rest) => some (.comment (String.ofList comment), rest, .data)
  | none =>
    if opensDirective text then
      (breakAfter ['>'] text).map fun parts =>
        (.directive (String.ofList parts.1), parts.2, .data)
    else
      match text with
      | '<' :: '/' :: inner =>
        (readEndTag? inner).map fun parts => (.endTag (casing.tagName parts.1), parts.2, .data)
      | _ :: inner =>
        (readStartTag? inner).map fun parts =>
          (startLexeme casing parts.1, parts.2, modeAfter parts.1)
      | [] => none

def step (casing : Casing) (s : Scan) : List Token × Scan :=
  match s.mode with
  | .data =>
    let rest := s.rest.dropWhile (· ≠ '<')
    ([], s.hold rest (if rest = [] then .data else .tagOpen))
  | .tagOpen =>
    match construct? casing s.rest with
    | some (lexeme, rest, mode) => s.emit lexeme rest mode
    | none => ([], s.hold (s.rest.drop 1) .data)
  | .raw element =>
    let rest := (splitRaw element s.rest).2
    ([], s.hold rest (if rest = [] then .data else .tagOpen))

/-! ## Progress -/

/-- Twice what is unread, and one more unless the scan stands at a `<`. -/
def measure (s : Scan) : Nat :=
  2 * s.rest.length + (if s.mode = .tagOpen then 0 else 1)

theorem length_breakAfter_lt {mark text first rest : List Char} (hMark : mark ≠ [])
    (h : breakAfter mark text = some (first, rest)) : rest.length < text.length := by
  induction text generalizing first with
  | nil =>
    unfold breakAfter at h
    split at h
    · rename_i hEmpty
      exact absurd (List.isEmpty_iff.mp hEmpty) hMark
    · cases h
  | cons c text ih =>
    unfold breakAfter at h
    split at h
    · simp only [Option.some.injEq, Prod.mk.injEq] at h
      rw [← h.2, List.length_drop, List.length_cons]
      have := List.length_pos_iff.mpr hMark
      omega
    · simp only [Option.map_eq_some_iff, Prod.mk.injEq, Prod.exists] at h
      obtain ⟨first', rest', hBreak, _, rfl⟩ := h
      have := ih hBreak
      rw [List.length_cons]
      omega

theorem length_readComment_lt {text comment rest : List Char}
    (h : readComment? text = some (comment, rest)) : rest.length < text.length := by
  unfold readComment? at h
  split at h
  · rename_i hOpen
    have hLength : 4 ≤ text.length := (List.isPrefixOf_iff_prefix.mp hOpen).length_le
    split at h
    · rename_i inner after hBreak
      simp only [Option.some.injEq, Prod.mk.injEq] at h
      have := length_breakAfter_le hBreak
      rw [List.length_drop] at this
      rw [← h.2]
      omega
    · simp only [Option.some.injEq, Prod.mk.injEq] at h
      rw [← h.2, List.length_nil]
      omega
  · cases h

theorem length_readEndTag_le {text name rest : List Char}
    (h : readEndTag? text = some (name, rest)) : rest.length ≤ text.length := by
  unfold readEndTag? at h
  dsimp only at h
  split at h
  · cases h
  · simp only [Option.map_eq_some_iff, Prod.mk.injEq, Prod.exists] at h
    obtain ⟨first, after, hBreak, _, rfl⟩ := h
    exact Nat.le_trans (length_breakAfter_le hBreak)
      (Nat.le_trans (length_dropWhile_le _ _) (length_dropWhile_le _ _))

theorem length_readAttributes_le (text : List Char) {attributes : List AttributeText}
    {selfClosing : Bool} {rest : List Char}
    (h : readAttributes? text = some (attributes, selfClosing, rest)) :
    rest.length ≤ text.length := by
  fun_induction readAttributes? text generalizing attributes selfClosing rest with
  | case1 => cases h
  | case2 text tail hText =>
    have := length_dropWhile_le isSpacing text
    simp_all only [Option.some.injEq, Prod.mk.injEq, List.length_cons]
    omega
  | case3 text tail hText =>
    have := length_dropWhile_le isSpacing text
    simp_all only [Option.some.injEq, Prod.mk.injEq, List.length_cons]
    omega
  | case4 text tail _ hText ih =>
    have hDrop := length_dropWhile_le isSpacing text
    rw [hText, List.length_cons] at hDrop
    have := ih h
    omega
  | case5 => cases h
  | case6 text c tail _ _ _ hText value after hRead ih =>
    simp only [Option.map_eq_some_iff, Prod.mk.injEq, Prod.exists] at h
    obtain ⟨attributes', selfClosing', rest', hAttributes, _, _, rfl⟩ := h
    have hDrop := length_dropWhile_le isSpacing text
    rw [hText, List.length_cons] at hDrop
    have := ih hAttributes
    have := length_readAssignment_le hRead
    have := length_dropWhile_le isNameChar tail
    omega

theorem length_readStartTag_le {text rest : List Char} {tag : StartTag}
    (h : readStartTag? text = some (tag, rest)) : rest.length ≤ text.length := by
  unfold readStartTag? at h
  split at h
  · cases h
  · split at h
    · simp only [Option.map_eq_some_iff, Prod.mk.injEq, Prod.exists] at h
      obtain ⟨attributes, selfClosing, after, hRead, _, rfl⟩ := h
      exact Nat.le_trans (length_readAttributes_le _ hRead) (length_dropWhile_le _ _)
    · cases h

theorem length_construct_lt {casing : Casing} {text rest : List Char} {lexeme : Lexeme}
    {mode : Mode} (h : construct? casing text = some (lexeme, rest, mode)) :
    rest.length < text.length := by
  unfold construct? at h
  split at h
  · rename_i comment after hRead
    simp only [Option.some.injEq, Prod.mk.injEq] at h
    rw [← h.2.1]
    exact length_readComment_lt hRead
  · split at h
    · simp only [Option.map_eq_some_iff, Prod.mk.injEq, Prod.exists] at h
      obtain ⟨first, after, hBreak, _, rfl, _⟩ := h
      exact length_breakAfter_lt (by simp) hBreak
    · split at h
      · rename_i inner
        simp only [Option.map_eq_some_iff, Prod.mk.injEq, Prod.exists] at h
        obtain ⟨name, after, hRead, _, rfl, _⟩ := h
        have := length_readEndTag_le hRead
        simp only [List.length_cons]
        omega
      · simp only [Option.map_eq_some_iff, Prod.mk.injEq, Prod.exists] at h
        obtain ⟨tag, after, hRead, _, rfl, _⟩ := h
        have := length_readStartTag_le hRead
        simp only [List.length_cons]
        omega
      · cases h

theorem measure_hold_le (s : Scan) (rest : List Char) (mode : Mode) :
    (s.hold rest mode).measure ≤ 2 * rest.length + 1 := by
  unfold measure hold
  dsimp only
  split <;> omega

theorem measure_hold_lt (s : Scan) {rest : List Char} (hMode : s.mode ≠ .tagOpen)
    (hLength : rest.length ≤ s.rest.length) (hRest : s.rest ≠ []) :
    (s.hold rest (if rest = [] then .data else .tagOpen)).measure < s.measure := by
  have := List.length_pos_iff.mpr hRest
  unfold measure hold
  dsimp only
  rw [if_neg hMode]
  by_cases h : rest = []
  · simp only [h, if_true, List.length_nil]
    split <;> omega
  · simp only [h, if_false, if_true]
    omega

theorem measure_step_lt (casing : Casing) (s : Scan) (hRest : s.rest ≠ []) :
    (s.step casing).2.measure < s.measure := by
  have hPos := List.length_pos_iff.mpr hRest
  unfold step
  split
  · rename_i hMode
    exact s.measure_hold_lt (by simp [hMode]) (length_dropWhile_le _ _) hRest
  · rename_i hMode
    split
    · rename_i lexeme rest mode hConstruct
      have := length_construct_lt hConstruct
      unfold measure emit
      dsimp only
      rw [if_pos hMode]
      split <;> omega
    · have h := s.measure_hold_le (s.rest.drop 1) .data
      rw [List.length_drop] at h
      have hMeasure : s.measure = 2 * s.rest.length := by simp [measure, hMode]
      exact Nat.lt_of_le_of_lt h (by omega)
  · rename_i element hMode
    refine s.measure_hold_lt (by simp [hMode]) ?_ hRest
    have h := congrArg List.length (splitRaw_append element s.rest)
    rw [List.length_append] at h
    omega

def run (casing : Casing) (s : Scan) : List Token :=
  if s.rest = [] then s.heldTokens
  else (s.step casing).1 ++ run casing (s.step casing).2
termination_by s.measure
decreasing_by exact s.measure_step_lt casing (by assumption)

end Scan

namespace Token

def scan (casing : Casing) (text : String) : List Token := (Scan.begin text.toList).run casing

end Token

end Hypertext
