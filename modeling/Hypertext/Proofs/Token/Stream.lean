import Hypertext.Proofs.Token.Spelling

/-! # The stream of lexemes

What a scan gives out depends on its mode, the text it holds back and the text that is unread, not
on positions. The equations below say how the stream goes on from each of them: a scan in data
takes characters into the held text until a construct begins, and raw text up to its end is held
text as well.
-/

namespace Hypertext

set_option autoImplicit false

open Text

/-- The raw text that a mode takes from the front of a text, and what it leaves to data. -/
def Mode.takeRaw : Mode → List Char → List Char × List Char
  | .raw element, text => splitRaw element text
  | _, text => ([], text)

theorem Mode.takeRaw_append (mode : Mode) (text : List Char) :
    (mode.takeRaw text).1 ++ (mode.takeRaw text).2 = text := by
  cases mode with
  | data | tagOpen => rfl
  | raw element => exact splitRaw_append element text

namespace Scan

/-- All lexemes from a mode on, given the held text and the unread text. -/
def stream (casing : Casing) (mode : Mode) (held text : List Char) : List Lexeme :=
  ((⟨mode, .start, text, .start, held⟩ : Scan).run casing).map (·.lexeme)

def heldLexemes (held : List Char) : List Lexeme :=
  if held = [] then [] else [.text (String.ofList held)]

theorem map_heldTokens (s : Scan) : s.heldTokens.map (·.lexeme) = heldLexemes s.held := by
  unfold heldTokens heldLexemes
  split <;> rfl

theorem step_congr (casing : Casing) {s t : Scan} (hMode : s.mode = t.mode)
    (hHeld : s.held = t.held) (hRest : s.rest = t.rest) :
    (s.step casing).1.map (·.lexeme) = (t.step casing).1.map (·.lexeme) ∧
      (s.step casing).2.mode = (t.step casing).2.mode ∧
      (s.step casing).2.held = (t.step casing).2.held ∧
      (s.step casing).2.rest = (t.step casing).2.rest := by
  unfold step
  rw [hMode, hRest]
  split
  · simp only [hold, read, hHeld, hRest, and_self]
  · split
    · simp only [emit, List.map_append, map_heldTokens, hHeld, List.map_cons, List.map_nil,
        and_self]
    · simp only [hold, read, hHeld, hRest, and_self]
  · simp only [hold, read, hHeld, hRest, and_self]

theorem map_run_congr (casing : Casing) (s t : Scan) (hMode : s.mode = t.mode)
    (hHeld : s.held = t.held) (hRest : s.rest = t.rest) :
    (s.run casing).map (·.lexeme) = (t.run casing).map (·.lexeme) := by
  rw [run.eq_def casing s, run.eq_def casing t, hRest]
  split
  · rw [map_heldTokens, map_heldTokens, hHeld]
  · rename_i hNe
    have hMeasure := s.measure_step_lt casing (hRest ▸ hNe)
    obtain ⟨hFirst, hMode', hHeld', hRest'⟩ := step_congr casing hMode hHeld hRest
    rw [List.map_append, List.map_append, hFirst, map_run_congr casing _ _ hMode' hHeld' hRest']
termination_by s.measure

theorem map_run (casing : Casing) (s : Scan) :
    (s.run casing).map (·.lexeme) = stream casing s.mode s.held s.rest :=
  map_run_congr casing s _ rfl rfl rfl

theorem map_scan (casing : Casing) (text : String) :
    (Token.scan casing text).map (·.lexeme) = stream casing .data [] text.toList :=
  map_run casing (.begin text.toList)

/-! ## Equations of the stream -/

theorem stream_nil (casing : Casing) (mode : Mode) (held : List Char) :
    stream casing mode held [] = heldLexemes held := by
  rw [stream, run, if_pos rfl, map_heldTokens]

theorem stream_step (casing : Casing) (mode : Mode) (held : List Char) {text : List Char}
    (hText : text ≠ []) :
    stream casing mode held text =
      ((⟨mode, .start, text, .start, held⟩ : Scan).step casing).1.map (·.lexeme) ++
        stream casing ((⟨mode, .start, text, .start, held⟩ : Scan).step casing).2.mode
          ((⟨mode, .start, text, .start, held⟩ : Scan).step casing).2.held
          ((⟨mode, .start, text, .start, held⟩ : Scan).step casing).2.rest := by
  rw [stream, run, if_neg hText, List.map_append, map_run]

theorem held_hold (mode next : Mode) (held : List Char) {span rest text : List Char}
    (hText : text = span ++ rest) :
    ((⟨mode, .start, text, .start, held⟩ : Scan).hold rest next).held = held ++ span := by
  change held ++ text.take (text.length - rest.length) = held ++ span
  rw [hText, List.length_append, Nat.add_sub_cancel, List.take_left]

theorem stream_data (casing : Casing) (held : List Char) {text : List Char} (hText : text ≠ []) :
    stream casing .data held text =
      stream casing (if text.dropWhile (· ≠ '<') = [] then .data else .tagOpen)
        (held ++ text.takeWhile (· ≠ '<')) (text.dropWhile (· ≠ '<')) := by
  rw [stream_step casing .data held hText]
  simp only [step, List.map_nil, List.nil_append]
  rw [held_hold _ _ _ List.takeWhile_append_dropWhile.symm]
  rfl

theorem stream_data_opening (casing : Casing) (held rest : List Char) :
    stream casing .data held ('<' :: rest) = stream casing .tagOpen held ('<' :: rest) := by
  rw [stream_data casing held (List.cons_ne_nil _ _), List.dropWhile_cons_of_neg (by decide),
    List.takeWhile_cons_of_neg (by decide), List.append_nil, if_neg (List.cons_ne_nil _ _)]

theorem stream_data_char (casing : Casing) (held : List Char) {c : Char} (rest : List Char)
    (hChar : c ≠ '<') :
    stream casing .data held (c :: rest) = stream casing .data (held ++ [c]) rest := by
  have hTest : decide (c ≠ '<') = true := decide_eq_true hChar
  rw [stream_data casing held (List.cons_ne_nil _ _),
    List.dropWhile_cons_of_pos (p := fun d => decide (d ≠ '<')) hTest,
    List.takeWhile_cons_of_pos (p := fun d => decide (d ≠ '<')) hTest]
  cases rest with
  | nil => rfl
  | cons d rest =>
    rw [stream_data casing (held ++ [c]) (List.cons_ne_nil _ _), List.append_assoc]
    rfl

theorem stream_data_literal (casing : Casing) (held : List Char) {rest : List Char}
    (hNone : construct? casing ('<' :: rest) = none) :
    stream casing .data held ('<' :: rest) = stream casing .data (held ++ ['<']) rest := by
  rw [stream_data_opening, stream_step casing .tagOpen held (List.cons_ne_nil _ _)]
  simp only [step, hNone, List.map_nil, List.nil_append]
  rw [held_hold _ _ _ (show '<' :: rest = ['<'] ++ List.drop 1 ('<' :: rest) from rfl)]
  rfl

theorem stream_data_construct (casing : Casing) (held : List Char) {tail rest : List Char}
    {lexeme : Lexeme} {mode : Mode}
    (hSome : construct? casing ('<' :: tail) = some (lexeme, rest, mode)) :
    stream casing .data held ('<' :: tail) =
      heldLexemes held ++ lexeme :: stream casing mode [] rest := by
  rw [stream_data_opening, stream_step casing .tagOpen held (List.cons_ne_nil _ _)]
  simp only [step, hSome, emit, List.map_append, map_heldTokens, List.map_cons, List.map_nil,
    List.append_assoc, List.singleton_append]

theorem stream_raw (casing : Casing) (element : RawElement) (held text : List Char) :
    stream casing (.raw element) held text =
      stream casing .data (held ++ (splitRaw element text).1) (splitRaw element text).2 := by
  cases text with
  | nil => rw [splitRaw, stream_nil, stream_nil, List.append_nil]
  | cons c rest =>
    rw [stream_step casing (.raw element) held (List.cons_ne_nil _ _)]
    simp only [step, List.map_nil, List.nil_append]
    rw [held_hold _ _ _ (splitRaw_append element (c :: rest)).symm]
    change stream casing (if (splitRaw element (c :: rest)).2 = [] then .data else .tagOpen) _
      (splitRaw element (c :: rest)).2 = _
    split
    · rfl
    · rename_i hRest
      obtain ⟨tail, hTail⟩ := opens_splitRaw element (c :: rest) hRest
      rw [hTail, stream_data_opening]

/-! ## Where a construct may begin -/

/-- Text ends in front of `text`: nothing is left, or a construct begins. -/
def Opens (casing : Casing) (text : List Char) : Prop :=
  text = [] ∨ ∃ tail lexeme rest mode, text = '<' :: tail ∧
    construct? casing text = some (lexeme, rest, mode)

theorem stream_opens {casing : Casing} {text : List Char} (h : Opens casing text)
    (held : List Char) :
    stream casing .data held text = heldLexemes held ++ stream casing .data [] text := by
  rcases h with rfl | ⟨tail, lexeme, rest, mode, rfl, hSome⟩
  · rw [stream_nil, stream_nil]
    exact (List.append_nil _).symm
  · rw [stream_data_construct casing held hSome, stream_data_construct casing [] hSome]
    rfl

end Scan

end Hypertext
