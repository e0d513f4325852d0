import Hypertext.Proofs.Token.Progress

/-! # Places of tokens

The place of a token is found by its offset alone, and counting the line breaks before it gives the same
place. Reading on always comes to a later place, so places are in the order of the tokens.
-/

namespace Hypertext

set_option autoImplicit false

namespace Position

def Before (p q : Position) : Prop := p.line < q.line ∨ p.line = q.line ∧ p.column < q.column

theorem before_after (p : Position) {text : List Char} (hText : text ≠ []) : p.Before (p.after text) := by
  have hLine := p.after_line text
  by_cases hBreak : '\n' ∈ text
  · have hCount := List.count_pos_iff.mpr hBreak
    exact .inl (by omega)
  · have hColumn := p.after_column hBreak
    have hLength := List.length_pos_iff.mpr hText
    rw [List.count_eq_zero_of_not_mem hBreak] at hLine
    exact .inr ⟨hLine.symm, by omega⟩

def offsetAt? (text : List Char) (line column : Nat) : Option Nat :=
  (lineStarts text)[line - 1]?.map (· + (column - 1))

/-- The place of an offset of a text: found without a fault, counted from the text, and one from which
the offset can be told. -/
structure IsOf (text : List Char) (offset : Nat) (p : Position) : Prop where
  offset_eq : p.offset = offset
  found : locate (lineStarts text) offset = .ok p
  line_eq : p.line = 1 + (text.take offset).count '\n'
  column_eq : ∃ start, LineBegins text offset start ∧ p.column = offset - start + 1
  first_line_le : 1 ≤ p.line
  first_column_le : 1 ≤ p.column
  recovered : offsetAt? text p.line p.column = some offset

theorem isOf_after (text : List Char) {offset : Nat} (hOffset : offset ≤ text.length) :
    IsOf text offset (start.after (text.take offset)) := by
  obtain ⟨begins, hStart, hLine, -⟩ := exists_line text offset
  have hLineNumber : (start.after (text.take offset)).line = 1 + (text.take offset).count '\n' :=
    start.after_line _
  have hColumn := hLine.column_eq hOffset
  have hLe := hLine.le
  refine ⟨?_, locate_eq text hOffset, hLineNumber, ⟨begins, hLine, hColumn⟩, by omega, by omega, ?_⟩
  · rw [after_offset, List.length_take_of_le hOffset]
    exact Nat.zero_add offset
  · rw [offsetAt?, hLineNumber, Nat.add_sub_cancel_left, hStart, hColumn, Nat.add_sub_cancel]
    exact congrArg some (Nat.add_sub_cancel' hLe)

theorem before_of_lt {text : List Char} {first second : Nat} (hLess : first < second)
    (hSecond : second ≤ text.length) :
    (start.after (text.take first)).Before (start.after (text.take second)) := by
  rw [after_take _ text (Nat.le_of_lt hLess)]
  refine before_after _ (List.length_pos_iff.mp ?_)
  rw [List.length_take, List.length_drop]
  omega

end Position

namespace Tiling

theorem position_eq {casing : Casing} {p : Position} {text : List Char} {tokens : List Token}
    (h : Tiling casing p text tokens) :
    ∀ token ∈ tokens, token.position = p.after (text.take (token.position.offset - p.offset)) := by
  induction h with
  | nil p =>
    intro token hToken
    cases hToken
  | @cons p lexeme span rest tokens hSpan _ _ hRest ih =>
    intro token hToken
    rcases List.mem_cons.mp hToken with rfl | hMem
    · rw [Nat.sub_self, List.take_zero]
      rfl
    · have hBehind := (hRest.offset_bounds token hMem).1
      rw [Position.after_offset] at hBehind
      have hOffset : token.position.offset - p.offset =
          span.length + (token.position.offset - (p.after span).offset) := by
        rw [Position.after_offset]
        omega
      rw [hOffset, List.take_length_add_append, Position.after_append]
      exact ih token hMem

end Tiling

namespace Token

/-- The tokens of a text begin at the places of their offsets, one place before the other. -/
theorem scan_places (casing : Casing) (markup : String) :
    ∃ tokens, Cursor.scan casing markup = .ok tokens ∧
      (∀ token ∈ tokens, token.position.IsOf markup.toList token.position.offset) ∧
      tokens.Pairwise fun first second => first.position.Before second.position := by
  have hTiling := tiling_scan casing markup
  have hPlace (token : Token) (hToken : token ∈ Token.scan casing markup) :
      token.position.offset ≤ markup.toList.length ∧
        token.position = Position.start.after (markup.toList.take token.position.offset) := by
    have hBounds := hTiling.offset_bounds token hToken
    have hPosition := hTiling.position_eq token hToken
    rw [show Position.start.offset = 0 from rfl] at hBounds hPosition
    rw [Nat.sub_zero] at hPosition
    exact ⟨by omega, hPosition⟩
  refine ⟨_, Cursor.scan_eq casing markup, ?_, ?_⟩
  · intro token hToken
    obtain ⟨hOffset, hPosition⟩ := hPlace token hToken
    have hIsOf := Position.isOf_after markup.toList hOffset
    rwa [← hPosition] at hIsOf
  · refine hTiling.pairwise_offset.imp_of_mem ?_
    intro first second hFirst hSecond hLess
    obtain ⟨hOffset, hPosition⟩ := hPlace second hSecond
    rw [(hPlace first hFirst).2, hPosition]
    exact Position.before_of_lt hLess hOffset

end Token

end Hypertext
