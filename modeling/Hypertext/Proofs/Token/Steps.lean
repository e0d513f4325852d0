import Hypertext.Proofs.Token.Cursor
import Hypertext.Proofs.Token.Lines
import Hypertext.Proofs.Token.Spelling
import Hypertext.Proofs.Token.Tiling

/-! # Steps of a cursor

A cursor keeps up with a scan of its text: it stands at what the scan has left, in the same mode and
at the same place, and holds back the same text. Its steps are no faults for that reason, and their
number is bounded by what bounds the steps of a scan.
-/

namespace Hypertext

set_option autoImplicit false

open Text

/-! ## Marks -/

theorem breakAfter_char (c : Char) (text : List Char) :
    breakAfter [c] text =
      match text.dropWhile (· ≠ c) with
      | [] => none
      | _ :: after => some (text.takeWhile (· ≠ c) ++ [c], after) := by
  induction text with
  | nil => rfl
  | cons d rest ih =>
    by_cases hMark : d = c
    · subst hMark
      simp [breakAfter]
    · have hOther : ¬[c].isPrefixOf (d :: rest) = true := by
        simpa [List.isPrefixOf] using fun hSame => hMark hSame.symm
      rw [breakAfter, if_neg hOther, ih, List.dropWhile_cons_of_pos (by simpa using hMark),
        List.takeWhile_cons_of_pos (by simpa using hMark)]
      cases rest.dropWhile (· ≠ c) <;> rfl

namespace Cursor

variable {text : Array Char} {offset : Nat} {rest span mark first after : List Char}

namespace Leaves

theorem find?_eq_some (h : Leaves text offset rest) (hBreak : breakAfter mark rest = some (first, after)) :
    Cursor.find? text mark offset = some (offset + first.length - mark.length) := by
  rw [h.find?, hBreak]
  rfl

theorem find?_eq_none (h : Leaves text offset rest) (hBreak : breakAfter mark rest = none) :
    Cursor.find? text mark offset = none := by
  rw [h.find?, hBreak]
  rfl

theorem behind_mark (h : Leaves text offset rest) (hBreak : breakAfter mark rest = some (first, after)) :
    offset + first.length - mark.length + mark.length = text.size - after.length ∧
      Leaves text (text.size - after.length) after ∧
      Cursor.slice text offset (text.size - after.length) = first := by
  obtain ⟨before, hFirst⟩ := breakAfter_eq_append hBreak
  have hLength := congrArg List.length hFirst
  rw [List.length_append] at hLength
  rw [← breakAfter_append hBreak] at h
  have hAfter := h.append
  rw [hAfter.offset_eq]
  exact ⟨by omega, hAfter, h.slice hAfter⟩

end Leaves

/-! ## What begins with a `<` -/

section Tag

variable {starts : Array Nat} {casing : Casing} {s : Cursor} {tail inner : List Char}

/-- A construct that was found is given out and the cursor goes on behind it; otherwise the `<` is
taken for text. -/
def take (text : Array Char) (starts : Array Nat) (s : Cursor) :
    Option (Lexeme × List Char × Mode) → Outcome Cursor
  | none => .ok (s.literal s.offset)
  | some (lexeme, rest, mode) => emit text starts s lexeme s.offset (text.size - rest.length) mode

theorem readTag_comment (h : Leaves text s.offset (commentOpen ++ inner)) :
    readTag text starts casing s =
      take text starts s (Scan.construct? casing (commentOpen ++ inner)) := by
  have hOpen : startsWith text commentOpen s.offset = true := by
    rw [h.startsWith]
    exact List.isPrefixOf_iff_prefix.mpr (List.prefix_append _ _)
  have hInner := h.append
  rw [readTag, if_pos hOpen]
  cases hBreak : breakAfter commentClose inner with
  | none =>
    have hConstruct : Scan.construct? casing (commentOpen ++ inner) =
        some (.comment (String.ofList (commentOpen ++ inner)), [], .data) := by
      simp only [Scan.construct?, readComment?, commentOpen, List.cons_append, List.nil_append] at *
      simp [hBreak]
    have hSlice : slice text s.offset text.size = commentOpen ++ inner := by
      have hAll : Leaves text s.offset (commentOpen ++ inner ++ []) := by rwa [List.append_nil]
      have hEnd : Leaves text text.size [] := by
        rw [← h.length]
        exact hAll.append
      exact hAll.slice hEnd
    rw [hInner.find?_eq_none hBreak, hConstruct]
    dsimp only
    rw [hSlice]
    rfl
  | some parts =>
    obtain ⟨first, after⟩ := parts
    have hConstruct : Scan.construct? casing (commentOpen ++ inner) =
        some (.comment (String.ofList (commentOpen ++ first)), after, .data) := by
      simp only [Scan.construct?, readComment?, commentOpen, List.cons_append, List.nil_append] at *
      simp [hBreak]
    obtain ⟨hClose, hAfter, -⟩ := hInner.behind_mark hBreak
    have hSlice : slice text s.offset (text.size - after.length) = commentOpen ++ first := by
      refine Leaves.slice ?_ hAfter
      rwa [List.append_assoc, breakAfter_append hBreak]
    rw [hInner.find?_eq_some hBreak, hConstruct]
    dsimp only
    rw [hClose, hSlice]
    rfl

theorem not_startsWith_commentOpen (h : Leaves text offset rest) (hComment : readComment? rest = none) :
    ¬startsWith text commentOpen offset = true := by
  rw [h.startsWith]
  intro hOpen
  rw [readComment?, if_pos hOpen] at hComment
  split at hComment <;> cases hComment

theorem readTag_directive (h : Leaves text s.offset rest) (hComment : readComment? rest = none)
    (hOpen : opensDirective rest = true) :
    readTag text starts casing s = take text starts s (Scan.construct? casing rest) := by
  have hStarts :
      (startsWith text ['<', '!'] s.offset || startsWith text ['<', '?'] s.offset) = true := by
    rw [h.startsWith, h.startsWith]
    unfold opensDirective at hOpen
    split at hOpen
    · simp
    · simp
    · cases hOpen
  have hConstruct : Scan.construct? casing rest =
      (breakAfter ['>'] rest).map fun parts =>
        (.directive (String.ofList parts.1), parts.2, .data) := by
    simp only [Scan.construct?, hComment, hOpen, if_true]
  rw [readTag, if_neg (not_startsWith_commentOpen h hComment), if_pos hStarts, hConstruct]
  cases hBreak : breakAfter ['>'] rest with
  | none =>
    rw [h.find?_eq_none hBreak]
    rfl
  | some parts =>
    obtain ⟨first, after⟩ := parts
    obtain ⟨hClose, -, hSlice⟩ := h.behind_mark hBreak
    rw [List.length_singleton] at hClose
    rw [h.find?_eq_some hBreak]
    dsimp only [Option.map_some, take]
    rw [List.length_singleton, hClose, hSlice]

theorem readTag_element (h : Leaves text s.offset ('<' :: tail))
    (hComment : readComment? ('<' :: tail) = none) (hOpen : opensDirective ('<' :: tail) = false) :
    readTag text starts casing s = take text starts s (Scan.construct? casing ('<' :: tail)) := by
  have hNotDirective :
      ¬(startsWith text ['<', '!'] s.offset || startsWith text ['<', '?'] s.offset) = true := by
    rw [h.startsWith, h.startsWith]
    unfold opensDirective at hOpen
    split at hOpen
    · cases hOpen
    · cases hOpen
    · rename_i hBang hQuery
      cases tail with
      | nil => decide
      | cons c tail =>
        have hBang : c ≠ '!' := fun hChar => hBang tail (by rw [hChar])
        have hQuery : c ≠ '?' := fun hChar => hQuery tail (by rw [hChar])
        simp [List.isPrefixOf, hBang.symm, hQuery.symm]
  rw [readTag, if_neg (not_startsWith_commentOpen h hComment), if_neg hNotDirective, h.startsWith]
  cases tail with
  | nil =>
    rw [if_neg (by decide), if_neg h.tail.not_lt]
    rfl
  | cons c tail =>
    by_cases hSlash : c = '/'
    · subst hSlash
      rw [if_pos (by simp), matchEndTag?, h.tail.tail.unread_eq, Scan.construct?_slash]
      cases readEndTag? tail <;> rfl
    · have hOther : ¬['<', '/'].isPrefixOf ('<' :: c :: tail) = true := by
        simp [List.isPrefixOf, Ne.symm hSlash]
      rw [if_neg hOther, h.tail.next_eq]
      by_cases hLetter : isLetter c = true
      · rw [if_pos hLetter, h.readStartTag hLetter, Outcome.ok_bind,
          Scan.construct?_letter casing tail hLetter]
        cases readStartTag? (c :: tail) <;> rfl
      · have hNone : Scan.construct? casing ('<' :: c :: tail) = none := by
          refine Scan.construct?_eq_none casing ?_
          rintro d ⟨⟩
          refine ⟨eq_false_of_ne_true hLetter, hSlash, ?_, ?_⟩
          · rintro rfl
            cases hOpen
          · rintro rfl
            cases hOpen
        rw [if_neg hLetter, hNone]
        rfl

theorem readTag_eq (h : Leaves text s.offset ('<' :: tail)) :
    readTag text starts casing s = take text starts s (Scan.construct? casing ('<' :: tail)) := by
  cases hComment : readComment? ('<' :: tail) with
  | some parts =>
    have hPrefix : commentOpen <+: '<' :: tail := by
      rw [← List.isPrefixOf_iff_prefix]
      refine Classical.byContradiction fun hOpen => ?_
      rw [readComment?, if_neg hOpen] at hComment
      cases hComment
    obtain ⟨inner, hInner⟩ := hPrefix
    rw [← hInner] at h ⊢
    exact readTag_comment h
  | none =>
    cases hOpen : opensDirective ('<' :: tail) with
    | true => exact readTag_directive h hComment hOpen
    | false => exact readTag_element h hComment hOpen

end Tag

/-! ## Keeping up with a scan -/

def placeOf (text : Array Char) (offset : Nat) : Position :=
  Position.start.after (text.toList.take offset)

theorem Leaves.placeOf_append (h : Leaves text offset (span ++ rest)) :
    placeOf text (offset + span.length) = (placeOf text offset).after span := by
  have hUnread := h.unread_eq
  rw [unread] at hUnread
  rw [placeOf, List.take_add, hUnread, List.take_left, Position.after_append]
  rfl

theorem Leaves.locate_eq (h : Leaves text offset rest) :
    Position.locate (lineStarts text.toList) offset = .ok (placeOf text offset) :=
  Position.locate_eq text.toList h.le

/-- What is held back from an offset on is what a scan holds back. -/
inductive Holds (text : Array Char) (t : Scan) : Option Nat → Prop where
  | nothing (hHeld : t.held = []) : Holds text t none
  | since {start : Nat} (hHeld : t.held ≠ []) (hLeaves : Leaves text start (t.held ++ t.rest))
      (hPosition : t.heldFrom = placeOf text start) : Holds text t (some start)

/-- The cursor stands where a scan of the text stands. -/
structure Follows (text : Array Char) (s : Cursor) (t : Scan) : Prop where
  mode_eq : s.mode = t.mode
  leaves : Leaves text s.offset t.rest
  position_eq : t.position = placeOf text s.offset
  holds : Holds text t s.heldFrom

theorem follows_begin (text : List Char) : Follows text.toArray begin (.begin text) where
  mode_eq := rfl
  leaves := ⟨Nat.zero_le _, rfl⟩
  position_eq := rfl
  holds := .nothing rfl

namespace Holds

variable {t : Scan} {heldFrom : Option Nat}

theorem hold (h : Holds text t heldFrom) (hLeaves : Leaves text offset t.rest)
    (hPosition : t.position = placeOf text offset) (hRest : t.rest = span ++ rest)
    (hSpan : span ≠ []) (mode : Mode) :
    Holds text (t.hold rest mode) (some (heldFrom.getD offset)) := by
  have hHeld : (t.hold rest mode).held = t.held ++ span := by
    rw [← t.read_append hRest]
    rfl
  have hSome : (t.hold rest mode).held ≠ [] := by
    rw [hHeld]
    exact List.append_ne_nil_of_right_ne_nil _ hSpan
  cases h with
  | nothing hNone =>
    refine .since hSome ?_ ?_
    · rw [hHeld, hNone, List.nil_append]
      exact hRest ▸ hLeaves
    · exact (if_pos hNone).trans hPosition
  | since hBefore hStart hFrom =>
    refine .since hSome ?_ ?_
    · rw [hHeld, List.append_assoc]
      exact hRest ▸ hStart
    · exact (if_neg hBefore).trans hFrom

theorem stay (h : Holds text t heldFrom) (mode : Mode) : Holds text (t.hold t.rest mode) heldFrom := by
  have hHeld : (t.hold t.rest mode).held = t.held := by
    change t.held ++ t.read t.rest = t.held
    rw [t.read_append (List.nil_append t.rest).symm, List.append_nil]
  cases h with
  | nothing hNone => exact .nothing (hHeld.trans hNone)
  | since hBefore hStart hFrom =>
    refine .since (hHeld ▸ hBefore) ?_ ?_
    · rw [hHeld]
      exact hStart
    · exact (if_neg hBefore).trans hFrom

end Holds

def moveTo (s : Cursor) (next : Nat) (mode : Mode) : Cursor :=
  { (if s.offset < next then s.mark s.offset else s) with offset := next, mode }

theorem moveTo_heldFrom (s : Cursor) (next : Nat) (mode : Mode) :
    (s.moveTo next mode).heldFrom =
      if s.offset < next then some (s.heldFrom.getD s.offset) else s.heldFrom := by
  unfold moveTo
  dsimp only
  split <;> rfl

theorem moveTo_tokens (s : Cursor) (next : Nat) (mode : Mode) :
    (s.moveTo next mode).tokens = s.tokens := by
  unfold moveTo
  dsimp only
  split <;> rfl

theorem literal_eq (s : Cursor) : s.literal s.offset = s.moveTo (s.offset + 1) .data := by
  unfold moveTo
  rw [if_pos (Nat.lt_succ_self _)]
  rfl

namespace Follows

variable {s : Cursor} {t : Scan}

theorem leaves_eq (h : Follows text s t) (hRest : t.rest = rest) : Leaves text s.offset rest :=
  hRest ▸ h.leaves

theorem position_read (h : Follows text s t) (hRest : t.rest = span ++ rest) :
    t.position.after (t.read rest) = placeOf text (s.offset + span.length) := by
  rw [t.read_append hRest, h.position_eq]
  exact (h.leaves_eq hRest).placeOf_append.symm

theorem moveTo (h : Follows text s t) (hRest : t.rest = span ++ rest) (mode : Mode) :
    Follows text (s.moveTo (s.offset + span.length) mode) (t.hold rest mode) := by
  refine ⟨rfl, (h.leaves_eq hRest).append, h.position_read hRest, ?_⟩
  rw [moveTo_heldFrom]
  by_cases hSpan : span = []
  · rw [hSpan, List.nil_append] at hRest
    rw [hSpan, List.length_nil, Nat.add_zero, if_neg (Nat.lt_irrefl _), ← hRest]
    exact h.holds.stay mode
  · have hPos := List.length_pos_iff.mpr hSpan
    rw [if_pos (Nat.lt_add_of_pos_right hPos)]
    exact h.holds.hold h.leaves h.position_eq hRest hSpan mode

theorem flush_eq (h : Follows text s t) :
    flush text (lineStarts text.toList) s s.offset =
      .ok { s with heldFrom := none, tokens := s.tokens ++ t.heldTokens.toArray } := by
  obtain ⟨-, hLeaves, -, hHolds⟩ := h
  obtain ⟨mode, offset, heldFrom, tokens⟩ := s
  dsimp only at hLeaves hHolds
  cases hHolds with
  | nothing hNone =>
    rw [Scan.heldTokens, if_pos hNone]
    simp [flush]
  | @since start hSome hStart hPosition =>
    have hLess : start < offset := by
      have := hStart.length
      have := hLeaves.length
      have := List.length_pos_iff.mpr hSome
      rw [List.length_append] at *
      omega
    rw [Scan.heldTokens, if_neg hSome, hPosition]
    simp only [flush, if_pos hLess, hStart.locate_eq, Outcome.ok_bind, hStart.slice hLeaves]
    simp [pure, Except.pure]

theorem emit_eq (h : Follows text s t) (lexeme : Lexeme) (rest : List Char) (mode : Mode) (next : Nat) :
    emit text (lineStarts text.toList) s lexeme s.offset next mode =
      .ok ⟨mode, next, none, s.tokens ++ (t.emit lexeme rest mode).1.toArray⟩ := by
  rw [Cursor.emit, h.flush_eq, Outcome.ok_bind, h.leaves.locate_eq, Outcome.ok_bind, ← h.position_eq]
  simp [Scan.emit, pure, Except.pure]

theorem emit (h : Follows text s t) (hRest : t.rest = span ++ rest) (lexeme : Lexeme) (mode : Mode)
    (tokens : Array Token) :
    Follows text ⟨mode, s.offset + span.length, none, tokens⟩ (t.emit lexeme rest mode).2 :=
  ⟨rfl, (h.leaves_eq hRest).append, h.position_read hRest, .nothing rfl⟩

/-! ## Steps -/

/-- A cursor comes from one that follows a scan to one that follows its next step. -/
structure Advances (text : Array Char) (s next : Cursor) (step : List Token × Scan) : Prop where
  follows : Follows text next step.2
  tokens_eq : next.tokens = s.tokens ++ step.1.toArray

theorem moves (h : Follows text s t) (hRest : t.rest = span ++ rest) (mode : Mode) :
    Advances text s (s.moveTo (s.offset + span.length) mode) ([], t.hold rest mode) :=
  ⟨h.moveTo hRest mode, by rw [moveTo_tokens, Array.append_empty]⟩

theorem readData (h : Follows text s t) (hMode : s.mode = .data) (hLess : s.offset < text.size) :
    readData text s = s.moveTo (s.offset + (t.rest.takeWhile (· ≠ '<')).length)
      (if t.rest.dropWhile (· ≠ '<') = [] then .data else .tagOpen) := by
  have hSplit := List.takeWhile_append_dropWhile (p := (· ≠ '<')) (l := t.rest)
  have hLength := congrArg List.length hSplit
  rw [List.length_append] at hLength
  have hSize := h.leaves.length
  rw [Cursor.readData, h.leaves.find?, breakAfter_char]
  cases hDrop : t.rest.dropWhile (· ≠ '<') with
  | nil =>
    rw [hDrop, List.length_nil] at hLength
    rw [if_pos rfl, Cursor.moveTo, if_pos (by omega), show s.offset + _ = text.size by omega]
    exact congrArg (fun mode => ({ s.mark s.offset with offset := text.size, mode } : Cursor)) hMode
  | cons c after =>
    rw [if_neg (List.cons_ne_nil c after)]
    simp only [Option.map_some, List.length_append, List.length_singleton, ← Nat.add_assoc,
      Nat.add_sub_cancel]
    rfl

theorem readRaw (h : Follows text s t) (element : RawElement) :
    readRaw text element s = s.moveTo (s.offset + (splitRaw element t.rest).1.length)
      (if (splitRaw element t.rest).2 = [] then .data else .tagOpen) := by
  have hLength := congrArg List.length (splitRaw_append element t.rest)
  rw [List.length_append] at hLength
  have hSize := h.leaves.length
  rw [Cursor.readRaw, searchEnd?, h.leaves.unread_eq]
  by_cases hEnd : (splitRaw element t.rest).2 = []
  · rw [hEnd, List.length_nil] at hLength
    rw [if_pos hEnd, if_pos hEnd, show s.offset + _ = text.size by omega]
    rfl
  · rw [if_neg hEnd, if_neg hEnd]
    rfl

theorem step (h : Follows text s t) (hSound : t.Sound) (hLess : s.offset < text.size)
    (casing : Casing) :
    ∃ next, step text (lineStarts text.toList) casing s = .ok next ∧
      Advances text s next (t.step casing) := by
  cases hMode : t.mode with
  | data =>
    have hCursor := h.mode_eq.trans hMode
    rw [Cursor.step, hCursor, Scan.step, hMode]
    exact ⟨_, congrArg Except.ok (h.readData hCursor hLess),
      h.moves List.takeWhile_append_dropWhile.symm _⟩
  | raw element =>
    rw [Cursor.step, h.mode_eq, hMode, Scan.step, hMode]
    exact ⟨_, congrArg Except.ok (h.readRaw element),
      h.moves (splitRaw_append element t.rest).symm _⟩
  | tagOpen =>
    obtain ⟨tail, hTail⟩ := hSound.opens hMode
    rw [Cursor.step, h.mode_eq, hMode, Scan.step, hMode]
    dsimp only
    rw [readTag_eq (h.leaves_eq hTail), ← hTail]
    cases hConstruct : Scan.construct? casing t.rest with
    | none =>
      refine ⟨_, rfl, ?_⟩
      have hMoves := h.moves (List.take_append_drop 1 t.rest).symm .data
      rw [hTail] at hMoves ⊢
      rw [literal_eq]
      exact hMoves
    | some found =>
      obtain ⟨lexeme, rest, mode⟩ := found
      rw [hTail] at hConstruct
      obtain ⟨span, hText, -⟩ := Scan.spells_construct hConstruct
      have hRest : t.rest = span ++ rest := hTail.trans hText
      refine ⟨_, h.emit_eq lexeme rest mode _, ?_, rfl⟩
      rw [(h.leaves_eq hRest).append.offset_eq]
      exact h.emit hRest lexeme mode _

end Follows

end Cursor

end Hypertext
