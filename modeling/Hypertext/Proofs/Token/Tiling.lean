import Hypertext.Proofs.Token.Readers
import Mathlib.Data.List.Forall2

/-! # Tokens tile their text

Scanning loses nothing. The tokens of a text stand one behind the other from its beginning to its
end, and each of them can be seen in the stretch of the text that it covers. Held text is the
reason for the invariant of a scan: what is held back lies directly in front of what is unread.
-/

namespace Hypertext

set_option autoImplicit false

open Text

theorem Casing.tagName_ne_empty (casing : Casing) {name : List Char} (h : name ≠ []) :
    casing.tagName name ≠ "" := by
  intro hEmpty
  have hList : (if casing.tags then lowerChars name else name) = [] := by
    have hChars := congrArg String.toList hEmpty
    rwa [tagName, String.toList_ofList] at hChars
  split at hList
  · exact lowerAfter_ne_nil [] h hList
  · exact h hList

/-- What the stretch of text that a token covers looks like. The name of a tag is the name that
stands at its front, up to the casing. -/
def Lexeme.Spells (casing : Casing) (span : List Char) : Lexeme → Prop
  | .text s => s.toList = span
  | .comment s => s.toList = span
  | .directive s => s.toList = span
  | .startTag name _ _ => name ≠ "" ∧ ∃ source after, span = '<' :: (source ++ after) ∧
      (∀ c ∈ source.head?, isLetter c = true) ∧ TagText isNameChar source after ∧
      name = casing.tagName source
  | .endTag name => name ≠ "" ∧ ∃ blanks source after,
      span = '<' :: '/' :: (blanks ++ source ++ after) ∧ (∀ c ∈ blanks, isBlank c = true) ∧
      TagText isEndNameChar source after ∧ name = casing.tagName source

/-- Whether a second token may follow a first one: texts that meet are one. -/
def Token.MayPrecede (first second : Token) : Prop :=
  ¬(first.lexeme.kind = .text ∧ second.lexeme.kind = .text)

/-- `tokens` cover a text that begins at a position, one behind the other. -/
inductive Tiling (casing : Casing) : Position → List Char → List Token → Prop where
  | nil (p : Position) : Tiling casing p [] []
  | cons {p : Position} {lexeme : Lexeme} {span rest : List Char} {tokens : List Token}
      (hSpan : span ≠ []) (hSpells : lexeme.Spells casing span)
      (hApart : ∀ next ∈ tokens.head?, Token.MayPrecede ⟨p, lexeme⟩ next)
      (hRest : Tiling casing (p.after span) rest tokens) :
      Tiling casing p (span ++ rest) (⟨p, lexeme⟩ :: tokens)

namespace Scan

theorem spells_construct {casing : Casing} {tail rest : List Char} {lexeme : Lexeme} {mode : Mode}
    (h : construct? casing ('<' :: tail) = some (lexeme, rest, mode)) :
    ∃ span, '<' :: tail = span ++ rest ∧ span ≠ [] ∧ lexeme.kind ≠ .text ∧
      lexeme.Spells casing span := by
  have hShort := length_construct_lt h
  have hNe {span : List Char} (hText : '<' :: tail = span ++ rest) : span ≠ [] := by
    rintro rfl
    rw [hText, List.nil_append] at hShort
    exact Nat.lt_irrefl _ hShort
  unfold construct? at h
  split at h
  · rename_i comment after hRead
    simp only [Option.some.injEq, Prod.mk.injEq] at h
    obtain ⟨rfl, rfl, -⟩ := h
    have hText := (readComment?_append hRead).symm
    exact ⟨comment, hText, hNe hText, by rintro ⟨⟩, String.toList_ofList⟩
  · split at h
    · simp only [Option.map_eq_some_iff, Prod.mk.injEq, Prod.exists] at h
      obtain ⟨first, after, hBreak, rfl, rfl, -⟩ := h
      have hText := (breakAfter_append hBreak).symm
      exact ⟨first, hText, hNe hText, by rintro ⟨⟩, String.toList_ofList⟩
    · split at h
      · rename_i inner hText
        simp only [Option.map_eq_some_iff, Prod.mk.injEq, Prod.exists] at h
        obtain ⟨name, after, hRead, rfl, rfl, -⟩ := h
        obtain ⟨blanks, ending, hInner, hBlanks, hTag⟩ := readEndTag?_eq_some hRead
        have hSpan : '<' :: tail = '<' :: '/' :: (blanks ++ name ++ ending) ++ after := by
          rw [hText, hInner]
          rfl
        exact ⟨_, hSpan, List.cons_ne_nil _ _, by rintro ⟨⟩, casing.tagName_ne_empty hTag.name_ne_nil,
          blanks, name, ending, rfl, hBlanks, hTag, rfl⟩
      · rename_i c inner _ hText
        simp only [Option.map_eq_some_iff, Prod.mk.injEq, Prod.exists] at h
        obtain ⟨tag, after, hRead, rfl, rfl, -⟩ := h
        obtain ⟨ending, hInner, hLetter, hTag⟩ := readStartTag?_eq_some hRead
        have hSpan : '<' :: tail = '<' :: (tag.name ++ ending) ++ after := by
          rw [(List.cons.inj hText).2, hInner]
          rfl
        exact ⟨_, hSpan, List.cons_ne_nil _ _, by rintro ⟨⟩, casing.tagName_ne_empty hTag.name_ne_nil,
          tag.name, ending, rfl, hLetter, hTag, rfl⟩
      · cases h

/-! ## The invariant of a scan -/

def origin (s : Scan) : Position := if s.held = [] then s.position else s.heldFrom

def pending (s : Scan) : List Char := s.held ++ s.rest

/-- Held text reaches up to what is unread, and a tag is only expected at a `<`. -/
structure Sound (s : Scan) : Prop where
  held_reaches : s.origin.after s.held = s.position
  opens : s.mode = .tagOpen → ∃ tail, s.rest = '<' :: tail

theorem sound_begin (text : List Char) : (begin text).Sound where
  held_reaches := rfl
  opens h := by cases h

theorem read_append (s : Scan) {span rest : List Char} (h : s.rest = span ++ rest) :
    s.read rest = span := by
  rw [read, h, List.length_append, Nat.add_sub_cancel, List.take_left]

theorem origin_hold (s : Scan) {span rest : List Char} (mode : Mode) (h : s.rest = span ++ rest)
    (hSpan : span ≠ []) : (s.hold rest mode).origin = s.origin := by
  have hHeld : s.held ++ s.read rest ≠ [] := by
    rw [s.read_append h]
    exact List.append_ne_nil_of_right_ne_nil _ hSpan
  unfold origin hold
  dsimp only
  rw [if_neg hHeld]

theorem pending_hold (s : Scan) {span rest : List Char} (mode : Mode) (h : s.rest = span ++ rest) :
    (s.hold rest mode).pending = s.pending := by
  unfold pending hold
  dsimp only
  rw [s.read_append h, h, List.append_assoc]

theorem origin_hold_rest (s : Scan) (mode : Mode) :
    (s.hold s.rest mode).origin = s.origin := by
  have hRead : s.read s.rest = [] := s.read_append (List.nil_append s.rest).symm
  unfold origin hold
  dsimp only
  rw [hRead, List.append_nil, Position.after_nil]
  split <;> rfl

theorem origin_hold_suffix (s : Scan) {span rest : List Char} (mode : Mode)
    (h : s.rest = span ++ rest) : (s.hold rest mode).origin = s.origin := by
  cases span with
  | nil =>
    rw [List.nil_append] at h
    rw [← h]
    exact s.origin_hold_rest mode
  | cons c span => exact s.origin_hold mode h (List.cons_ne_nil c span)

theorem sound_hold (s : Scan) (hs : s.Sound) {span rest : List Char} {mode : Mode}
    (h : s.rest = span ++ rest) (hMode : mode = .tagOpen → ∃ tail, rest = '<' :: tail) :
    (s.hold rest mode).Sound where
  held_reaches := by
    rw [s.origin_hold_suffix mode h]
    change s.origin.after (s.held ++ s.read rest) = s.position.after (s.read rest)
    rw [Position.after_append, hs.held_reaches]
  opens := hMode

theorem sound_emit (s : Scan) {rest : List Char} (lexeme : Lexeme) {mode : Mode}
    (hMode : mode ≠ .tagOpen) : (s.emit lexeme rest mode).2.Sound where
  held_reaches := rfl
  opens h := absurd h hMode

theorem construct_mode_ne {casing : Casing} {text rest : List Char} {lexeme : Lexeme} {mode : Mode}
    (h : construct? casing text = some (lexeme, rest, mode)) : mode ≠ .tagOpen := by
  have hAfter (tag : StartTag) : modeAfter tag ≠ .tagOpen := by
    unfold modeAfter
    split
    · rintro ⟨⟩
    · split <;> rintro ⟨⟩
  unfold construct? at h
  split at h
  · simp only [Option.some.injEq, Prod.mk.injEq] at h
    rw [← h.2.2]
    rintro ⟨⟩
  · split at h
    · simp only [Option.map_eq_some_iff, Prod.mk.injEq, Prod.exists] at h
      obtain ⟨_, _, _, _, _, rfl⟩ := h
      rintro ⟨⟩
    · split at h
      · simp only [Option.map_eq_some_iff, Prod.mk.injEq, Prod.exists] at h
        obtain ⟨_, _, _, _, _, rfl⟩ := h
        rintro ⟨⟩
      · simp only [Option.map_eq_some_iff, Prod.mk.injEq, Prod.exists] at h
        obtain ⟨tag, _, _, _, _, rfl⟩ := h
        exact hAfter tag
      · cases h

theorem opens_dropWhile (text : List Char) (h : text.dropWhile (· ≠ '<') ≠ []) :
    ∃ tail, text.dropWhile (· ≠ '<') = '<' :: tail := by
  have hHead := head?_dropWhile_eq_false (fun c => decide (c ≠ '<')) text
  cases hText : text.dropWhile (· ≠ '<') with
  | nil => exact absurd hText h
  | cons c tail =>
    rw [hText] at hHead
    have hChar := of_decide_eq_false (hHead c rfl)
    exact ⟨tail, by rw [Decidable.not_not.mp hChar]⟩

/-- A step either reads on and keeps the text of the tokens to come, or it gives out what was
held back and a construct. -/
theorem step_cases (casing : Casing) (s : Scan) (hs : s.Sound) :
    ((s.step casing).1 = [] ∧ (s.step casing).2.Sound ∧ (s.step casing).2.origin = s.origin ∧
      (s.step casing).2.pending = s.pending) ∨
    (∃ lexeme span rest mode, s.rest = span ++ rest ∧ span ≠ [] ∧ lexeme.kind ≠ .text ∧
      lexeme.Spells casing span ∧ mode ≠ .tagOpen ∧
      s.step casing = s.emit lexeme rest mode) := by
  have hHold {span rest : List Char} {mode : Mode} (hText : s.rest = span ++ rest)
      (hMode : mode = .tagOpen → ∃ tail, rest = '<' :: tail) :
      ([] : List Token) = [] ∧ (s.hold rest mode).Sound ∧ (s.hold rest mode).origin = s.origin ∧
        (s.hold rest mode).pending = s.pending :=
    ⟨rfl, s.sound_hold hs hText hMode, s.origin_hold_suffix mode hText,
      s.pending_hold mode hText⟩
  unfold step
  split
  · apply Or.inl
    refine hHold List.takeWhile_append_dropWhile.symm fun hMode => opens_dropWhile s.rest ?_
    intro hNil
    rw [if_pos hNil] at hMode
    cases hMode
  · rename_i hMode
    obtain ⟨tail, hTail⟩ := hs.opens hMode
    split
    · rename_i lexeme rest mode hConstruct
      apply Or.inr
      rw [hTail] at hConstruct
      obtain ⟨span, hText, hSpan, hKind, hSpells⟩ := spells_construct hConstruct
      exact ⟨lexeme, span, rest, mode, hTail.trans hText, hSpan, hKind, hSpells,
        construct_mode_ne hConstruct, rfl⟩
    · apply Or.inl
      refine hHold (List.take_append_drop 1 s.rest).symm ?_
      rintro ⟨⟩
  · rename_i element hMode
    apply Or.inl
    refine hHold (splitRaw_append element s.rest).symm fun hMode => opens_splitRaw element s.rest ?_
    intro hNil
    rw [if_pos hNil] at hMode
    cases hMode

theorem tiling_heldTokens (casing : Casing) (s : Scan) (hs : s.Sound) {rest : List Char}
    {tokens : List Token} (hApart : ∀ next ∈ tokens.head?, next.lexeme.kind ≠ .text)
    (hRest : Tiling casing s.position rest tokens) :
    Tiling casing s.origin (s.held ++ rest) (s.heldTokens ++ tokens) := by
  have hReach := hs.held_reaches
  unfold heldTokens
  unfold origin at hReach ⊢
  split
  · rename_i hHeld
    rw [hHeld]
    exact hRest
  · rename_i hHeld
    rw [if_neg hHeld] at hReach
    refine .cons hHeld String.toList_ofList ?_ (hReach ▸ hRest)
    rintro next hNext ⟨-, hText⟩
    exact hApart next hNext hText

theorem tiling_run (casing : Casing) (s : Scan) (hs : s.Sound) :
    Tiling casing s.origin s.pending (s.run casing) := by
  unfold run
  split
  · rename_i hRest
    have h := tiling_heldTokens casing s hs (by intro next hNext; cases hNext)
      (.nil s.position)
    simpa only [pending, hRest, List.append_nil] using h
  · rename_i hRest
    have hMeasure := s.measure_step_lt casing hRest
    rcases s.step_cases casing hs with ⟨hNone, hSound, hOrigin, hPending⟩ |
      ⟨lexeme, span, rest, mode, hText, hSpan, hKind, hSpells, hMode, hStep⟩
    · have ih := tiling_run casing (s.step casing).2 hSound
      rw [hOrigin, hPending] at ih
      rw [hNone]
      exact ih
    · have hNext : (s.emit lexeme rest mode).2.measure < s.measure := hStep ▸ hMeasure
      have ih := tiling_run casing (s.emit lexeme rest mode).2 (s.sound_emit lexeme hMode)
      have hHere : Tiling casing s.position (span ++ rest)
          (⟨s.position, lexeme⟩ :: (s.emit lexeme rest mode).2.run casing) := by
        refine .cons hSpan hSpells ?_ ?_
        · rintro next - ⟨hHere, -⟩
          exact hKind hHere
        · rw [← s.read_append hText]
          exact ih
      have h := tiling_heldTokens casing s hs (by
        rintro next hNext
        rw [List.head?_cons, Option.mem_def, Option.some.injEq] at hNext
        rw [← hNext]
        exact hKind) hHere
      rw [hStep]
      change Tiling casing s.origin (s.held ++ s.rest)
        ((s.heldTokens ++ [⟨s.position, lexeme⟩]) ++ (s.emit lexeme rest mode).2.run casing)
      rw [hText, List.append_assoc]
      exact h
termination_by s.measure

end Scan

/-! ## Offsets and spans -/

namespace Tiling

variable {casing : Casing} {p : Position} {text : List Char} {tokens : List Token}

theorem tokens_eq_nil_iff (h : Tiling casing p text tokens) : tokens = [] ↔ text = [] := by
  cases h with
  | nil => simp
  | cons hSpan _ _ _ =>
    constructor
    · rintro ⟨⟩
    · intro hNil
      exact absurd (List.append_eq_nil_iff.mp hNil).1 hSpan

theorem head_position (h : Tiling casing p text tokens) :
    ∀ token ∈ tokens.head?, token.position = p := by
  cases h with
  | nil =>
    intro token hToken
    cases hToken
  | cons _ _ _ _ =>
    intro token hToken
    rw [List.head?_cons, Option.mem_def, Option.some.injEq] at hToken
    rw [← hToken]

theorem offset_bounds (h : Tiling casing p text tokens) :
    ∀ token ∈ tokens, p.offset ≤ token.position.offset ∧
      token.position.offset < p.offset + text.length := by
  induction h with
  | nil p =>
    intro token hToken
    cases hToken
  | @cons p lexeme span rest tokens hSpan _ _ _ ih =>
    have hLength := List.length_pos_iff.mpr hSpan
    intro token hToken
    rw [List.length_append]
    rcases List.mem_cons.mp hToken with rfl | hRest
    · dsimp only
      omega
    · have hBounds := ih token hRest
      rw [Position.after_offset] at hBounds
      omega

theorem text_end_le (h : Tiling casing p text tokens) :
    ∀ token ∈ tokens, token.lexeme.kind = .text →
      token.position.offset + token.lexeme.value.length ≤ p.offset + text.length := by
  induction h with
  | nil p =>
    intro token hToken
    cases hToken
  | @cons p lexeme span rest tokens hSpan hSpells _ _ ih =>
    intro token hToken hKind
    rw [List.length_append]
    rcases List.mem_cons.mp hToken with rfl | hRest
    · have hText : lexeme.value.toList = span := by
        cases lexeme with
        | text s => exact hSpells
        | startTag | endTag | comment | directive => cases hKind
      have hLength := congrArg List.length hText
      rw [String.length_toList] at hLength
      dsimp only
      omega
    · have hEnd := ih token hRest hKind
      rw [Position.after_offset] at hEnd
      omega

theorem pairwise_offset (h : Tiling casing p text tokens) :
    tokens.Pairwise fun first second => first.position.offset < second.position.offset := by
  induction h with
  | nil p => exact .nil
  | @cons p lexeme span rest tokens hSpan _ _ hRest ih =>
    refine .cons ?_ ih
    intro token hToken
    have hLength := List.length_pos_iff.mpr hSpan
    have hBounds := (hRest.offset_bounds token hToken).1
    rw [Position.after_offset] at hBounds
    dsimp only
    omega

theorem isChain (h : Tiling casing p text tokens) : tokens.IsChain Token.MayPrecede := by
  induction h with
  | nil p => exact .nil
  | @cons p lexeme span rest tokens _ _ hApart _ ih =>
    cases tokens with
    | nil => exact .singleton _
    | cons next tokens => exact .cons_cons (hApart next rfl) ih

end Tiling

namespace Token

/-- The stretches of a text from each token's offset to the next one's, the last one up to the
end. -/
def spans (text : List Char) : List Token → List (List Char)
  | [] => []
  | [token] => [text.drop token.position.offset]
  | token :: next :: rest =>
    (text.take next.position.offset).drop token.position.offset :: spans text (next :: rest)

theorem spans_of_tiling {casing : Casing} {p : Position} {front text : List Char}
    {tokens : List Token} (h : Tiling casing p text tokens) (hFront : front.length = p.offset) :
    (spans (front ++ text) tokens).flatten = text ∧
      List.Forall₂ (fun token span => span ≠ [] ∧ token.lexeme.Spells casing span) tokens
        (spans (front ++ text) tokens) := by
  induction h generalizing front with
  | nil p => exact ⟨rfl, .nil⟩
  | @cons p lexeme span rest tokens hSpan hSpells _ hRest ih =>
    have hNext : (front ++ span).length = (p.after span).offset := by
      rw [List.length_append, Position.after_offset, hFront]
    obtain ⟨hFlatten, hAll⟩ := ih hNext
    rw [List.append_assoc] at hFlatten hAll
    cases tokens with
    | nil =>
      have hNil : rest = [] := hRest.tokens_eq_nil_iff.mp rfl
      have hDrop : (front ++ (span ++ rest)).drop p.offset = span := by
        rw [hNil, List.append_nil, ← hFront, List.drop_left]
      simp only [spans, hDrop]
      exact ⟨by rw [hNil]; simp, .cons ⟨hSpan, hSpells⟩ .nil⟩
    | cons next tokens =>
      have hPosition : next.position.offset = (front ++ span).length := by
        rw [hNext, hRest.head_position next rfl]
      have hTake : ((front ++ (span ++ rest)).take next.position.offset).drop p.offset = span := by
        rw [hPosition, ← List.append_assoc, List.take_left, ← hFront, List.drop_left]
      simp only [spans, hTake]
      exact ⟨by rw [List.flatten_cons, hFlatten], .cons ⟨hSpan, hSpells⟩ hAll⟩

theorem tiling_scan (casing : Casing) (text : String) :
    Tiling casing .start text.toList (scan casing text) :=
  (Scan.begin text.toList).tiling_run casing (Scan.sound_begin text.toList)

/-- Scanning is lossless: the spans of the tokens, from offset to offset, are the text in order,
every token is spelt by its span, and texts never meet. -/
theorem scan_lossless (casing : Casing) (text : String) :
    (scan casing text = [] ↔ text = "") ∧
    (∀ token ∈ (scan casing text).head?, token.position.offset = 0) ∧
    ((scan casing text).Pairwise fun first second =>
      first.position.offset < second.position.offset) ∧
    (∀ token ∈ scan casing text, token.position.offset < text.length) ∧
    (spans text.toList (scan casing text)).flatten = text.toList ∧
    List.Forall₂ (fun token span => span ≠ [] ∧ token.lexeme.Spells casing span)
      (scan casing text) (spans text.toList (scan casing text)) ∧
    (scan casing text).IsChain MayPrecede := by
  have hTiling := tiling_scan casing text
  obtain ⟨hFlatten, hSpells⟩ := @spans_of_tiling _ _ [] _ _ hTiling rfl
  refine ⟨?_, ?_, hTiling.pairwise_offset, ?_, hFlatten, hSpells, hTiling.isChain⟩
  · rw [hTiling.tokens_eq_nil_iff, String.toList_eq_nil_iff]
  · intro token hToken
    rw [hTiling.head_position token hToken]
    rfl
  · intro token hToken
    have hBounds := (hTiling.offset_bounds token hToken).2
    rwa [Position.start, Nat.zero_add, String.length_toList] at hBounds

end Token

end Hypertext
