import Hypertext.Token.Scan

/-! # What the readers of tokens read

Every reader takes its construct from the front of the text: what it read and what it left are
the text again. A tag ends with the first `>` outside its values, and its name ends at the first
character that is not one of a name.
-/

namespace Hypertext

set_option autoImplicit false

open Text

/-! ## Characters of names -/

theorem isLetter_ge (c : Char) (h : isLetter c = true) : 65 ≤ c.toNat := by
  apply Classical.byContradiction
  intro hLess
  unfold isLetter letterRanges at h
  rw [covers, if_pos (Nat.lt_of_not_le hLess)] at h
  cases h

theorem isNameChar_of_isLetter (c : Char) (h : isLetter c = true) : isNameChar c = true := by
  have hCode := isLetter_ge c h
  have hNe (d : Char) (hd : d.toNat < 65) : c ≠ d := by
    rintro rfl
    omega
  simp only [isNameChar, isSpacing, Bool.and_eq_true, Bool.not_eq_true', Bool.or_eq_false_iff,
    decide_eq_false_iff_not, decide_eq_true_eq]
  exact ⟨⟨⟨⟨⟨⟨⟨hNe _ (by decide), hNe _ (by decide)⟩, hNe _ (by decide)⟩, hNe _ (by decide)⟩,
    hNe _ (by decide)⟩, hNe _ (by decide)⟩, hNe _ (by decide)⟩, hNe _ (by decide)⟩

theorem lowerAfter_ne_nil (before : List Char) {text : List Char} (h : text ≠ []) :
    lowerAfter before text ≠ [] := by
  cases text with
  | nil => exact absurd rfl h
  | cons c rest =>
    simp only [lowerAfter]
    apply List.append_ne_nil_of_left_ne_nil
    split
    · split <;> exact List.cons_ne_nil _ _
    · split
      · exact List.cons_ne_nil _ _
      · split <;> exact List.cons_ne_nil _ _

theorem head?_dropWhile_eq_false {α : Type} (test : α → Bool) (xs : List α) :
    ∀ x ∈ (xs.dropWhile test).head?, test x = false := by
  intro x hx
  have h := List.head?_dropWhile_not test xs
  rw [Option.mem_def.mp hx] at h
  exact h

/-! ## Marks -/

theorem breakAfter_eq_append {mark text first rest : List Char}
    (h : breakAfter mark text = some (first, rest)) : ∃ before, first = before ++ mark := by
  induction text generalizing first with
  | nil =>
    unfold breakAfter at h
    split at h
    · rename_i hEmpty
      simp only [Option.some.injEq, Prod.mk.injEq] at h
      exact ⟨[], by rw [← h.1, List.isEmpty_iff.mp hEmpty]; rfl⟩
    · cases h
  | cons c text ih =>
    unfold breakAfter at h
    split at h
    · rename_i hPrefix
      simp only [Option.some.injEq, Prod.mk.injEq] at h
      exact ⟨[], by rw [← h.1, ← List.prefix_iff_eq_take.mp (List.isPrefixOf_iff_prefix.mp hPrefix)]; rfl⟩
    · simp only [Option.map_eq_some_iff, Prod.mk.injEq, Prod.exists] at h
      obtain ⟨first', rest', hBreak, rfl, rfl⟩ := h
      obtain ⟨before, rfl⟩ := ih hBreak
      exact ⟨c :: before, rfl⟩

theorem suffix_of_breakAfter {c : Char} {text first rest : List Char}
    (h : breakAfter [c] text = some (first, rest)) : (c :: rest) <:+ text := by
  obtain ⟨before, hBefore⟩ := breakAfter_eq_append h
  exact ⟨before, by rw [← breakAfter_append h, hBefore, List.append_assoc]; rfl⟩

/-! ## Tags -/

/-- The text of a tag after its opening: its name, all of it, and the rest up to the closing
`>`. -/
structure TagText (isNamed : Char → Bool) (name after : List Char) : Prop where
  name_ne_nil : name ≠ []
  named : ∀ c ∈ name, isNamed c = true
  stops : ∀ c ∈ after.head?, isNamed c = false
  closes : after.getLast? = some '>'

theorem tagText_of_dropWhile {isNamed : Char → Bool} (text : List Char) {rest : List Char}
    (hName : text.takeWhile isNamed ≠ []) (hEnd : ('>' :: rest) <:+ text.dropWhile isNamed) :
    ∃ after, text = text.takeWhile isNamed ++ after ++ rest ∧
      TagText isNamed (text.takeWhile isNamed) after := by
  obtain ⟨before, hBefore⟩ := hEnd
  refine ⟨before ++ ['>'], ?_, hName, fun c hc => List.all_eq_true.mp List.all_takeWhile c hc, ?_, ?_⟩
  · calc
      text = text.takeWhile isNamed ++ text.dropWhile isNamed := List.takeWhile_append_dropWhile.symm
      _ = text.takeWhile isNamed ++ (before ++ ['>']) ++ rest := by rw [← hBefore]; simp
  · intro c hc
    apply head?_dropWhile_eq_false isNamed text c
    rw [← hBefore]
    cases before with
    | nil => exact hc
    | cons d before => exact hc
  · simp

theorem readEndTag?_eq_some {text name rest : List Char}
    (h : readEndTag? text = some (name, rest)) :
    ∃ blanks after, text = blanks ++ name ++ after ++ rest ∧
      (∀ c ∈ blanks, isBlank c = true) ∧ TagText isEndNameChar name after := by
  unfold readEndTag? at h
  dsimp only at h
  split at h
  · cases h
  · rename_i hName
    simp only [Option.map_eq_some_iff, Prod.mk.injEq, Prod.exists] at h
    obtain ⟨first, rest', hBreak, rfl, rfl⟩ := h
    obtain ⟨after, hText, hTag⟩ := tagText_of_dropWhile _ (fun hNil => hName (List.isEmpty_iff.mpr hNil))
      (suffix_of_breakAfter hBreak)
    refine ⟨text.takeWhile isBlank, after, ?_, fun c hc => List.all_eq_true.mp List.all_takeWhile c hc, hTag⟩
    rw [List.append_assoc, List.append_assoc, ← List.append_assoc (List.takeWhile _ _) after,
      ← hText, List.takeWhile_append_dropWhile]

theorem suffix_of_readValue {text value rest : List Char}
    (h : readValue? text = some (value, rest)) : rest <:+ text := by
  unfold readValue? at h
  have hDrop := List.dropWhile_suffix isSpacing (l := text)
  split at h
  · cases h
  · rename_i c tail hText
    rw [hText] at hDrop
    split at h
    · simp only [Option.map_eq_some_iff, Prod.mk.injEq, Prod.exists] at h
      obtain ⟨first, after, hBreak, _, rfl⟩ := h
      have hTail : after <:+ tail := ⟨first, breakAfter_append hBreak⟩
      exact (hTail.trans (List.suffix_cons c tail)).trans hDrop
    · simp only [Option.some.injEq, Prod.mk.injEq] at h
      rw [← h.2]
      exact (List.dropWhile_suffix isUnquotedChar).trans hDrop

theorem suffix_of_readAssignment {text value rest : List Char}
    (h : readAssignment? text = some (value, rest)) : rest <:+ text := by
  unfold readAssignment? at h
  split at h
  · rename_i tail hText
    have hDrop := List.dropWhile_suffix isSpacing (l := text)
    rw [hText] at hDrop
    exact ((suffix_of_readValue h).trans (List.suffix_cons '=' tail)).trans hDrop
  · simp only [Option.some.injEq, Prod.mk.injEq] at h
    obtain ⟨-, rfl⟩ := h
    exact List.suffix_refl _

theorem suffix_of_readAttributes (text : List Char) {attributes : List AttributeText}
    {selfClosing : Bool} {rest : List Char}
    (h : readAttributes? text = some (attributes, selfClosing, rest)) : ('>' :: rest) <:+ text := by
  fun_induction readAttributes? text generalizing attributes selfClosing rest with
  | case1 => cases h
  | case2 text tail hText =>
    simp only [Option.some.injEq, Prod.mk.injEq] at h
    rw [← h.2.2, ← hText]
    exact List.dropWhile_suffix isSpacing
  | case3 text tail hText =>
    simp only [Option.some.injEq, Prod.mk.injEq] at h
    have hDrop := List.dropWhile_suffix isSpacing (l := text)
    rw [hText] at hDrop
    rw [← h.2.2]
    exact (List.suffix_cons '/' _).trans hDrop
  | case4 text tail _ hText ih =>
    have hDrop := List.dropWhile_suffix isSpacing (l := text)
    rw [hText] at hDrop
    exact ((ih h).trans (List.suffix_cons '/' tail)).trans hDrop
  | case5 => cases h
  | case6 text c tail _ _ _ hText value after hRead ih =>
    simp only [Option.map_eq_some_iff, Prod.mk.injEq, Prod.exists] at h
    obtain ⟨attributes', selfClosing', rest', hAttributes, _, _, rfl⟩ := h
    have hDrop := List.dropWhile_suffix isSpacing (l := text)
    rw [hText] at hDrop
    have hAfter := (suffix_of_readAssignment hRead).trans (List.dropWhile_suffix isNameChar)
    exact (((ih hAttributes).trans hAfter).trans (List.suffix_cons c tail)).trans hDrop

theorem readStartTag?_eq_some {text rest : List Char} {tag : StartTag}
    (h : readStartTag? text = some (tag, rest)) :
    ∃ after, text = tag.name ++ after ++ rest ∧ (∀ c ∈ tag.name.head?, isLetter c = true) ∧
      TagText isNameChar tag.name after := by
  unfold readStartTag? at h
  split at h
  · cases h
  · rename_i c tail
    split at h
    · rename_i hLetter
      simp only [Option.map_eq_some_iff, Prod.mk.injEq, Prod.exists] at h
      obtain ⟨attributes, selfClosing, rest', hRead, rfl, rfl⟩ := h
      have hName : (c :: tail).takeWhile isNameChar = c :: tail.takeWhile isNameChar :=
        List.takeWhile_cons_of_pos (isNameChar_of_isLetter c hLetter)
      obtain ⟨after, hText, hTag⟩ := tagText_of_dropWhile (c :: tail)
        (by rw [hName]; exact List.cons_ne_nil _ _) (suffix_of_readAttributes _ hRead)
      refine ⟨after, hText, ?_, hTag⟩
      intro d hd
      rw [hName, List.head?_cons, Option.mem_def, Option.some.injEq] at hd
      rw [← hd]
      exact hLetter
    · cases h

/-! ## Comments and directives -/

theorem readComment?_append {text comment rest : List Char}
    (h : readComment? text = some (comment, rest)) : comment ++ rest = text := by
  unfold readComment? at h
  split at h
  · rename_i hOpen
    split at h
    · rename_i inner after hBreak
      simp only [Option.some.injEq, Prod.mk.injEq] at h
      have hTake := List.prefix_iff_eq_take.mp (List.isPrefixOf_iff_prefix.mp hOpen)
      calc
        comment ++ rest = commentOpen ++ (inner ++ after) := by rw [← h.1, ← h.2, List.append_assoc]
        _ = text.take 4 ++ text.drop 4 := by rw [breakAfter_append hBreak, hTake]; rfl
        _ = text := List.take_append_drop 4 text
    · simp only [Option.some.injEq, Prod.mk.injEq] at h
      rw [← h.1, ← h.2, List.append_nil]
  · cases h

/-! ## Raw text -/

theorem opens_splitRaw (element : RawElement) (text : List Char)
    (h : (splitRaw element text).2 ≠ []) : ∃ tail, (splitRaw element text).2 = '<' :: tail := by
  induction text with
  | nil => exact absurd rfl h
  | cons c rest ih =>
    unfold splitRaw at h ⊢
    split
    · rename_i hEnds
      unfold endsRaw at hEnds
      split at hEnds
      · rename_i hText
        exact ⟨_, hText⟩
      · cases hEnds
    · rename_i hEnds
      rw [if_neg hEnds] at h
      exact ih h

end Hypertext
