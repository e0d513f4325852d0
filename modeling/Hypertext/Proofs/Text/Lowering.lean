import Hypertext.Text.Lowering

/-! # Lower case twice

What lower case makes of a character it leaves alone afterwards: no row of the table reaches into the
images of a row, except where both skip every second code point and pass each other by. So lower case
is idempotent, also where it makes a text longer.
-/

namespace Hypertext.Text

set_option autoImplicit false

/-! ## Code points -/

theorem lowerCodePoint_cases (rows : List (Nat × Nat × Nat × Nat)) (n : Nat) :
    lowerCodePoint rows n = n ∨ ∃ first last stride image, (first, last, stride, image) ∈ rows ∧
      first ≤ n ∧ n ≤ last ∧ (n - first) % stride = 0 ∧
        lowerCodePoint rows n = image + (n - first) := by
  induction rows with
  | nil => exact Or.inl rfl
  | cons row rows ih =>
    obtain ⟨first, last, stride, image⟩ := row
    rw [lowerCodePoint]
    split
    · exact Or.inl rfl
    · rename_i hFrom
      split
      · rename_i hTo
        exact Or.inr ⟨first, last, stride, image, List.mem_cons_self, Nat.le_of_not_lt hFrom,
          hTo.1, hTo.2, rfl⟩
      · refine ih.imp_right ?_
        rintro ⟨first, last, stride, image, hRow, hImage⟩
        exact ⟨first, last, stride, image, List.mem_cons_of_mem _ hRow, hImage⟩

/-- No row maps a code point from `low` to `high`. When only `low` and every second one after it are
asked for, a row may map those in between. -/
def spares (low high : Nat) (sparse : Bool) : List (Nat × Nat × Nat × Nat) → Bool
  | [] => true
  | (first, last, stride, _) :: rest =>
    (high + 1).ble first || (((last + 1).ble low ||
      (sparse && (stride.beq 2 || first.beq last) && ((low + first) % 2).beq 1)) &&
        spares low high sparse rest)

theorem lowerCodePoint_of_spares {low high n : Nat} {sparse : Bool}
    {rows : List (Nat × Nat × Nat × Nat)} (hSpares : spares low high sparse rows = true)
    (hLow : low ≤ n) (hHigh : n ≤ high) (hSparse : sparse = true → (n - low) % 2 = 0) :
    lowerCodePoint rows n = n := by
  induction rows with
  | nil => rfl
  | cons row rows ih =>
    obtain ⟨first, last, stride, image⟩ := row
    simp only [spares, Bool.or_eq_true, Bool.and_eq_true, Nat.ble_eq, Nat.beq_eq] at hSpares
    rw [lowerCodePoint]
    split
    · rfl
    · rename_i hFirst
      rcases hSpares with hBeyond | ⟨hApart, hRest⟩
      · omega
      · rw [if_neg, ih hRest]
        rintro ⟨hLast, hStride⟩
        rcases hApart with hBefore | ⟨⟨hOdd, rfl | rfl⟩, hParity⟩
        · omega
        · have := hSparse hOdd
          omega
        · have := hSparse hOdd
          omega

theorem spares_images : ∀ row ∈ loweringRows,
    spares row.2.2.2 (row.2.2.2 + (row.2.1 - row.1)) (row.2.2.1.beq 2 || row.1.beq row.2.1)
      loweringRows = true := by
  decide +kernel

/-- The code point of the capital that becomes two characters is no image. -/
theorem images_ne_dotted : ∀ row ∈ loweringRows, 304 < row.2.2.2 ∨
    row.2.2.2 + (row.2.1 - row.1) < 304 ∨ (row.2.2.1 = 2 ∧ row.2.2.2 % 2 = 1) := by
  decide +kernel

/-- The row a code point is mapped by, when it is mapped at all, spares its image. -/
theorem lowerCodePoint_lowerCodePoint (n : Nat) :
    lowerCodePoint loweringRows (lowerCodePoint loweringRows n) =
      lowerCodePoint loweringRows n := by
  rcases lowerCodePoint_cases loweringRows n with hSame |
    ⟨first, last, stride, image, hRow, hFirst, hLast, hStride, hImage⟩
  · rw [hSame, hSame]
  · rw [hImage]
    refine lowerCodePoint_of_spares (spares_images _ hRow) (Nat.le_add_right _ _) ?_ ?_
    · exact Nat.add_le_add_left (Nat.sub_le_sub_right hLast first) image
    · intro hSparse
      simp only [Bool.or_eq_true, Nat.beq_eq] at hSparse
      rw [Nat.add_sub_cancel_left]
      rcases hSparse with hTwo | hSingle
      · rwa [hTwo] at hStride
      · omega

theorem lowerCodePoint_ne_dotted {n : Nat} (hn : n ≠ 304) :
    lowerCodePoint loweringRows n ≠ 304 := by
  rcases lowerCodePoint_cases loweringRows n with hSame |
    ⟨first, last, stride, image, hRow, hFirst, hLast, hStride, hImage⟩
  · rwa [hSame]
  · have hRows := images_ne_dotted _ hRow
    dsimp only at hRows
    rcases hRows with hAbove | hBelow | ⟨hTwo, hOdd⟩
    · omega
    · omega
    · rw [hTwo] at hStride
      omega

/-! ## Characters -/

theorem toLower_eq_lowerCodePoint :
    ∀ n : Fin 128, (Char.ofNat n.val).toLower.toNat = lowerCodePoint loweringRows n.val := by
  decide

theorem toNat_of_ofNat_eq {n : Nat} {d : Char} (hd : d.toNat ≠ 0) (h : Char.ofNat n = d) :
    n = d.toNat := by
  subst h
  by_cases hValid : n.isValidChar
  · have hChar : Char.ofNat n = Char.ofNatAux n hValid := dif_pos hValid
    rw [hChar]
    rfl
  · have hNone : Char.ofNat n = Char.ofNat 0 := dif_neg hValid
    rw [hNone] at hd
    exact absurd rfl hd

theorem toLower_eq_ofNat {c : Char} (hSmall : c.toNat < 128) :
    c.toLower = Char.ofNat (lowerCodePoint loweringRows c.toNat) := by
  have hLower := toLower_eq_lowerCodePoint ⟨c.toNat, hSmall⟩
  rw [Char.ofNat_toNat] at hLower
  rw [← hLower, Char.ofNat_toNat]

theorem lowerAfter_cons {c : Char} (hSigma : c ≠ 'Σ') (hDotted : c ≠ 'İ') (before rest : List Char) :
    lowerAfter before (c :: rest) =
      Char.ofNat (lowerCodePoint loweringRows c.toNat) :: lowerAfter (c :: before) rest := by
  rw [lowerAfter, if_neg hSigma, if_neg hDotted]
  split
  · rename_i hSmall
    rw [toLower_eq_ofNat hSmall]
    rfl
  · rfl

theorem mem_lowerAfter {before text : List Char} {d : Char} (h : d ∈ lowerAfter before text) :
    d ∈ ['σ', 'ς', 'i', Char.ofNat 0x307] ∨
      ∃ c, c ≠ 'İ' ∧ d = Char.ofNat (lowerCodePoint loweringRows c.toNat) := by
  induction text generalizing before with
  | nil => cases h
  | cons c text ih =>
    by_cases hSigma : c = 'Σ'
    · rw [lowerAfter, if_pos hSigma] at h
      rcases List.mem_append.mp h with hHere | hLater
      · split at hHere <;>
        · rw [List.mem_singleton.mp hHere]
          exact .inl (by decide)
      · exact ih hLater
    · by_cases hDotted : c = 'İ'
      · rw [lowerAfter, if_neg hSigma, if_pos hDotted] at h
        rcases List.mem_append.mp h with hHere | hLater
        · exact .inl (List.mem_cons_of_mem _ (List.mem_cons_of_mem _ hHere))
        · exact ih hLater
      · rw [lowerAfter_cons hSigma hDotted] at h
        rcases List.mem_cons.mp h with rfl | hLater
        · exact .inr ⟨c, hDotted, rfl⟩
        · exact ih hLater

/-! ## What lower case leaves alone -/

/-- A character that lower case leaves alone wherever it stands. -/
def IsSettled (c : Char) : Prop := c ≠ 'İ' ∧ lowerCodePoint loweringRows c.toNat = c.toNat

theorem settled_ofNat {c : Char} (hc : c ≠ 'İ') :
    IsSettled (Char.ofNat (lowerCodePoint loweringRows c.toNat)) := by
  have hCode : c.toNat ≠ 304 := fun hCode => hc (Char.toNat_inj.mp hCode)
  by_cases hZero : (Char.ofNat (lowerCodePoint loweringRows c.toNat)).toNat = 0
  · rw [show Char.ofNat (lowerCodePoint loweringRows c.toNat) = Char.ofNat 0 from
      Char.toNat_inj.mp hZero]
    exact ⟨by decide, by decide⟩
  · have hImage := toNat_of_ofNat_eq hZero rfl
    refine ⟨fun hDotted => lowerCodePoint_ne_dotted hCode ?_, ?_⟩
    · rw [hImage, hDotted]
      rfl
    · rw [← hImage, lowerCodePoint_lowerCodePoint]

theorem settled_of_mem_lowerAfter {before text : List Char} :
    ∀ c ∈ lowerAfter before text, IsSettled c := by
  intro c hc
  rcases mem_lowerAfter hc with hFew | ⟨e, hDotted, rfl⟩
  · simp only [List.mem_cons, List.not_mem_nil, or_false] at hFew
    rcases hFew with rfl | rfl | rfl | rfl <;> exact ⟨by decide, by decide⟩
  · exact settled_ofNat hDotted

theorem lowerAfter_settled {text : List Char} (hText : ∀ c ∈ text, IsSettled c)
    (before : List Char) : lowerAfter before text = text := by
  induction text generalizing before with
  | nil => rfl
  | cons c text ih =>
    obtain ⟨hHere, hRest⟩ := List.forall_mem_cons.mp hText
    have hSigma : c ≠ 'Σ' := by
      rintro rfl
      exact absurd hHere.2 (by decide)
    rw [lowerAfter_cons hSigma hHere.1, hHere.2, Char.ofNat_toNat, ih hRest]

theorem mem_lowerAfter_of_settled {c : Char} (hSettled : IsSettled c) {text : List Char}
    (h : c ∈ text) (before : List Char) : c ∈ lowerAfter before text := by
  induction text generalizing before with
  | nil => cases h
  | cons d text ih =>
    rcases List.mem_cons.mp h with rfl | hLater
    · have hSigma : c ≠ 'Σ' := by
        rintro rfl
        exact absurd hSettled.2 (by decide)
      rw [lowerAfter_cons hSigma hSettled.1, hSettled.2, Char.ofNat_toNat]
      exact List.mem_cons_self
    · rw [lowerAfter]
      repeat' split
      all_goals exact List.mem_append_right _ (ih hLater _)

theorem length_lowerAfter (before text : List Char) :
    (lowerAfter before text).length = text.length + text.count 'İ' := by
  induction text generalizing before with
  | nil => rfl
  | cons c text ih =>
    by_cases hDotted : c = 'İ'
    · have hSigma : c ≠ 'Σ' := hDotted ▸ by decide
      rw [lowerAfter, if_neg hSigma, if_pos hDotted, hDotted, List.count_cons_self,
        List.length_append, ih]
      simp only [List.length_cons, List.length_nil]
      omega
    · rw [List.count_cons_of_ne hDotted, List.length_cons, lowerAfter]
      repeat' split
      all_goals simp only [List.length_append, List.length_cons, List.length_nil, ih]; omega

@[simp] theorem lowerChars_lowerChars (text : List Char) :
    lowerChars (lowerChars text) = lowerChars text :=
  lowerAfter_settled settled_of_mem_lowerAfter []

@[simp] theorem lower_lower (text : String) : lower (lower text) = lower text := by
  rw [lower, lower, String.toList_ofList, lowerChars_lowerChars]

/-- A capital that becomes two characters, and the sigma at the end of a word. -/
example : lower "İΣ" = "i̇ς" ∧ lower "i̇ς" = "i̇ς" := by decide +kernel

end Hypertext.Text
