import Hypertext.Token.Lines

/-! # Lines and columns

The starts of the lines of a text are in order, so the number of those that are not beyond an offset is
where halving ends, and it is one more than the number of line breaks before the offset. The last of
these starts is the one behind the last of these breaks.
-/

namespace Hypertext

set_option autoImplicit false

/-- The line of an offset begins directly behind the last line break before the offset, or with the
text when there is none. -/
structure LineBegins (text : List Char) (offset start : Nat) : Prop where
  le : start ≤ offset
  begins : start = 0 ∨ ∃ i, start = i + 1 ∧ text[i]? = some '\n'
  unbroken : ∀ i, start ≤ i → i < offset → text[i]? ≠ some '\n'

/-! ## Starts of lines -/

theorem mem_lineStartsFrom {start : Nat} (offset : Nat) (text : List Char) :
    start ∈ lineStartsFrom offset text ↔ ∃ i, text[i]? = some '\n' ∧ start = offset + i + 1 := by
  induction text generalizing offset with
  | nil => simp [lineStartsFrom]
  | cons c rest ih =>
    have hRest : start ∈ lineStartsFrom (offset + 1) rest ↔
        ∃ i, rest[i]? = some '\n' ∧ start = offset + (i + 1) + 1 := by
      rw [ih]
      simp only [Nat.add_right_comm offset 1, ← Nat.add_assoc]
    constructor
    · intro hStart
      rw [lineStartsFrom] at hStart
      split at hStart
      · rename_i hBreak
        rcases List.mem_cons.mp hStart with rfl | hStart
        · exact ⟨0, congrArg some hBreak, rfl⟩
        · obtain ⟨i, hChar, rfl⟩ := hRest.mp hStart
          exact ⟨i + 1, hChar, rfl⟩
      · obtain ⟨i, hChar, rfl⟩ := hRest.mp hStart
        exact ⟨i + 1, hChar, rfl⟩
    · rintro ⟨i, hChar, rfl⟩
      rw [lineStartsFrom]
      cases i with
      | zero =>
        rw [if_pos (Option.some.inj hChar)]
        exact List.mem_cons_self
      | succ i =>
        have hStart := hRest.mpr ⟨i, hChar, rfl⟩
        split
        · exact List.mem_cons_of_mem _ hStart
        · exact hStart

theorem pairwise_lineStarts (text : List Char) :
    (0 :: lineStartsFrom 0 text).Pairwise (· < ·) := by
  have hFrom (offset : Nat) : (offset :: lineStartsFrom offset text).Pairwise (· < ·) := by
    induction text generalizing offset with
    | nil => exact List.pairwise_singleton _ offset
    | cons c rest ih =>
      refine .cons (fun start hStart => ?_) ?_
      · obtain ⟨i, -, rfl⟩ := (mem_lineStartsFrom offset (c :: rest)).mp hStart
        omega
      · rw [lineStartsFrom]
        split
        · exact ih (offset + 1)
        · exact (ih (offset + 1)).of_cons
  exact hFrom 0

/-- Among the starts, as many as there are line breaks before an offset are not beyond it. -/
theorem countP_lineStartsFrom (offset k : Nat) (text : List Char) :
    (lineStartsFrom offset text).countP (· ≤ offset + k) = (text.take k).count '\n' := by
  induction text generalizing offset k with
  | nil => simp [lineStartsFrom]
  | cons c rest ih =>
    cases k with
    | zero =>
      rw [List.take_zero, List.count_nil, List.countP_eq_zero]
      intro start hStart
      obtain ⟨i, -, rfl⟩ := (mem_lineStartsFrom offset (c :: rest)).mp hStart
      simp only [decide_eq_true_eq]
      omega
    | succ k =>
      have ih := ih (offset + 1) k
      rw [Nat.add_right_comm, Nat.add_assoc] at ih
      rw [lineStartsFrom, List.take_succ_cons, List.count_cons]
      split
      · rename_i hBreak
        rw [List.countP_cons, ih, hBreak]
        simp
      · rename_i hBreak
        rw [ih]
        simp [hBreak]

theorem countP_lineStarts (offset : Nat) (text : List Char) :
    (0 :: lineStartsFrom 0 text).countP (· ≤ offset) = (text.take offset).count '\n' + 1 := by
  have hCount := countP_lineStartsFrom 0 offset text
  rw [Nat.zero_add] at hCount
  rw [List.countP_cons, hCount, if_pos (decide_eq_true (Nat.zero_le offset))]

/-! ## Halving -/

theorem le_iff_lt_countP {items : List Nat} (hAscending : items.Pairwise (· < ·)) (bound : Nat)
    {i item : Nat} (hItem : items[i]? = some item) :
    item ≤ bound ↔ i < items.countP (· ≤ bound) := by
  induction items generalizing i with
  | nil => cases hItem
  | cons first rest ih =>
    obtain ⟨hFirst, hRest⟩ := List.pairwise_cons.mp hAscending
    rw [List.countP_cons]
    by_cases hBound : first ≤ bound
    · rw [if_pos (decide_eq_true hBound)]
      cases i with
      | zero =>
        obtain rfl : first = item := Option.some.inj hItem
        exact iff_of_true hBound (Nat.succ_pos _)
      | succ i => rw [ih hRest hItem, Nat.add_lt_add_iff_right]
    · have hNone : rest.countP (· ≤ bound) = 0 := by
        rw [List.countP_eq_zero]
        intro other hOther
        have := hFirst other hOther
        simp only [decide_eq_true_eq]
        omega
      have hItemFirst : first ≤ item := by
        rcases List.mem_cons.mp (List.mem_of_getElem? hItem) with rfl | hMem
        · exact Nat.le_refl _
        · exact Nat.le_of_lt (hFirst item hMem)
      rw [if_neg (by simpa using hBound), hNone]
      omega

/-- Halving ends at the place that parts the starts, without asking for one that is not there. -/
theorem bisect_eq {starts : Array Nat} {offset k : Nat}
    (hParted : ∀ i start, starts[i]? = some start → (start ≤ offset ↔ i < k)) (low high : Nat)
    (hLow : low ≤ k) (hHigh : k ≤ high) (hSize : high ≤ starts.size) :
    bisect starts offset low high = .ok k := by
  fun_induction bisect starts offset low high with
  | case1 low high hLess hNone =>
    have := Array.getElem?_eq_none_iff.mp hNone
    omega
  | case2 low high hLess start hStart hBeyond ih =>
    have := hParted _ start hStart
    exact ih hLow (by omega) (by omega)
  | case3 low high hLess start hStart hNotBeyond ih =>
    have := hParted _ start hStart
    exact ih (by omega) hHigh hSize
  | case4 low high hLess => rw [Nat.le_antisymm hLow (by omega)]

theorem exists_line (text : List Char) (offset : Nat) :
    ∃ start, (lineStarts text)[(text.take offset).count '\n']? = some start ∧
      LineBegins text offset start ∧
      bisect (lineStarts text) offset 0 (lineStarts text).size =
        .ok ((text.take offset).count '\n' + 1) := by
  have hAscending := pairwise_lineStarts text
  have hCount := countP_lineStarts offset text
  have hParted (i start : Nat) (hStart : (lineStarts text)[i]? = some start) :
      start ≤ offset ↔ i < (text.take offset).count '\n' + 1 := by
    rw [lineStarts, List.getElem?_toArray] at hStart
    rw [← hCount]
    exact le_iff_lt_countP hAscending offset hStart
  have hSize : (text.take offset).count '\n' + 1 ≤ (lineStarts text).size := by
    rw [← hCount, lineStarts, List.size_toArray]
    exact List.countP_le_length
  obtain ⟨start, hStart⟩ : ∃ start, (lineStarts text)[(text.take offset).count '\n']? = some start :=
    ⟨_, Array.getElem?_eq_getElem hSize⟩
  refine ⟨start, hStart, ⟨(hParted _ start hStart).mpr (Nat.lt_succ_self _), ?_, ?_⟩,
    bisect_eq hParted 0 _ (Nat.zero_le _) hSize (Nat.le_refl _)⟩
  · rw [lineStarts, List.getElem?_toArray] at hStart
    rcases List.mem_cons.mp (List.mem_of_getElem? hStart) with rfl | hMem
    · exact .inl rfl
    · obtain ⟨i, hChar, rfl⟩ := (mem_lineStartsFrom 0 text).mp hMem
      exact .inr ⟨i, by omega, hChar⟩
  · -- A break from there on would begin a line that is not beyond the offset, and is behind the last.
    intro i hFrom hBefore hChar
    have hMem : i + 1 ∈ 0 :: lineStartsFrom 0 text :=
      List.mem_cons_of_mem 0 ((mem_lineStartsFrom 0 text).mpr ⟨i, hChar, by omega⟩)
    obtain ⟨j, hNext⟩ := List.mem_iff_getElem?.mp hMem
    rw [lineStarts, List.getElem?_toArray] at hStart
    have hLine := (le_iff_lt_countP hAscending offset hNext).mp hBefore
    have hBehind := le_iff_lt_countP hAscending start hNext
    have hSelf := (le_iff_lt_countP hAscending start hStart).mp (Nat.le_refl start)
    rw [hCount] at hLine
    omega

/-! ## Places -/

namespace Position

theorem after_line (p : Position) (text : List Char) :
    (p.after text).line = p.line + text.count '\n' := by
  induction text generalizing p with
  | nil => rfl
  | cons c rest ih =>
    rw [after_cons, ih, List.count_cons, next]
    split
    · rename_i hBreak
      simp only [hBreak, beq_self_eq_true, if_true]
      omega
    · rename_i hBreak
      simp [hBreak]

theorem after_column {p : Position} {text : List Char} (hUnbroken : '\n' ∉ text) :
    (p.after text).column = p.column + text.length := by
  induction text generalizing p with
  | nil => rfl
  | cons c rest ih =>
    have hChar : c ≠ '\n' := fun hBreak => hUnbroken (hBreak ▸ List.mem_cons_self)
    have hRest : '\n' ∉ rest := fun hMem => hUnbroken (List.mem_cons_of_mem c hMem)
    rw [after_cons, ih hRest, next, if_neg hChar, List.length_cons]
    dsimp only
    omega

theorem after_take (p : Position) (text : List Char) {first second : Nat} (h : first ≤ second) :
    p.after (text.take second) =
      (p.after (text.take first)).after ((text.drop first).take (second - first)) := by
  rw [← after_append, ← List.take_add, Nat.add_sub_cancel' h]

theorem column_begins {text : List Char} {start : Nat}
    (hBegins : start = 0 ∨ ∃ i, start = i + 1 ∧ text[i]? = some '\n') :
    (Position.start.after (text.take start)).column = 1 := by
  rcases hBegins with rfl | ⟨i, rfl, hChar⟩
  · rw [List.take_zero]
    rfl
  · rw [List.take_add_one, hChar, after_append]
    rfl

end Position

theorem LineBegins.column_eq {text : List Char} {offset start : Nat}
    (h : LineBegins text offset start) (hOffset : offset ≤ text.length) :
    (Position.start.after (text.take offset)).column = offset - start + 1 := by
  have hUnbroken : '\n' ∉ (text.drop start).take (offset - start) := by
    intro hMem
    obtain ⟨i, hChar⟩ := List.mem_iff_getElem?.mp hMem
    rw [List.getElem?_take] at hChar
    split at hChar
    · rw [List.getElem?_drop] at hChar
      exact h.unbroken (start + i) (Nat.le_add_right _ _) (by omega) hChar
    · cases hChar
  have hLength : ((text.drop start).take (offset - start)).length = offset - start := by
    rw [List.length_take, List.length_drop]
    omega
  rw [Position.after_take _ text h.le, Position.after_column hUnbroken,
    Position.column_begins h.begins, hLength, Nat.add_comm]

theorem Position.ofInts_eq {line column offset : Int} {p : Position} (hLine : line = p.line)
    (hColumn : column = p.column) (hOffset : offset = p.offset) (hFirstLine : 1 ≤ p.line)
    (hFirstColumn : 1 ≤ p.column) : Position.ofInts line column offset = .ok p := by
  subst hLine hColumn hOffset
  rw [ofInts, if_neg (by omega), if_neg (by omega), if_neg (by omega)]
  rfl

/-- The place that is found for an offset is the one that reading up to there comes to. -/
theorem Position.locate_eq (text : List Char) {offset : Nat} (hOffset : offset ≤ text.length) :
    Position.locate (lineStarts text) offset = .ok (Position.start.after (text.take offset)) := by
  obtain ⟨start, hStart, hLine, hBisect⟩ := exists_line text offset
  have hLineNumber := Position.start.after_line (text.take offset)
  have hColumn := hLine.column_eq hOffset
  have hOffsets := Position.start.after_offset (text.take offset)
  rw [List.length_take_of_le hOffset] at hOffsets
  have hIndex : (((text.take offset).count '\n' + 1 : Nat) : Int) - 1 =
      Int.ofNat ((text.take offset).count '\n') := by simp
  have hLocate : Position.locate (lineStarts text) offset =
      Position.ofInts (((text.take offset).count '\n' : Nat) + 1) (offset - start + 1) offset := by
    simp only [Position.locate, hBisect, bind, Except.bind, hIndex, lineStartAt, hStart]
    rfl
  rw [hLocate]
  have hLe := hLine.le
  simp only [Position.start] at hLineNumber hColumn hOffsets
  refine Position.ofInts_eq ?_ ?_ ?_ ?_ ?_
  all_goals simp only [Position.start]; omega

end Hypertext
