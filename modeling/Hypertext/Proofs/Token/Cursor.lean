import Hypertext.Proofs.Token.Readers
import Hypertext.Token.Cursor

/-! # Reading by offsets

At an offset of a text something is left unread, and what a cursor finds there is what the readers of
single tokens find in what is left. The loops on the way are counted in passes: no pass asks for a
character that is not there, and as every pass that goes on has less left to read, they all end.
-/

namespace Hypertext

set_option autoImplicit false

open Text

/-! ## Passes -/

namespace Pass

variable {σ β : Type} {pass : σ → Outcome (Pass σ β)}

/-- So many passes lead from one state to another, and none of them is a fault. -/
inductive Leads (pass : σ → Outcome (Pass σ β)) : Nat → σ → σ → Prop where
  | refl (s : σ) : Leads pass 0 s s
  | step {n : Nat} {s t u : σ} (hPass : pass s = .ok (.again t)) (hRest : Leads pass n t u) :
    Leads pass (n + 1) s u

/-- The loop goes on for so many passes, and the one after them ends it. -/
def Ends (pass : σ → Outcome (Pass σ β)) (n : Nat) (s : σ) (result : β) : Prop :=
  ∃ last, Leads pass n s last ∧ pass last = .ok (.done result)

theorem Ends.here {s : σ} {result : β} (h : pass s = .ok (.done result)) : Ends pass 0 s result :=
  ⟨s, .refl s, h⟩

theorem Ends.step {n : Nat} {s t : σ} {result : β} (hPass : pass s = .ok (.again t))
    (h : Ends pass n t result) : Ends pass (n + 1) s result := by
  obtain ⟨last, hLeads, hLast⟩ := h
  exact ⟨last, .step hPass hLeads, hLast⟩

theorem Ends.loop_eq {n limit : Nat} {s : σ} {result : β} (h : Ends pass n s result)
    (hLimit : n < limit) : loop pass limit s = .ok result := by
  obtain ⟨last, hLeads, hLast⟩ := h
  induction hLeads generalizing limit with
  | refl s =>
    obtain ⟨limit, rfl⟩ := Nat.exists_eq_add_of_lt hLimit
    rw [Nat.zero_add, loop, hLast]
    rfl
  | @step n s t u hPass _ ih =>
    obtain ⟨limit, rfl⟩ : ∃ m, limit = m + 1 := ⟨limit - 1, by omega⟩
    rw [loop, hPass]
    exact ih (by omega) hLast

end Pass

namespace Cursor

/-! ## What is left at an offset -/

/-- At the offset, which is not beyond the end, `rest` is left. -/
structure Leaves (text : Array Char) (offset : Nat) (rest : List Char) : Prop where
  le : offset ≤ text.size
  unread_eq : unread text offset = rest

namespace Leaves

variable {text : Array Char} {offset start stop : Nat} {rest span : List Char}

theorem of_le (h : offset ≤ text.size) : Leaves text offset (unread text offset) := ⟨h, rfl⟩

theorem length (h : Leaves text offset rest) : offset + rest.length = text.size := by
  rw [← h.unread_eq, unread, List.length_drop, Array.length_toList]
  exact Nat.add_sub_cancel' h.le

theorem append (h : Leaves text offset (span ++ rest)) :
    Leaves text (offset + span.length) rest := by
  have hLength := h.length
  rw [List.length_append] at hLength
  refine ⟨by omega, ?_⟩
  have hUnread := h.unread_eq
  rw [unread] at hUnread ⊢
  rw [← List.drop_drop, hUnread, List.drop_left]

theorem tail {c : Char} (h : Leaves text offset (c :: rest)) : Leaves text (offset + 1) rest := by
  have hSpan : Leaves text offset ([c] ++ rest) := h
  exact hSpan.append

theorem suffix {less : List Char} (h : Leaves text offset rest) (hSuffix : less <:+ rest) :
    Leaves text (text.size - less.length) less := by
  obtain ⟨span, rfl⟩ := hSuffix
  have hLength := h.length
  rw [List.length_append] at hLength
  rw [show text.size - less.length = offset + span.length by omega]
  exact h.append

theorem lt_iff (h : Leaves text offset rest) : offset < text.size ↔ rest ≠ [] := by
  rw [← List.length_pos_iff, ← h.length]
  omega

theorem lt {c : Char} (h : Leaves text offset (c :: rest)) : offset < text.size :=
  h.lt_iff.mpr (List.cons_ne_nil c rest)

theorem not_lt (h : Leaves text offset []) : ¬offset < text.size :=
  fun hLess => h.lt_iff.mp hLess rfl

theorem getElem?_eq (h : Leaves text offset rest) (i : Nat) : text[offset + i]? = rest[i]? := by
  rw [← h.unread_eq, unread, List.getElem?_drop, Array.getElem?_toList]

theorem charAt {c : Char} (h : Leaves text offset (c :: rest)) :
    charAt text offset = .ok c := by
  have hChar : text[offset]? = some c := h.getElem?_eq 0
  rw [Cursor.charAt, hChar]

/-- What is done with the next character, when it is looked at only if there is one. -/
theorem next_eq {β : Type} {c : Char} (h : Leaves text offset (c :: rest)) (next : Char → Outcome β)
    (ended : Outcome β) :
    (if offset < text.size then Cursor.charAt text offset >>= next else ended) = next c := by
  rw [if_pos h.lt, h.charAt, Outcome.ok_bind]

theorem slice_eq_take (h : Leaves text start rest) :
    slice text start stop = rest.take (stop - start) := by
  rw [slice, Array.toList_extract, ← h.unread_eq]
  rfl

theorem slice (hStart : Leaves text start (span ++ rest)) (hStop : Leaves text stop rest) :
    slice text start stop = span := by
  have hLength := hStart.length
  rw [List.length_append, ← hStop.length] at hLength
  rw [hStart.slice_eq_take, show stop - start = span.length by omega, List.take_left]

theorem startsWith (h : Leaves text offset rest) (mark : List Char) :
    startsWith text mark offset = mark.isPrefixOf rest := by
  rw [Cursor.startsWith, h.slice_eq_take, Nat.add_sub_cancel_left, Bool.eq_iff_iff,
    decide_eq_true_iff, List.isPrefixOf_iff_prefix, List.prefix_iff_eq_take, eq_comm]

theorem find? (h : Leaves text offset rest) (mark : List Char) :
    find? text mark offset =
      (breakAfter mark rest).map fun parts => offset + parts.1.length - mark.length := by
  rw [Cursor.find?, h.unread_eq]

/-! ## Loops within a tag -/

theorem skip_ends (h : Leaves text offset rest) (test : Char → Bool) :
    Pass.Ends (skipPass text test) (rest.takeWhile test).length offset
      (offset + (rest.takeWhile test).length) := by
  induction rest generalizing offset with
  | nil =>
    refine .here ?_
    rw [skipPass, if_neg h.not_lt]
    rfl
  | cons c rest ih =>
    have hPass : skipPass text test offset =
        .ok (if test c then .again (offset + 1) else .done offset) := by
      rw [skipPass, h.next_eq]
      rfl
    cases hTest : test c with
    | true =>
      have hNext := ih h.tail
      rw [hTest] at hPass
      rw [List.takeWhile_cons_of_pos hTest, List.length_cons, Nat.add_comm _ 1, ← Nat.add_assoc,
        Nat.add_comm 1]
      exact hNext.step hPass
    | false =>
      rw [hTest] at hPass
      rw [List.takeWhile_cons_of_neg (by simp [hTest])]
      exact .here hPass

theorem skip (h : Leaves text offset rest) (test : Char → Bool) :
    skip text test offset = .ok (offset + (rest.takeWhile test).length) := by
  refine (h.skip_ends test).loop_eq ?_
  have hLength := h.length
  have hTaken := (List.takeWhile_prefix test (l := rest)).length_le
  omega

theorem skipped (h : Leaves text offset rest) (test : Char → Bool) :
    Leaves text (offset + (rest.takeWhile test).length) (rest.dropWhile test) := by
  rw [← List.takeWhile_append_dropWhile (p := test) (l := rest)] at h
  exact h.append

theorem slice_skipped (h : Leaves text offset rest) (test : Char → Bool) :
    Cursor.slice text offset (offset + (rest.takeWhile test).length) = rest.takeWhile test := by
  have hStart := h
  rw [← List.takeWhile_append_dropWhile (p := test) (l := rest)] at hStart
  exact hStart.slice (h.skipped test)

theorem offset_eq (h : Leaves text offset rest) : text.size - rest.length = offset := by
  have := h.length
  omega

theorem find?_quote {c : Char} (h : Leaves text offset rest) :
    (Cursor.find? text [c] offset).map (fun close => (close + 1, Cursor.slice text offset close)) =
      (breakAfter [c] rest).map fun parts => (text.size - parts.2.length, parts.1.dropLast) := by
  rw [h.find?, Option.map_map]
  cases hBreak : breakAfter [c] rest with
  | none => rfl
  | some parts =>
    obtain ⟨first, after⟩ := parts
    obtain ⟨before, rfl⟩ := breakAfter_eq_append hBreak
    have hRest : rest = before ++ (c :: after) := by
      rw [← breakAfter_append hBreak, List.append_assoc]
      rfl
    rw [hRest] at h
    have hClose := h.append
    have hOffset : offset + (before ++ [c]).length - [c].length = offset + before.length := by
      rw [List.length_append, ← Nat.add_assoc, Nat.add_sub_cancel]
    simp only [Option.map_some, Function.comp_apply, hOffset, h.slice hClose,
      hClose.tail.offset_eq, List.dropLast_concat]

theorem readValue (h : Leaves text offset rest) :
    readValue text offset =
      .ok ((readValue? rest).map fun parts => (text.size - parts.2.length, parts.1)) := by
  have hStart := h.skipped isSpacing
  rw [Cursor.readValue, h.skip, Outcome.ok_bind, readValue?]
  generalize offset + (rest.takeWhile isSpacing).length = start at hStart ⊢
  generalize rest.dropWhile isSpacing = spaced at hStart ⊢
  cases spaced with
  | nil => rw [if_neg hStart.not_lt]; rfl
  | cons c tail =>
    rw [hStart.next_eq]
    dsimp only
    by_cases hQuote : (decide (c = '"') || decide (c = '\'')) = true
    · rw [if_pos hQuote, if_pos hQuote, Option.map_map, hStart.tail.find?_quote]
      rfl
    · rw [if_neg hQuote, if_neg hQuote, hStart.skip, Outcome.ok_bind, hStart.slice_skipped,
        Option.map_some, (hStart.skipped isUnquotedChar).offset_eq]
      rfl

theorem readAssignment (h : Leaves text offset rest) :
    readAssignment text offset =
      .ok ((readAssignment? rest).map fun parts => (text.size - parts.2.length, parts.1)) := by
  have hStart := h.skipped isSpacing
  rw [Cursor.readAssignment, h.skip, Outcome.ok_bind, readAssignment?]
  generalize offset + (rest.takeWhile isSpacing).length = start at hStart ⊢
  generalize rest.dropWhile isSpacing = spaced at hStart ⊢
  have hNothing : (.ok (some (offset, [])) : Outcome (Option (Nat × List Char))) =
      .ok ((some ([], rest)).map fun parts => (text.size - parts.2.length, parts.1)) := by
    rw [Option.map_some, h.offset_eq]
  cases spaced with
  | nil =>
    rw [if_neg hStart.not_lt]
    exact hNothing
  | cons c tail =>
    rw [hStart.next_eq]
    by_cases hEquals : c = '='
    · subst hEquals
      exact hStart.tail.readValue
    · rw [if_neg hEquals]
      split
      · rename_i hText
        exact absurd (List.cons.inj hText).1 hEquals
      · exact hNothing

theorem attributePass (h : Leaves text offset rest) (before : List AttributeText) :
    (∃ next less more, attributePass text ⟨offset, before⟩ = .ok (.again ⟨next, before ++ more⟩) ∧
      offset < next ∧ Leaves text next less ∧
      readAttributes? rest =
        (readAttributes? less).map fun parts => (more ++ parts.1, parts.2)) ∨
    attributePass text ⟨offset, before⟩ =
      .ok (.done ((readAttributes? rest).map fun parts =>
        ⟨text.size - parts.2.2.length, before ++ parts.1, parts.2.1⟩)) := by
  have hStart := h.skipped isSpacing
  have hFrom : offset ≤ offset + (rest.takeWhile isSpacing).length := Nat.le_add_right _ _
  rw [Cursor.attributePass, h.skip, Outcome.ok_bind]
  generalize offset + (rest.takeWhile isSpacing).length = start at hStart hFrom ⊢
  fun_cases readAttributes? rest with
  | case1 hText =>
    rw [hText] at hStart
    rw [if_neg hStart.not_lt]
    exact .inr rfl
  | case2 tail hText =>
    rw [hText] at hStart
    rw [hStart.next_eq, if_pos rfl, Option.map_some,
      hStart.tail.offset_eq, List.append_nil]
    exact .inr rfl
  | case3 tail hText =>
    rw [hText] at hStart
    rw [hStart.next_eq, if_neg (by decide), if_pos rfl,
      hStart.startsWith, if_pos (by simp), Option.map_some, hStart.tail.tail.offset_eq,
      List.append_nil]
    exact .inr rfl
  | case4 tail hOther hText =>
    rw [hText] at hStart
    have hSlash : ['/', '>'].isPrefixOf ('/' :: tail) = false := by
      cases tail with
      | nil => rfl
      | cons c tail =>
        have hChar : c ≠ '>' := fun hClose => hOther tail (by rw [hClose])
        simp [List.isPrefixOf, hChar.symm]
    rw [hStart.next_eq, if_neg (by decide), if_pos rfl,
      hStart.startsWith, hSlash]
    refine .inl ⟨start + 1, tail, [], ?_, by omega, hStart.tail, ?_⟩
    · rw [List.append_nil]
      rfl
    · simp
  | case5 c tail hClose hSelfClose hSlash hText hRead =>
    rw [hText] at hStart
    have hName := hStart.tail.skipped isNameChar
    rw [hStart.next_eq, if_neg hClose, if_neg hSlash,
      hStart.tail.skip, Outcome.ok_bind, hName.readAssignment, Outcome.ok_bind, hRead]
    exact .inr rfl
  | case6 c tail hClose hSelfClose hSlash hText value after hRead =>
    rw [hText] at hStart
    have hName := hStart.tail.skipped isNameChar
    have hAfter := hName.suffix (suffix_of_readAssignment hRead)
    have hShort := length_readAssignment_le hRead
    have hSlice : Cursor.slice text start (start + 1 + (tail.takeWhile isNameChar).length) =
        c :: tail.takeWhile isNameChar := by
      refine Leaves.slice ?_ hName
      rwa [List.cons_append, List.takeWhile_append_dropWhile]
    rw [hStart.next_eq, if_neg hClose, if_neg hSlash,
      hStart.tail.skip, Outcome.ok_bind, hName.readAssignment, Outcome.ok_bind, hRead, hSlice]
    refine .inl ⟨text.size - after.length, after, [⟨c :: tail.takeWhile isNameChar, value⟩], rfl, ?_,
      hAfter, rfl⟩
    have hLength := hName.length
    omega

theorem attributes_end (h : Leaves text offset rest) (before : List AttributeText) :
    ∃ n ≤ rest.length, Pass.Ends (Cursor.attributePass text) n ⟨offset, before⟩
      ((readAttributes? rest).map fun parts =>
        ⟨text.size - parts.2.2.length, before ++ parts.1, parts.2.1⟩) := by
  induction hUnread : rest.length using Nat.strongRecOn generalizing offset rest before with
  | _ unreadLength ih =>
    rcases h.attributePass before with ⟨next, less, more, hPass, hNext, hLess, hRead⟩ | hPass
    · have hShort : less.length < unreadLength := by
        have := h.length
        have := hLess.length
        omega
      obtain ⟨n, hn, hEnds⟩ := ih less.length hShort hLess (before ++ more) rfl
      refine ⟨n + 1, by omega, ?_⟩
      simp only [hRead, Option.map_map, Function.comp_def, ← List.append_assoc]
      exact hEnds.step hPass
    · exact ⟨0, Nat.zero_le _, .here hPass⟩

theorem readStartTag {c : Char} (h : Leaves text offset ('<' :: c :: rest))
    (hLetter : isLetter c = true) :
    readStartTag text offset =
      .ok ((readStartTag? (c :: rest)).map fun parts =>
        (parts.1, text.size - parts.2.length)) := by
  have hName := h.tail.skipped isNameChar
  obtain ⟨n, hn, hEnds⟩ := hName.attributes_end []
  have hLength := hName.length
  rw [Cursor.readStartTag, h.tail.skip, Outcome.ok_bind, hEnds.loop_eq (by omega), Outcome.ok_bind,
    h.tail.slice_skipped, readStartTag?, if_pos hLetter, Option.map_map, Option.map_map]
  rfl

end Leaves

end Cursor

end Hypertext
