import Hypertext.Proofs.Token.Steps

/-! # The loops of a cursor end

Twice what is unread, and one more away from a `<`, becomes less with every step, because a step that
reads nothing comes to a `<` and the next one reads it. The loops within a tag read on with each pass.
-/

namespace Hypertext

set_option autoImplicit false

open Text

namespace Scan

variable {s : Scan} {casing : Casing}

theorem sound_step (casing : Casing) (hs : s.Sound) : (s.step casing).2.Sound := by
  rcases s.step_cases casing hs with
    ⟨-, hSound, -⟩ | ⟨lexeme, span, rest, mode, -, -, -, -, hMode, hStep⟩
  · exact hSound
  · rw [hStep]
    exact s.sound_emit lexeme hMode

theorem step_rest (casing : Casing) (hs : s.Sound) :
    (s.step casing).2.rest <:+ s.rest ∧
      (s.mode = .tagOpen → (s.step casing).2.rest.length < s.rest.length) ∧
      (s.mode ≠ .tagOpen → s.rest ≠ [] → (s.step casing).2.rest = s.rest →
        (s.step casing).2.mode = .tagOpen) := by
  cases hMode : s.mode with
  | data =>
    rw [step, hMode]
    refine ⟨List.dropWhile_suffix _, by rintro ⟨⟩, ?_⟩
    rintro - hRest hSame
    exact if_neg fun hEnd => hRest (hSame.symm.trans hEnd)
  | raw element =>
    rw [step, hMode]
    refine ⟨⟨_, splitRaw_append element s.rest⟩, by rintro ⟨⟩, ?_⟩
    rintro - hRest hSame
    exact if_neg fun hEnd => hRest (hSame.symm.trans hEnd)
  | tagOpen =>
    obtain ⟨tail, hTail⟩ := hs.opens hMode
    rw [step, hMode]
    dsimp only
    cases hConstruct : construct? casing s.rest with
    | none =>
      rw [hTail]
      exact ⟨List.suffix_cons _ _, fun _ => Nat.lt_succ_self _, fun hOther => absurd rfl hOther⟩
    | some found =>
      obtain ⟨lexeme, rest, mode⟩ := found
      have hShort := length_construct_lt hConstruct
      rw [hTail] at hConstruct
      obtain ⟨span, hText, -⟩ := spells_construct hConstruct
      exact ⟨⟨span, hText.symm.trans hTail.symm⟩, fun _ => hShort, fun hOther => absurd rfl hOther⟩

end Scan

namespace Cursor

variable {text : Array Char}

/-! ## Loops within a tag -/

/-- The loops within a tag end from every offset of the text, and leave the cursor within it. -/
structure TagLoops (text : Array Char) : Prop where
  skips : ∀ test offset, offset ≤ text.size →
    ∃ n, Pass.Ends (skipPass text test) n offset (offset + n) ∧ offset + n ≤ text.size
  value : ∀ offset, offset ≤ text.size →
    ∃ found, readValue text offset = .ok found ∧
      ∀ next value, found = some (next, value) → offset ≤ next ∧ next ≤ text.size
  eachAttribute : ∀ listed : Listed, listed.offset ≤ text.size →
    ∃ pass, attributePass text listed = .ok pass ∧
      ∀ next, pass = .again next → listed.offset < next.offset ∧ next.offset ≤ text.size
  allAttributes : ∀ listed : Listed, listed.offset ≤ text.size →
    ∃ n ≤ text.size - listed.offset, ∃ found, Pass.Ends (attributePass text) n listed found ∧
      ∀ ending, found = some ending → listed.offset < ending.offset ∧ ending.offset ≤ text.size
  startTag : ∀ start, start < text.size →
    ∃ found, readStartTag text start = .ok found ∧
      ∀ tag next, found = some (tag, next) → start < next ∧ next ≤ text.size

theorem Leaves.allAttributes {offset : Nat} {rest : List Char} (h : Leaves text offset rest)
    (before : List AttributeText) :
    ∃ n ≤ text.size - offset, ∃ found,
      Pass.Ends (Cursor.attributePass text) n ⟨offset, before⟩ found ∧
      ∀ ending, found = some ending → offset < ending.offset ∧ ending.offset ≤ text.size := by
  have hLength := h.length
  obtain ⟨n, hn, hEnds⟩ := h.attributes_end before
  refine ⟨n, by omega, _, hEnds, ?_⟩
  intro ending hFound
  simp only [Option.map_eq_some_iff, Prod.exists] at hFound
  obtain ⟨attributes, selfClosing, after, hRead, rfl⟩ := hFound
  have hShort := (suffix_of_readAttributes _ hRead).length_le
  rw [List.length_cons] at hShort
  dsimp only
  omega

theorem tagLoops (text : Array Char) : TagLoops text where
  skips test offset hOffset := by
    have hLeaves := Leaves.of_le hOffset
    exact ⟨_, hLeaves.skip_ends test, (hLeaves.skipped test).le⟩
  value offset hOffset := by
    have hLeaves := Leaves.of_le hOffset
    refine ⟨_, hLeaves.readValue, ?_⟩
    intro next value hFound
    simp only [Option.map_eq_some_iff, Prod.mk.injEq, Prod.exists] at hFound
    obtain ⟨value, rest, hRead, rfl, -⟩ := hFound
    have hShort := (suffix_of_readValue hRead).length_le
    have hLength := hLeaves.length
    omega
  eachAttribute listed hOffset := by
    have hLeaves := Leaves.of_le hOffset
    rcases hLeaves.attributePass listed.attributes with
      ⟨next, less, more, hPass, hNext, hLess, -⟩ | hPass
    · refine ⟨_, hPass, ?_⟩
      rintro next ⟨⟩
      exact ⟨hNext, hLess.le⟩
    · refine ⟨_, hPass, ?_⟩
      rintro next ⟨⟩
  allAttributes listed hOffset := (Leaves.of_le hOffset).allAttributes listed.attributes
  startTag start hStart := by
    have hName := (Leaves.of_le hStart).skipped isNameChar
    obtain ⟨n, hn, found, hEnds, hFound⟩ := hName.allAttributes []
    rw [Cursor.readStartTag, (Leaves.of_le hStart).skip, Outcome.ok_bind,
      hEnds.loop_eq (by omega), Outcome.ok_bind]
    refine ⟨_, rfl, ?_⟩
    intro tag next hTag
    simp only [Option.map_eq_some_iff, Prod.mk.injEq] at hTag
    obtain ⟨ending, hEnding, -, rfl⟩ := hTag
    have hWithin := hFound ending hEnding
    omega

/-! ## The loop over the steps -/

/-- What one step of a cursor comes to: a `<` is passed over, and a step that reads nothing comes to
one. -/
structure Reads (text : Array Char) (s next : Cursor) : Prop where
  ge : s.offset ≤ next.offset
  le : next.offset ≤ text.size
  passes : s.mode = .tagOpen → s.offset < next.offset
  opens : s.mode ≠ .tagOpen → next.offset = s.offset →
    next.mode = .tagOpen ∧ charAt text next.offset = .ok '<'

theorem Follows.opens {s : Cursor} {t : Scan} (h : Follows text s t) (hSound : t.Sound)
    (hMode : s.mode = .tagOpen) : charAt text s.offset = .ok '<' := by
  obtain ⟨tail, hTail⟩ := hSound.opens (h.mode_eq.symm.trans hMode)
  exact (h.leaves_eq hTail).charAt

theorem Follows.reads {s next : Cursor} {t : Scan} {casing : Casing} (h : Follows text s t)
    (hSound : t.Sound) (hLess : s.offset < text.size) (hNext : Follows text next (t.step casing).2) :
    Reads text s next := by
  obtain ⟨hSuffix, hPasses, hOpens⟩ := t.step_rest casing hSound
  have hLength := h.leaves.length
  have hNextLength := hNext.leaves.length
  have hShort := hSuffix.length_le
  refine ⟨by omega, hNext.leaves.le, ?_, ?_⟩
  · intro hMode
    have := hPasses (h.mode_eq.symm.trans hMode)
    omega
  · intro hMode hSame
    have hRest : (t.step casing).2.rest = t.rest := hSuffix.eq_of_length (by omega)
    have hOpen : next.mode = .tagOpen := hNext.mode_eq.trans
      (hOpens (fun hTag => hMode (h.mode_eq.trans hTag)) (h.leaves.lt_iff.mp hLess) hRest)
    exact ⟨hOpen, hNext.opens (t.sound_step casing hSound) hOpen⟩

section Passes

variable {casing : Casing} {s : Cursor} {t : Scan}

theorem Follows.stepPass (h : Follows text s t) (hSound : t.Sound) (hLess : s.offset < text.size)
    (casing : Casing) :
    ∃ next, stepPass text (lineStarts text.toList) casing s = .ok (.again next) ∧
      Advances text s next (t.step casing) := by
  obtain ⟨next, hStep, hAdvances⟩ := h.step hSound hLess casing
  refine ⟨next, ?_, hAdvances⟩
  rw [Cursor.stepPass, if_pos hLess, hStep]
  rfl

theorem Follows.leads {n : Nat} {u : Cursor} (h : Follows text s t) (hSound : t.Sound)
    (hLeads : Pass.Leads (Cursor.stepPass text (lineStarts text.toList) casing) n s u) :
    ∃ v : Scan, Follows text u v ∧ v.Sound ∧ n + v.measure ≤ t.measure := by
  induction hLeads generalizing t with
  | refl s => exact ⟨t, h, hSound, by omega⟩
  | @step n s next u hPass _ ih =>
    by_cases hLess : s.offset < text.size
    · obtain ⟨next', hPass', hAdvances⟩ := h.stepPass hSound hLess casing
      rw [hPass'] at hPass
      cases hPass
      obtain ⟨v, hFollows, hSoundLast, hMeasure⟩ := ih hAdvances.follows (t.sound_step casing hSound)
      have hLess := t.measure_step_lt casing (h.leaves.lt_iff.mp hLess)
      exact ⟨v, hFollows, hSoundLast, by omega⟩
    · rw [Cursor.stepPass, if_neg hLess] at hPass
      cases hPass

theorem run_ends (casing : Casing) (s : Cursor) (t : Scan) (h : Follows text s t) (hSound : t.Sound) :
    ∃ n ≤ t.measure, ∃ last,
      Pass.Ends (Cursor.stepPass text (lineStarts text.toList) casing) n s last ∧
      flush text (lineStarts text.toList) last text.size =
        .ok { last with heldFrom := none, tokens := s.tokens ++ (t.run casing).toArray } := by
  rw [Scan.run]
  split
  · rename_i hRest
    have hEnd := (h.leaves_eq hRest).not_lt
    have hSize : s.offset = text.size := Nat.le_antisymm h.leaves.le (Nat.le_of_not_lt hEnd)
    refine ⟨0, Nat.zero_le _, s, .here ?_, ?_⟩
    · rw [Cursor.stepPass, if_neg hEnd]
    · rw [← hSize]
      exact h.flush_eq
  · rename_i hRest
    have hMeasure := t.measure_step_lt casing hRest
    obtain ⟨next, hPass, hFollows, hTokens⟩ :=
      h.stepPass hSound (h.leaves.lt_iff.mpr hRest) casing
    obtain ⟨n, hn, last, hEnds, hFlush⟩ := run_ends casing next _ hFollows (t.sound_step casing hSound)
    refine ⟨n + 1, by omega, last, hEnds.step hPass, ?_⟩
    rw [hFlush, hTokens, Array.append_assoc, List.append_toArray (t.step casing).1]
termination_by t.measure

end Passes

theorem measure_begin (text : List Char) : (Scan.begin text).measure = 2 * text.length + 1 := rfl

theorem scan_eq (casing : Casing) (markup : String) :
    scan casing markup = .ok (Token.scan casing markup) := by
  obtain ⟨n, hn, last, hEnds, hFlush⟩ := run_ends casing begin _
    (follows_begin markup.toList) (Scan.sound_begin markup.toList)
  rw [measure_begin] at hn
  rw [scan, hEnds.loop_eq (by simp; omega), Outcome.ok_bind, hFlush, Outcome.ok_bind]
  simp [begin, Token.scan, pure, Except.pure]

/-- The loop over the steps of a cursor, from the beginning of its text on. -/
structure StepLoop (text : Array Char) (starts : Array Nat) (casing : Casing) : Prop where
  bounded : ∀ n s, Pass.Leads (stepPass text starts casing) n begin s → n ≤ 2 * text.size + 1
  within : ∀ n s, Pass.Leads (stepPass text starts casing) n begin s → s.offset ≤ text.size
  opens : ∀ n s, Pass.Leads (stepPass text starts casing) n begin s → s.mode = .tagOpen →
    charAt text s.offset = .ok '<'
  reads : ∀ n s, Pass.Leads (stepPass text starts casing) n begin s → s.offset < text.size →
    ∃ next, step text starts casing s = .ok next ∧ Reads text s next
  ends : ∃ n ≤ 2 * text.size + 1, ∃ last, Pass.Ends (stepPass text starts casing) n begin last

/-- Every loop of a cursor over a text ends, and none of them reads what is not there: twice as many
steps as there are characters and one more are enough, and the tokens are found. -/
theorem loops_end (casing : Casing) (markup : String) :
    TagLoops markup.toList.toArray ∧
      StepLoop markup.toList.toArray (lineStarts markup.toList) casing ∧
      scan casing markup = .ok (Token.scan casing markup) := by
  have hFollows := follows_begin markup.toList
  have hSound := Scan.sound_begin markup.toList
  have hReached {n : Nat} {s : Cursor}
      (hLeads : Pass.Leads (stepPass markup.toList.toArray (lineStarts markup.toList) casing) n begin s) :
      ∃ t : Scan, Follows markup.toList.toArray s t ∧ t.Sound ∧
        n + t.measure ≤ 2 * markup.toList.length + 1 :=
    hFollows.leads hSound hLeads
  refine ⟨tagLoops _, ⟨?_, ?_, ?_, ?_, ?_⟩, scan_eq casing markup⟩
  · intro n s hLeads
    obtain ⟨t, -, -, hMeasure⟩ := hReached hLeads
    rw [List.size_toArray]
    omega
  · intro n s hLeads
    obtain ⟨t, hHere, -⟩ := hReached hLeads
    exact hHere.leaves.le
  · intro n s hLeads
    obtain ⟨t, hHere, hSoundHere, -⟩ := hReached hLeads
    exact hHere.opens hSoundHere
  · intro n s hLeads hLess
    obtain ⟨t, hHere, hSoundHere, -⟩ := hReached hLeads
    obtain ⟨next, hStep, hNext, -⟩ := hHere.step hSoundHere hLess casing
    exact ⟨next, hStep, hHere.reads hSoundHere hLess hNext⟩
  · obtain ⟨n, hn, last, hEnds, -⟩ := run_ends casing begin _ hFollows hSound
    exact ⟨n, hn, last, hEnds⟩

end Cursor

end Hypertext
