import Hypertext.Proofs.Render.Legible
import Hypertext.Proofs.Token.RawText
import Hypertext.Proofs.Token.Stream
import Hypertext.Proofs.Token.Tiling

/-! # What scanning gives out

Every lexeme shows the form in which it was read: names end where they have to, a directive has one
`>`, a comment is closed at its first closing mark or not at all. Behind the start tag of a raw
element stands its text with an end tag, unless the rest of the markup has no end tag at all. The
stream is followed by one induction principle, in which held text grows until a construct begins.
-/

namespace Hypertext

set_option autoImplicit false

open Text

/-! ## Marks -/

theorem not_infix_of_breakAfter_eq_none {mark text : List Char} (hMark : mark ≠ [])
    (h : breakAfter mark text = none) : ¬ mark <:+: text := by
  induction text with
  | nil =>
    intro hInfix
    exact hMark (List.infix_nil.mp hInfix)
  | cons c text ih =>
    unfold breakAfter at h
    split at h
    · cases h
    · rename_i hPrefix
      intro hInfix
      rcases List.infix_cons_iff.mp hInfix with hHere | hLater
      · exact hPrefix (List.isPrefixOf_iff_prefix.mpr hHere)
      · exact ih (Option.map_eq_none_iff.mp h) hLater

theorem breakAfter_fresh {mark text first rest : List Char} (hMark : mark ≠ [])
    (h : breakAfter mark text = some (first, rest)) :
    ∃ inner, first = inner ++ mark ∧ ¬ mark <:+: inner ++ mark.dropLast := by
  induction text generalizing first with
  | nil =>
    unfold breakAfter at h
    split at h
    · rename_i hEmpty
      exact absurd (List.isEmpty_iff.mp hEmpty) hMark
    · cases h
  | cons c text ih =>
    have hText := breakAfter_append h
    have hLength := List.length_pos_iff.mpr hMark
    unfold breakAfter at h
    split at h
    · rename_i hPrefix
      simp only [Option.some.injEq, Prod.mk.injEq] at h
      refine ⟨[], ?_, ?_⟩
      · rw [← h.1, List.nil_append]
        exact (List.prefix_iff_eq_take.mp (List.isPrefixOf_iff_prefix.mp hPrefix)).symm
      · intro hInfix
        have hShort := hInfix.length_le
        rw [List.nil_append, List.length_dropLast] at hShort
        omega
    · rename_i hPrefix
      simp only [Option.map_eq_some_iff, Prod.mk.injEq, Prod.exists] at h
      obtain ⟨first', rest', hBreak, rfl, rfl⟩ := h
      obtain ⟨inner, rfl, hFresh⟩ := ih hBreak
      refine ⟨c :: inner, rfl, ?_⟩
      intro hInfix
      rcases List.infix_cons_iff.mp hInfix with hHere | hLater
      · have hWhole : c :: (inner ++ mark.dropLast) <+: c :: text := by
          rw [← hText, List.cons_append, List.append_assoc]
          refine (List.prefix_cons_inj c).mpr ((List.prefix_append_right_inj inner).mpr ?_)
          exact (List.dropLast_prefix mark).trans (List.prefix_append mark rest')
        exact hPrefix (List.isPrefixOf_iff_prefix.mpr (hHere.trans hWhole))
      · exact hFresh hLater

theorem isComment_of_readComment {text comment rest : List Char}
    (h : readComment? text = some (comment, rest)) :
    IsComment comment ∨ ¬ commentClose <:+: comment.drop 4 := by
  unfold readComment? at h
  split at h
  · split at h
    · rename_i inner after hBreak
      simp only [Option.some.injEq, Prod.mk.injEq] at h
      obtain ⟨before, rfl, hFresh⟩ := breakAfter_fresh (by decide) hBreak
      apply Or.inl
      refine ⟨before, by rw [← h.1, List.append_assoc], ?_⟩
      intro hInfix
      exact hFresh (hInfix.trans (List.prefix_append _ _).isInfix)
    · rename_i hBreak
      simp only [Option.some.injEq, Prod.mk.injEq] at h
      rw [← h.1]
      exact Or.inr (not_infix_of_breakAfter_eq_none (by decide) hBreak)
  · cases h

theorem isDirective_of_breakAfter {text first rest : List Char} (hOpen : opensDirective text = true)
    (hComment : ¬ commentOpen <+: text) (h : breakAfter ['>'] text = some (first, rest)) :
    IsDirective first := by
  have hText := breakAfter_append h
  obtain ⟨inner, rfl, hFresh⟩ := breakAfter_fresh (List.cons_ne_nil _ _) h
  have hNot : '>' ∉ inner := by
    intro hMem
    apply hFresh
    obtain ⟨before, after, rfl⟩ := List.append_of_mem hMem
    exact ⟨before, after, by simp⟩
  obtain ⟨c, tail, rfl, hMark⟩ : ∃ c tail, text = '<' :: c :: tail ∧ (c = '!' ∨ c = '?') := by
    unfold opensDirective at hOpen
    split at hOpen
    · exact ⟨_, _, rfl, Or.inl rfl⟩
    · exact ⟨_, _, rfl, Or.inr rfl⟩
    · cases hOpen
  -- Neither of the first two characters is the `>`.
  match inner, hText, hNot with
  | [], hText, _ => cases hText
  | [d], hText, _ =>
    have hEnd : '>' = c := by simpa using (List.cons.inj (List.cons.inj hText).2).1
    rcases hMark with rfl | rfl <;> cases hEnd
  | d :: e :: inner, hText, hNot =>
    obtain ⟨rfl, hTail⟩ := List.cons.inj hText
    obtain ⟨rfl, -⟩ := List.cons.inj hTail
    refine ⟨_, inner, rfl, hMark, ?_, ?_⟩
    · intro hMem
      exact hNot (List.mem_cons_of_mem _ (List.mem_cons_of_mem _ hMem))
    · intro hPrefix
      apply hComment
      rw [← hText]
      exact hPrefix.trans (List.prefix_append _ rest)

/-! ## Tags -/

theorem takenName_of_readAttributes (text : List Char) {attributes : List AttributeText}
    {selfClosing : Bool} {rest : List Char}
    (h : readAttributes? text = some (attributes, selfClosing, rest)) :
    ∀ a ∈ attributes, TakenName a.name := by
  fun_induction readAttributes? text generalizing attributes selfClosing rest with
  | case1 => cases h
  | case2 text tail hText =>
    obtain ⟨rfl, -⟩ := Prod.mk.inj (Option.some.inj h)
    intro a ha
    cases ha
  | case3 text tail hText =>
    obtain ⟨rfl, -⟩ := Prod.mk.inj (Option.some.inj h)
    intro a ha
    cases ha
  | case4 text tail _ hText ih => exact ih h
  | case5 => cases h
  | case6 text c tail hEnd hSelfClose hSlash hText value after hRead ih =>
    simp only [Option.map_eq_some_iff, Prod.mk.injEq, Prod.exists] at h
    obtain ⟨others, selfClosing', rest', hOthers, rfl, -, -⟩ := h
    intro a ha
    rcases List.mem_cons.mp ha with rfl | ha
    · have hSpacing := head?_dropWhile_eq_false isSpacing text c
      rw [hText] at hSpacing
      refine ⟨c, tail.takeWhile isNameChar, rfl, hSpacing rfl, ?_, ?_, ?_⟩
      · rintro rfl
        exact hSlash rfl
      · rintro rfl
        exact hEnd rfl
      · exact fun d hd => List.all_eq_true.mp List.all_takeWhile d hd
    · exact ih hOthers a ha

theorem not_mem_of_readEndTag_eq_none {text : List Char}
    (hName : (text.dropWhile isBlank).takeWhile isEndNameChar ≠ [])
    (h : readEndTag? text = none) : '>' ∉ text := by
  unfold readEndTag? at h
  dsimp only at h
  rw [if_neg (fun hEmpty => hName (List.isEmpty_iff.mp hEmpty)), Option.map_eq_none_iff] at h
  have hAfter := not_infix_of_breakAfter_eq_none (List.cons_ne_nil _ _) h
  intro hMem
  rw [← @List.takeWhile_append_dropWhile _ isBlank text, List.mem_append,
    ← @List.takeWhile_append_dropWhile _ isEndNameChar (text.dropWhile isBlank), List.mem_append]
    at hMem
  rcases hMem with hBlank | hNamed | hLast
  · exact absurd (List.all_eq_true.mp List.all_takeWhile _ hBlank) (by decide)
  · exact absurd (List.all_eq_true.mp List.all_takeWhile _ hNamed) (by decide)
  · obtain ⟨before, after, hText⟩ := List.append_of_mem hLast
    exact hAfter ⟨before, after, by rw [hText]; simp⟩

/-! ## Raw text -/

theorem takeWhile_ne_nil_of_dropAlike (element : RawElement) {text left : List Char}
    (h : dropAlike element.name.toList (text.dropWhile isBlank) = some left) :
    (text.dropWhile isBlank).takeWhile isEndNameChar ≠ [] := by
  have hFirst := head?_dropWhile_eq_false isBlank text
  generalize text.dropWhile isBlank = name at h hFirst
  cases name with
  | nil => cases element <;> cases h
  | cons c name =>
    have hAlike : alike 's' c = true := by
      cases element <;>
      · change (if alike 's' c then _ else none) = some left at h
        split at h
        · assumption
        · cases h
    have hChar : isEndNameChar c = true := by
      have hNe (d : Char) (hd : alike 's' d = false) : c ≠ d := by
        rintro rfl
        rw [hAlike] at hd
        cases hd
      rw [isEndNameChar, hFirst c rfl, decide_eq_true (hNe '/' (by decide)),
        decide_eq_true (hNe '>' (by decide))]
      rfl
    rw [List.takeWhile_cons_of_pos hChar]
    exact List.cons_ne_nil _ _

theorem dropAlike_append_some {name text left : List Char} (rest : List Char)
    (h : dropAlike name text = some left) : dropAlike name (text ++ rest) = some (left ++ rest) := by
  induction name generalizing text with
  | nil =>
    cases h
    rfl
  | cons c name ih =>
    cases text with
    | nil => cases h
    | cons d text =>
      rw [dropAlike] at h
      rw [List.cons_append, dropAlike]
      split at h
      · rename_i hAlike
        rw [if_pos hAlike]
        exact ih h
      · cases h

theorem endsRaw_of_prefix {element : RawElement} {text : List Char} (rest : List Char)
    (h : endsRaw element text = true) : endsRaw element (text ++ rest) = true := by
  unfold endsRaw at h
  split at h
  · rename_i inner
    split at h
    · rename_i c left hLeft
      have hBlank : (inner ++ rest).dropWhile isBlank = inner.dropWhile isBlank ++ rest := by
        rw [List.dropWhile_append, if_neg]
        intro hEmpty
        rw [List.isEmpty_iff.mp hEmpty] at hLeft
        cases element <;> cases hLeft
      simp only [List.cons_append, endsRaw, hBlank, dropAlike_append_some rest hLeft]
      exact h
    · cases h
  · cases h

theorem isRaw_splitRaw (element : RawElement) (text : List Char) :
    IsRaw element (splitRaw element text).1 := by
  induction text with
  | nil =>
    intro inner hInner
    rw [List.suffix_nil.mp hInner]
    rfl
  | cons c text ih =>
    have hText := splitRaw_append element (c :: text)
    unfold splitRaw at hText ⊢
    split
    · intro inner hInner
      rw [List.suffix_nil.mp hInner]
      rfl
    · rename_i hEnds
      rw [if_neg hEnds] at hText
      intro inner hInner
      rcases List.suffix_cons_iff.mp hInner with rfl | hLater
      · apply Bool.eq_false_iff.mpr
        intro hHere
        apply hEnds
        rw [← hText]
        exact endsRaw_of_prefix _ hHere
      · exact ih inner hLater

theorem endsRaw_splitRaw (element : RawElement) (text : List Char)
    (h : (splitRaw element text).2 ≠ []) : endsRaw element (splitRaw element text).2 = true := by
  induction text with
  | nil => exact absurd rfl h
  | cons c text ih =>
    unfold splitRaw at h ⊢
    split
    · assumption
    · rename_i hEnds
      rw [if_neg hEnds] at h
      exact ih h

/-! ## Following the stream -/

namespace Scan

variable {casing : Casing}

theorem stream_takeRaw {mode : Mode} (hMode : mode ≠ .tagOpen) (text : List Char) :
    stream casing mode [] text =
      stream casing .data (mode.takeRaw text).1 (mode.takeRaw text).2 := by
  cases mode with
  | data => rfl
  | tagOpen => exact absurd rfl hMode
  | raw element => exact stream_raw casing element [] text

/-- A stream in data either takes a character into the held text or gives out a construct and goes
on behind it, with raw text held already. -/
theorem data_induction (casing : Casing) {motive : List Char → List Char → Prop}
    (nil : ∀ held, motive held [])
    (char : ∀ held c rest,
      stream casing .data held (c :: rest) = stream casing .data (held ++ [c]) rest →
      motive (held ++ [c]) rest → motive held (c :: rest))
    (construct : ∀ held tail lexeme rest mode,
      construct? casing ('<' :: tail) = some (lexeme, rest, mode) →
      stream casing .data held ('<' :: tail) = heldLexemes held ++
        lexeme :: stream casing .data (mode.takeRaw rest).1 (mode.takeRaw rest).2 →
      motive (mode.takeRaw rest).1 (mode.takeRaw rest).2 → motive held ('<' :: tail))
    (held text : List Char) : motive held text := by
  induction hLength : text.length using Nat.strongRecOn generalizing held text with
  | ind length ih =>
    cases text with
    | nil => exact nil held
    | cons c rest =>
      rw [List.length_cons] at hLength
      have hChar (hStream : stream casing .data held (c :: rest) =
          stream casing .data (held ++ [c]) rest) : motive held (c :: rest) :=
        char held c rest hStream (ih _ (by omega) _ _ rfl)
      by_cases hOpen : c = '<'
      · subst hOpen
        cases hConstruct : construct? casing ('<' :: rest) with
        | none => exact hChar (stream_data_literal casing held hConstruct)
        | some read =>
          obtain ⟨lexeme, after, mode⟩ := read
          have hShort := length_construct_lt hConstruct
          have hTaken := congrArg List.length (mode.takeRaw_append after)
          rw [List.length_append] at hTaken
          rw [List.length_cons] at hShort
          refine construct held rest lexeme after mode hConstruct ?_ (ih _ (by omega) _ _ rfl)
          rw [stream_data_construct casing held hConstruct,
            stream_takeRaw (construct_mode_ne hConstruct)]
      · exact hChar (stream_data_char casing held rest hOpen)

theorem not_mem_heldLexemes {lexeme : Lexeme} (held : List Char) (hKind : lexeme.kind ≠ .text) :
    lexeme ∉ heldLexemes held := by
  unfold heldLexemes
  split
  · exact List.not_mem_nil
  · intro hMem
    rw [List.mem_singleton.mp hMem] at hKind
    exact hKind rfl

theorem endTag_not_mem_stream (held : List Char) {text : List Char} (hText : '>' ∉ text)
    (name : String) : .endTag name ∉ stream casing .data held text := by
  have hHeld (held : List Char) : .endTag name ∉ heldLexemes held :=
    not_mem_heldLexemes held (by rintro ⟨⟩)
  induction held, text using data_induction casing with
  | nil held =>
    rw [stream_nil]
    exact hHeld held
  | char held c rest hStream ih =>
    rw [hStream]
    exact ih fun hMem => hText (List.mem_cons_of_mem c hMem)
  | construct held tail lexeme rest mode hConstruct hStream ih =>
    obtain ⟨span, hSpan, -, -, hSpells⟩ := spells_construct hConstruct
    rw [hSpan, List.mem_append, not_or, ← mode.takeRaw_append rest, List.mem_append, not_or] at hText
    rw [hStream, List.mem_append, List.mem_cons]
    rintro (hMem | rfl | hMem)
    · exact hHeld held hMem
    · obtain ⟨-, blanks, source, after, rfl, -, hTag, -⟩ := hSpells
      apply hText.1
      have hMem : '>' ∈ after := List.mem_of_getLast? hTag.closes
      simp [hMem]
    · exact ih hText.2.2 hMem

end Scan

/-! ## The lexemes of a text -/

abbrev Casing.asWritten : Casing := ⟨false, false⟩

def Encloses (element : RawElement) (lexemes : List Lexeme) : Prop :=
  (∃ text name rest, lexemes = Scan.heldLexemes text ++ .endTag name :: rest ∧ IsRaw element text) ∨
    ∀ name, .endTag name ∉ lexemes

/-- A name of a start tag, up to the blanks that end tags have none of. -/
structure StartsTag (name : List Char) : Prop where
  first : ∃ c rest, name = c :: rest ∧ isLetter c = true
  chars : ∀ c ∈ name, isNameChar c = true

/-- What scanning makes of a lexeme, with the lexemes behind it; names are not put into another
case. -/
def Lexeme.IsScanned (lexeme : Lexeme) (rest : List Lexeme) : Prop :=
  match lexeme with
  | .text s => s ≠ "" ∧ ∀ next ∈ rest.head?, next.kind ≠ .text
  | .startTag name attributes selfClosing =>
    StartsTag name.toList ∧ (∀ a ∈ attributes, TakenName a.1.toList) ∧
      (selfClosing = false → ∀ element, RawElement.ofName? (lower name) = some element →
        Encloses element rest)
  | .endTag _ => True
  | .comment s => IsComment s.toList ∨ ¬ commentClose <:+: s.toList.drop 4
  | .directive s => IsDirective s.toList

def AllScanned (lexemes : List Lexeme) : Prop :=
  ∀ lexeme rest, (lexeme :: rest) <:+ lexemes → lexeme.IsScanned rest

theorem allScanned_nil : AllScanned [] := by
  intro lexeme rest hSuffix
  cases List.suffix_nil.mp hSuffix

theorem allScanned_cons {lexeme : Lexeme} {rest : List Lexeme} (hFirst : lexeme.IsScanned rest)
    (hRest : AllScanned rest) : AllScanned (lexeme :: rest) := by
  intro other after hSuffix
  rcases List.suffix_cons_iff.mp hSuffix with hHere | hLater
  · cases hHere
    exact hFirst
  · exact hRest other after hLater

theorem AllScanned.of_suffix {lexemes rest : List Lexeme} (h : AllScanned lexemes)
    (hSuffix : rest <:+ lexemes) : AllScanned rest :=
  fun lexeme after hAfter => h lexeme after (hAfter.trans hSuffix)

namespace Scan

theorem allScanned_heldLexemes_append (held : List Char) {rest : List Lexeme}
    (hNext : ∀ next ∈ rest.head?, next.kind ≠ .text) (hRest : AllScanned rest) :
    AllScanned (heldLexemes held ++ rest) := by
  unfold heldLexemes
  split
  · exact hRest
  · rename_i hHeld
    refine allScanned_cons ⟨?_, hNext⟩ hRest
    intro hEmpty
    apply hHeld
    rw [← String.toList_ofList (l := held), hEmpty]
    rfl

theorem encloses_stream {element : RawElement} (text : List Char) :
    Encloses element (stream .asWritten .data (splitRaw element text).1
      (splitRaw element text).2) := by
  by_cases hNil : (splitRaw element text).2 = []
  · rw [hNil, stream_nil]
    exact Or.inr fun name => not_mem_heldLexemes _ (by rintro ⟨⟩)
  · have hEnds := endsRaw_splitRaw element text hNil
    obtain ⟨tail, hTail⟩ := opens_splitRaw element text hNil
    rw [hTail] at hEnds ⊢
    unfold endsRaw at hEnds
    split at hEnds
    · rename_i inner hText
      cases hRead : readEndTag? inner with
      | some read =>
        obtain ⟨name, after⟩ := read
        have hConstruct : construct? .asWritten ('<' :: '/' :: inner) =
            some (.endTag (Casing.asWritten.tagName name), after, .data) := by
          rw [construct?_slash, hRead, Option.map_some]
        obtain rfl := (List.cons.inj hText).2
        rw [stream_data_construct _ _ hConstruct]
        exact Or.inl ⟨_, _, _, rfl, isRaw_splitRaw element text⟩
      | none =>
        apply Or.inr
        intro name
        apply endTag_not_mem_stream
        obtain rfl := (List.cons.inj hText).2
        have hInner : '>' ∉ inner := by
          apply not_mem_of_readEndTag_eq_none _ hRead
          split at hEnds
          · rename_i c left hLeft
            exact takeWhile_ne_nil_of_dropAlike element hLeft
          · cases hEnds
        intro hMem
        simp only [List.mem_cons, hInner, or_false] at hMem
        revert hMem
        decide
    · cases hEnds

theorem isScanned_startLexeme {text rest : List Char} {tag : StartTag}
    (h : readStartTag? text = some (tag, rest)) :
    (startLexeme .asWritten tag).IsScanned
      (stream .asWritten .data ((modeAfter tag).takeRaw rest).1
        ((modeAfter tag).takeRaw rest).2) := by
  obtain ⟨after, -, hLetter, hTag⟩ := readStartTag?_eq_some h
  have hName : Casing.asWritten.tagName tag.name = String.ofList tag.name := rfl
  refine ⟨?_, ?_, ?_⟩
  · rw [hName, String.toList_ofList]
    refine ⟨?_, hTag.named⟩
    cases hText : tag.name with
    | nil => exact absurd hText hTag.name_ne_nil
    | cons c inner => exact ⟨c, inner, rfl, hLetter c (by rw [hText]; rfl)⟩
  · unfold readStartTag? at h
    split at h
    · cases h
    · split at h
      · simp only [Option.map_eq_some_iff, Prod.mk.injEq, Prod.exists] at h
        obtain ⟨attributes, selfClosing, after, hRead, rfl, -⟩ := h
        intro a ha
        obtain ⟨taken, hTaken, rfl⟩ := List.mem_map.mp ha
        have hFirst : (Casing.asWritten.attributeName taken.name).toList = taken.name :=
          String.toList_ofList
        rw [hFirst]
        exact takenName_of_readAttributes _ hRead taken hTaken
      · cases h
  · intro hOpen element hElement
    have hMode : modeAfter tag = .raw element := by
      rw [hName, lower, String.toList_ofList] at hElement
      simp only [modeAfter, hOpen, hElement, Bool.false_eq_true, if_false]
    rw [hMode]
    exact encloses_stream rest

theorem isScanned_construct {tail rest : List Char} {lexeme : Lexeme} {mode : Mode}
    (h : construct? .asWritten ('<' :: tail) = some (lexeme, rest, mode)) :
    lexeme.IsScanned (stream .asWritten .data (mode.takeRaw rest).1 (mode.takeRaw rest).2) := by
  unfold construct? at h
  split at h
  · rename_i comment after hRead
    simp only [Option.some.injEq, Prod.mk.injEq] at h
    obtain ⟨rfl, -, -⟩ := h
    rw [Lexeme.IsScanned, String.toList_ofList]
    exact isComment_of_readComment hRead
  · rename_i hComment
    split at h
    · rename_i hOpen
      simp only [Option.map_eq_some_iff, Prod.mk.injEq, Prod.exists] at h
      obtain ⟨first, after, hBreak, rfl, -, -⟩ := h
      rw [Lexeme.IsScanned, String.toList_ofList]
      apply isDirective_of_breakAfter hOpen _ hBreak
      intro hPrefix
      rw [readComment?, if_pos (List.isPrefixOf_iff_prefix.mpr hPrefix)] at hComment
      split at hComment <;> cases hComment
    · split at h
      · simp only [Option.map_eq_some_iff, Prod.mk.injEq, Prod.exists] at h
        obtain ⟨name, after, -, rfl, -, -⟩ := h
        trivial
      · simp only [Option.map_eq_some_iff, Prod.mk.injEq, Prod.exists] at h
        obtain ⟨tag, after, hRead, rfl, rfl, rfl⟩ := h
        exact isScanned_startLexeme hRead
      · cases h

theorem construct?_kind_ne {casing : Casing} {tail rest : List Char} {lexeme : Lexeme} {mode : Mode}
    (h : construct? casing ('<' :: tail) = some (lexeme, rest, mode)) : lexeme.kind ≠ .text := by
  obtain ⟨-, -, -, hKind, -⟩ := spells_construct h
  exact hKind

theorem allScanned_stream (held text : List Char) :
    AllScanned (stream .asWritten .data held text) := by
  induction held, text using data_induction .asWritten with
  | nil held =>
    rw [stream_nil, ← List.append_nil (heldLexemes held)]
    exact allScanned_heldLexemes_append held (by rintro next ⟨⟩) allScanned_nil
  | char held c rest hStream ih =>
    rw [hStream]
    exact ih
  | construct held tail lexeme rest mode hConstruct hStream ih =>
    rw [hStream]
    apply allScanned_heldLexemes_append
    · rintro next ⟨⟩
      exact construct?_kind_ne hConstruct
    · exact allScanned_cons (isScanned_construct hConstruct) ih

end Scan

theorem allScanned_scan (text : String) :
    AllScanned ((Token.scan .asWritten text).map (·.lexeme)) := by
  rw [Scan.map_scan]
  exact Scan.allScanned_stream [] text.toList

end Hypertext
