import Hypertext.Parse
import Hypertext.Proofs.Forest.Nesting
import Hypertext.Proofs.Token.Restart
import Mathlib.Data.List.TakeWhile

/-! # Names in start tags and in end tags

The name of a start tag goes on to the next spacing, the name of an end tag to the next blank, and
there are more blanks than spacing. So a name with a blank in it is cut short in its end tag: the
element stays open, and what stands behind it becomes its content.
-/

namespace Hypertext

set_option autoImplicit false

open Text

/-! ## Blanks -/

namespace Text

/-- Ranges that hold all blanks, but neither letters nor characters that lower case changes. -/
def blankRanges : List (Nat × Nat) :=
  [(0, 0x20), (0x80, 0xa0), (0x1680, 0x1680), (0x2000, 0x205f), (0x3000, 0x3000)]

theorem exists_range_of_isBlank {c : Char} (h : isBlank c = true) :
    ∃ range ∈ blankRanges, range.1 ≤ c.toNat ∧ c.toNat ≤ range.2 := by
  simp only [isBlank, Bool.or_eq_true, Bool.and_eq_true, decide_eq_true_eq] at h
  simp only [blankRanges, List.exists_mem_cons_iff, List.not_mem_nil, false_and, exists_false]
  omega

theorem exists_range_of_covers {table : List (Nat × Nat)} {n : Nat} (h : covers table n = true) :
    ∃ range ∈ table, range.1 ≤ n ∧ n ≤ range.2 := by
  induction table with
  | nil => cases h
  | cons range rest ih =>
    obtain ⟨low, high⟩ := range
    unfold covers at h
    split at h
    · cases h
    · rename_i hLow
      rcases (Bool.or_eq_true _ _).mp h with hHigh | hRest
      · exact ⟨(low, high), List.mem_cons_self, Nat.le_of_not_lt hLow, of_decide_eq_true hHigh⟩
      · obtain ⟨range, hMem, hRange⟩ := ih hRest
        exact ⟨range, List.mem_cons_of_mem _ hMem, hRange⟩

theorem blankRanges_apart_letters : ∀ blanks ∈ blankRanges, ∀ letters ∈ letterRanges,
    blanks.2 < letters.1 ∨ letters.2 < blanks.1 := by
  decide +kernel

theorem not_isBlank_of_isLetter {c : Char} (h : isLetter c = true) : isBlank c = false := by
  by_contra hBlank
  obtain ⟨blanks, hBlanks, hLow, hHigh⟩ := exists_range_of_isBlank (Bool.of_not_eq_false hBlank)
  obtain ⟨letters, hLetters, hFrom, hTo⟩ := exists_range_of_covers h
  rcases blankRanges_apart_letters blanks hBlanks letters hLetters with hBefore | hBehind
  · omega
  · omega

theorem spares_blankRanges : ∀ blanks ∈ blankRanges,
    spares blanks.1 blanks.2 false loweringRows = true := by
  decide +kernel

theorem settled_of_isBlank {c : Char} (h : isBlank c = true) : IsSettled c := by
  obtain ⟨blanks, hBlanks, hLow, hHigh⟩ := exists_range_of_isBlank h
  refine ⟨?_, lowerCodePoint_of_spares (spares_blankRanges blanks hBlanks) hLow hHigh nofun⟩
  rintro rfl
  revert h
  decide

end Text

/-! ## Names of start tags -/

/-- Casing does not make a beginning of a name look like all of it. -/
theorem Casing.tagName_of_prefix {casing : Casing} {name text : List Char} (hPrefix : name <+: text)
    (h : casing.tagName name = casing.tagName text) : name = text := by
  obtain ⟨rest, rfl⟩ := hPrefix
  have hChars := String.ofList_injective h
  have hLength : rest.length = 0 := by
    split at hChars
    · have hLower := congrArg List.length hChars
      rw [lowerChars, lowerChars, length_lowerAfter, length_lowerAfter, List.length_append,
        List.count_append] at hLower
      omega
    · have hSame := congrArg List.length hChars
      rw [List.length_append] at hSame
      omega
  rw [List.length_eq_zero_iff.mp hLength, List.append_nil]

/-- A name that a start tag reads to its end. -/
structure NamesStartTag (name : List Char) : Prop where
  first : ∃ c rest, name = c :: rest ∧ isLetter c = true
  chars : ∀ c ∈ name, isNameChar c = true

theorem namesStartTag_of_scan {casing : Casing} {name : String} {attributes : List Attribute}
    {selfClosing : Bool}
    (h : (Token.scan casing ("<" ++ name ++ ">")).head?.map (·.lexeme) =
      some (.startTag (casing.tagName name.toList) attributes selfClosing)) :
    NamesStartTag name.toList := by
  have hText : ("<" ++ name ++ ">").toList = '<' :: (name.toList ++ ['>']) := by
    simp only [String.toList_append, List.append_assoc]
    rfl
  have hTiling := Token.tiling_scan casing ("<" ++ name ++ ">")
  rw [hText] at hTiling
  generalize Token.scan casing ("<" ++ name ++ ">") = tokens at h hTiling
  generalize hWhole : '<' :: (name.toList ++ ['>']) = text at hTiling
  cases hTiling with
  | nil => cases h
  | @cons _ lexeme span rest tokens _ hSpells =>
    obtain rfl : lexeme = .startTag (casing.tagName name.toList) attributes selfClosing :=
      Option.some.inj h
    obtain ⟨-, source, after, rfl, hFirst, hTag, hName⟩ := hSpells
    have hInner : name.toList ++ ['>'] = source ++ (after ++ rest) :=
      (List.cons.inj hWhole).2.trans (List.append_assoc _ _ _)
    have hAfter : 0 < after.length := by
      rw [List.length_pos_iff]
      rintro rfl
      cases hTag.closes
    -- The tag has its own `>` behind the name that was read, so that name ends inside the given one.
    have hPrefix : source <+: name.toList := by
      refine List.prefix_of_prefix_length_le ⟨_, hInner.symm⟩ (List.prefix_append _ _) ?_
      have hLength := congrArg List.length hInner
      simp only [List.length_append, List.length_singleton] at hLength
      omega
    obtain rfl : source = name.toList := Casing.tagName_of_prefix hPrefix hName.symm
    obtain ⟨c, tail, hCons⟩ := List.exists_cons_of_ne_nil hTag.name_ne_nil
    rw [hCons] at hFirst
    exact ⟨⟨c, tail, hCons, hFirst c rfl⟩, hTag.named⟩

def beforeBlank (name : List Char) : List Char := name.takeWhile fun c => !isBlank c

theorem prefix_beforeBlank (name : List Char) : beforeBlank name <+: name :=
  List.takeWhile_prefix _

theorem beforeBlank_eq_iff {name : List Char} :
    beforeBlank name = name ↔ ∀ c ∈ name, isBlank c = false := by
  simp only [beforeBlank, List.takeWhile_eq_self_iff, Bool.not_eq_true']

namespace NamesStartTag

variable {name : List Char}

theorem isEndNameChar_eq (h : NamesStartTag name) : ∀ c ∈ name, isEndNameChar c = !isBlank c := by
  intro c hc
  have hChar := h.chars c hc
  simp only [isNameChar, Bool.and_eq_true, decide_eq_true_eq] at hChar
  simp only [isEndNameChar, ne_eq, hChar.1.1.2, hChar.1.2, not_false_eq_true, decide_true,
    Bool.and_true]

theorem readStartTag?_eq (h : NamesStartTag name) (rest : List Char) :
    readStartTag? (name ++ '>' :: rest) = some (⟨name, [], false⟩, rest) :=
  readStartTag?_spelt h.first h.chars (by rintro c ⟨⟩; decide)
    (readAttributes?_close (List.dropWhile_cons_of_neg (by decide)))

theorem readEndTag?_eq (h : NamesStartTag name) (rest : List Char) :
    readEndTag? (name ++ '>' :: rest) = some (beforeBlank name, rest) := by
  have hSplit : beforeBlank name ++ name.dropWhile (fun c => !isBlank c) = name :=
    List.takeWhile_append_dropWhile
  -- What is left of the name is passed over up to the `>`, and there is none in a name.
  have hMem : ∀ c ∈ name.dropWhile (fun c => !isBlank c), c ∈ name :=
    fun c hc => (List.dropWhile_suffix _).subset hc
  conv => lhs; rw [← hSplit, List.append_assoc]
  apply readEndTag?_stopped
  · obtain ⟨c, tail, rfl, hLetter⟩ := h.first
    rw [beforeBlank, List.takeWhile_cons_of_pos (by rw [not_isBlank_of_isLetter hLetter]; rfl)]
    exact List.cons_ne_nil c _
  · intro c hc
    rw [h.isEndNameChar_eq c ((prefix_beforeBlank name).subset hc)]
    exact List.all_eq_true.mp List.all_takeWhile c hc
  · intro c hc
    rw [h.isEndNameChar_eq c (hMem c (List.mem_of_mem_head? hc))]
    exact head?_dropWhile_eq_false _ name c hc
  · intro hEnd
    have hChar := h.chars '>' (hMem '>' hEnd)
    revert hChar
    decide

/-! ## Scanning and building -/

theorem construct?_startTag (h : NamesStartTag name) (casing : Casing) (rest : List Char) :
    Scan.construct? casing ('<' :: (name ++ '>' :: rest)) =
      some (.startTag (casing.tagName name) [] false, rest,
        Scan.modeAfter ⟨name, [], false⟩) := by
  have hRead := h.readStartTag?_eq rest
  obtain ⟨c, tail, rfl, hLetter⟩ := h.first
  rw [List.cons_append, Scan.construct?_letter casing _ hLetter, ← List.cons_append, hRead]
  rfl

theorem construct?_endTag (h : NamesStartTag name) (casing : Casing) (rest : List Char) :
    Scan.construct? casing ('<' :: '/' :: (name ++ '>' :: rest)) =
      some (.endTag (casing.tagName (beforeBlank name)), rest, .data) := by
  rw [Scan.construct?_slash, h.readEndTag?_eq]
  rfl

theorem namesTag_of_raw (h : NamesStartTag name) {element : RawElement}
    (hElement : String.ofList (lowerChars name) = element.name) : NamesTag name where
  first := h.first
  chars c hc := by
    have hNone : element.name.toList.all (fun d => !isBlank d) = true := by
      cases element <;> decide
    refine ⟨h.chars c hc, ?_⟩
    by_contra hBlank
    have hMem : c ∈ element.name.toList := by
      rw [← hElement, String.toList_ofList]
      exact mem_lowerAfter_of_settled (settled_of_isBlank (Bool.of_not_eq_false hBlank)) hc []
    have hChar := List.all_eq_true.mp hNone c hMem
    rw [Bool.of_not_eq_false hBlank] at hChar
    cases hChar

/-- Behind a start tag its own end tag is read, even where the text is raw. -/
theorem stream_endTag (h : NamesStartTag name) (casing : Casing) (rest : List Char) :
    Scan.stream casing (Scan.modeAfter ⟨name, [], false⟩) [] ('<' :: '/' :: (name ++ '>' :: rest)) =
      .endTag (casing.tagName (beforeBlank name)) :: Scan.stream casing .data [] rest := by
  have hData := Scan.stream_data_construct casing [] (h.construct?_endTag casing rest)
  rw [Scan.modeAfter, if_neg Bool.false_ne_true]
  split
  · rename_i element hName
    have hElement := RawElement.name_of_ofName? hName
    have hEnds := endsRaw_endTag rest (h.namesTag_of_raw hElement) hElement
    rw [Scan.stream_raw, splitRaw, if_pos hEnds]
    exact hData
  · exact hData

theorem scan_endTag {name : String} (h : NamesStartTag name.toList) (casing : Casing) :
    Token.scan casing ("</" ++ name ++ ">") =
      [⟨.start, .endTag (casing.tagName (beforeBlank name.toList))⟩] := by
  have hText : ("</" ++ name ++ ">").toList = '<' :: '/' :: (name.toList ++ ['>']) := by
    simp only [String.toList_append, List.append_assoc]
    rfl
  have hTokens := Scan.tokensAt_construct .start (h.construct?_endTag casing [])
    (List.append_nil _).symm
  rw [Token.scan, hText]
  exact hTokens.trans (congrArg (List.cons _) (Scan.tokensAt_nil _))

theorem lexemes_parse {name : String} (h : NamesStartTag name.toList) (casing : Casing) :
    (Token.scan casing ("<" ++ name ++ "></" ++ name ++ ">x")).map (·.lexeme) =
      [.startTag (casing.tagName name.toList) [] false,
        .endTag (casing.tagName (beforeBlank name.toList)), .text "x"] := by
  have hText : ("<" ++ name ++ "></" ++ name ++ ">x").toList =
      '<' :: (name.toList ++ '>' :: '<' :: '/' :: (name.toList ++ ['>', 'x'])) := by
    simp only [String.toList_append, List.append_assoc]
    rfl
  rw [Scan.map_scan, hText,
    Scan.stream_data_construct casing [] (h.construct?_startTag casing _), h.stream_endTag,
    Scan.stream_data_char casing [] [] (by decide), Scan.stream_nil]
  rfl

end NamesStartTag

/-- An element with text behind its end tag. When the end tag has another name, the text is inside,
and both tags are repaired. -/
theorem build_startTag_endTag (recognizeSelfClosing : Bool) {tag : String} (text : String)
    (hVoid : isVoid (lower tag) = false) (name : String) :
    let built := Forest.build recognizeSelfClosing
      [.startTag tag [] false, .endTag name, .text text]
    (lower name = lower tag → built.1 = [.element tag [] [], .text text] ∧ built.2.repairs = 0) ∧
      (lower name ≠ lower tag →
        built.1 = [.element tag [] [.text text]] ∧ built.2.repairs = 2) := by
  intro built
  have hLeaf : Assembly.isLeaf recognizeSelfClosing tag false = false := by
    rw [Assembly.isLeaf, hVoid]
    rfl
  have hStart : Assembly.empty.addLexeme recognizeSelfClosing (.startTag tag [] false) =
      ⟨[], [⟨lower tag, tag, [], []⟩], ⟨1, 1, 0, 0⟩⟩ := by
    simp only [Assembly.addLexeme, hLeaf, Bool.false_eq_true, if_false]
    rfl
  constructor
  · intro hName
    have hFind : [OpenElement.mk (lower tag) tag [] []].findIdx? (·.name = lower name) = some 0 := by
      simp [hName]
    have hEnd := Assembly.addLexeme_endTag_of_some recognizeSelfClosing
      ⟨[], [⟨lower tag, tag, [], []⟩], ⟨1, 1, 0, 0⟩⟩ hFind
    simp only [built, Forest.build, List.foldl_cons, List.foldl_nil, hStart, hEnd]
    exact ⟨rfl, rfl⟩
  · intro hName
    have hFind : [OpenElement.mk (lower tag) tag [] []].findIdx? (·.name = lower name) = none := by
      simp [Ne.symm hName]
    have hEnd := Assembly.addLexeme_endTag_of_none recognizeSelfClosing
      ⟨[], [⟨lower tag, tag, [], []⟩], ⟨1, 1, 0, 0⟩⟩ hFind
    simp only [built, Forest.build, List.foldl_cons, List.foldl_nil, hStart, hEnd]
    exact ⟨rfl, rfl⟩

/-- A name that a start tag reads to its end is read by the end tag up to its first blank. The end tag
closes the element, and nothing is repaired, exactly when there is no blank in the name; otherwise what
stands behind the end tag is inside the element. -/
theorem endTag_closes {casing : Casing} {name : String} {attributes : List Attribute}
    {selfClosing : Bool}
    (hStart : (Token.scan casing ("<" ++ name ++ ">")).head?.map (·.lexeme) =
      some (.startTag (casing.tagName name.toList) attributes selfClosing)) :
    (∀ given : Casing,
      Token.scan given ("</" ++ name ++ ">") =
          [⟨.start, .endTag (given.tagName (beforeBlank name.toList))⟩] ∧
        (given.tagName (beforeBlank name.toList) = given.tagName name.toList ↔
          ∀ c ∈ name.toList, isBlank c = false)) ∧
    ∀ reading : Reading, isVoid (lower name) = false →
      let tag := reading.casing.tagName name.toList
      let parsed := parse reading ("<" ++ name ++ "></" ++ name ++ ">x")
      ((∀ c ∈ name.toList, isBlank c = false) →
        parsed.forest = [.element tag [] [], .text "x"] ∧ parsed.counts.repairs = 0) ∧
      ((∃ c ∈ name.toList, isBlank c = true) →
        parsed.forest = [.element tag [] [.text "x"]] ∧ parsed.counts.repairs = 2) := by
  have hNames := namesStartTag_of_scan hStart
  have hWhole (given : Casing) :
      given.tagName (beforeBlank name.toList) = given.tagName name.toList ↔
        ∀ c ∈ name.toList, isBlank c = false := by
    rw [← beforeBlank_eq_iff]
    exact ⟨Casing.tagName_of_prefix (prefix_beforeBlank _), congrArg _⟩
  refine ⟨fun given => ⟨hNames.scan_endTag given, hWhole given⟩, ?_⟩
  intro reading hVoid tag parsed
  have hTag : isVoid (lower tag) = false := by
    rwa [lower_tagName]
  have hName : lower (reading.casing.tagName (beforeBlank name.toList)) = lower tag ↔
      ∀ c ∈ name.toList, isBlank c = false := by
    have hLower := hWhole ⟨true, true⟩
    rwa [lower_tagName, lower_tagName]
  have hBuilt := build_startTag_endTag reading.recognizeSelfClosing "x" hTag
    (reading.casing.tagName (beforeBlank name.toList))
  rw [← hNames.lexemes_parse] at hBuilt
  refine ⟨fun hNone => hBuilt.1 (hName.mpr hNone), ?_⟩
  rintro ⟨c, hc, hBlank⟩
  refine hBuilt.2 fun hSame => ?_
  rw [hName.mp hSame c hc] at hBlank
  cases hBlank

/-- A name in capitals, and one with a blank that is no spacing. -/
theorem endTag_closes_mixed :
    let reading : Reading := ⟨⟨true, false⟩, true⟩
    (Token.scan ⟨false, false⟩ "<Svg>").head?.map (·.lexeme) = some (.startTag "Svg" [] false) ∧
      (parse reading "<Svg></Svg>x").forest = [.element "svg" [] [], .text "x"] ∧
      (Token.scan ⟨false, false⟩ "<a\u00a0b>").head?.map (·.lexeme) =
        some (.startTag "a\u00a0b" [] false) ∧
      Token.scan ⟨false, false⟩ "</a\u00a0b>" = [⟨.start, .endTag "a"⟩] ∧
      (parse reading "<a\u00a0b></a\u00a0b>x").forest = [.element "a\u00a0b" [] [.text "x"]] := by
  intro reading
  have hSvg : (Token.scan ⟨false, false⟩ "<Svg>").head?.map (·.lexeme) =
      some (.startTag "Svg" [] false) := by
    decide +kernel
  have hBlank : (Token.scan ⟨false, false⟩ "<a\u00a0b>").head?.map (·.lexeme) =
      some (.startTag "a\u00a0b" [] false) := by
    decide +kernel
  obtain ⟨-, hClosed⟩ := @endTag_closes ⟨false, false⟩ "Svg" [] false hSvg
  obtain ⟨hEnd, hOpen⟩ := @endTag_closes ⟨false, false⟩ "a\u00a0b" [] false hBlank
  have hNone : ∀ c ∈ "Svg".toList, isBlank c = false := beforeBlank_eq_iff.mp (by decide)
  refine ⟨hSvg, ?_, hBlank, (hEnd ⟨false, false⟩).1, ?_⟩
  · exact ((hClosed reading (by decide +kernel)).1 hNone).1
  · exact ((hOpen reading (by decide +kernel)).2 ⟨'\u00a0', by decide, by decide⟩).1

end Hypertext
