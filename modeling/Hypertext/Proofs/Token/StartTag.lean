import Hypertext.Proofs.Token.Restart

/-! # Every spelling of a start tag

Spacing is free between the parts of a start tag, attributes may be repeated, and each value may be
left out, be quoted in either way or stand as it is. Whichever way a tag is spelt, and whatever stands
behind it, scanning begins with that tag and goes on right behind its spelling.
-/

namespace Hypertext

set_option autoImplicit false

open Text

/-- Attributes as they stand behind the name of a tag, with spacing in front of each. -/
inductive AttributesSpelt : List AttributeText → List Char → Prop where
  | nil : AttributesSpelt [] []
  | cons {space name value assignment text : List Char} {attributes : List AttributeText}
    (hNe : space ≠ []) (hSpace : ∀ c ∈ space, isSpacing c = true) (hName : NamesAttribute name)
    (hValue : AssignmentSpelt value assignment) (hRest : AttributesSpelt attributes text) :
    AttributesSpelt (⟨name, value⟩ :: attributes) (space ++ (name ++ (assignment ++ text)))

/-- The end of a tag. A slash that closes the tag stands behind spacing: without it a value that is
not quoted would take it in. -/
inductive TagEndSpelt : Bool → List Char → Prop where
  | plain {space : List Char} (hSpace : ∀ c ∈ space, isSpacing c = true) :
    TagEndSpelt false (space ++ ['>'])
  | closing {space : List Char} (hNe : space ≠ []) (hSpace : ∀ c ∈ space, isSpacing c = true) :
    TagEndSpelt true (space ++ ['/', '>'])

inductive StartTag.Spelt : StartTag → List Char → Prop where
  | tag {name middle ending : List Char} {attributes : List AttributeText} {selfClosing : Bool}
    (hFirst : ∃ c tail, name = c :: tail ∧ isLetter c = true)
    (hName : ∀ c ∈ name, isNameChar c = true) (hAttributes : AttributesSpelt attributes middle)
    (hEnd : TagEndSpelt selfClosing ending) :
    Spelt ⟨name, attributes, selfClosing⟩ ('<' :: (name ++ (middle ++ ending)))

/-! ## Reading the parts -/

theorem isSpacing_of_mem_head? {space text : List Char} (hNe : space ≠ [])
    (hSpace : ∀ c ∈ space, isSpacing c = true) : ∀ c ∈ (space ++ text).head?, isSpacing c = true := by
  cases space with
  | nil => exact absurd rfl hNe
  | cons d space =>
    rintro c ⟨⟩
    exact hSpace d List.mem_cons_self

namespace TagEndSpelt

variable {selfClosing : Bool} {ending : List Char}

theorem endsAssignment (h : TagEndSpelt selfClosing ending) (rest : List Char) :
    EndsAssignment (ending ++ rest) := by
  cases h with
  | @plain space hSpace =>
    have hDrop : (space ++ ['>'] ++ rest).dropWhile isSpacing = '>' :: rest := by
      rw [List.append_assoc]
      exact dropWhile_append_stop hSpace (by rintro c ⟨⟩; decide)
    refine ⟨?_, by rw [hDrop]; rintro c ⟨⟩; decide⟩
    intro c hc
    by_cases hNe : space = []
    · subst hNe
      cases hc
      exact Or.inr rfl
    · rw [List.append_assoc] at hc
      exact Or.inl (isSpacing_of_mem_head? hNe hSpace c hc)
  | @closing space hNe hSpace =>
    have hDrop : (space ++ ['/', '>'] ++ rest).dropWhile isSpacing = '/' :: '>' :: rest := by
      rw [List.append_assoc]
      exact dropWhile_append_stop hSpace (by rintro c ⟨⟩; decide)
    refine ⟨?_, by rw [hDrop]; rintro c ⟨⟩; decide⟩
    intro c hc
    rw [List.append_assoc] at hc
    exact Or.inl (isSpacing_of_mem_head? hNe hSpace c hc)

theorem readAttributes?_eq (h : TagEndSpelt selfClosing ending) (rest : List Char) :
    readAttributes? (ending ++ rest) = some ([], selfClosing, rest) := by
  cases h with
  | plain hSpace =>
    apply readAttributes?_close
    rw [List.append_assoc]
    exact dropWhile_append_stop hSpace (by rintro c ⟨⟩; decide)
  | closing hNe hSpace =>
    apply readAttributes?_selfClose
    rw [List.append_assoc]
    exact dropWhile_append_stop hSpace (by rintro c ⟨⟩; decide)

end TagEndSpelt

namespace AttributesSpelt

variable {attributes : List AttributeText} {text tail rest : List Char} {selfClosing : Bool}

theorem endsAssignment (h : AttributesSpelt attributes text) (hTail : EndsAssignment tail) :
    EndsAssignment (text ++ tail) := by
  cases h with
  | nil => exact hTail
  | @cons space name value assignment text attributes hNe hSpace hName hValue hRest =>
    obtain ⟨c, after, rfl, hSpacing, -⟩ := hName.taken.first
    have hEqual : c ≠ '=' := by
      rintro rfl
      cases hName.chars '=' List.mem_cons_self
    have hDrop : (space ++ (c :: after ++ (assignment ++ text)) ++ tail).dropWhile isSpacing =
        c :: after ++ (assignment ++ text) ++ tail := by
      rw [List.append_assoc]
      exact dropWhile_append_stop hSpace (by rintro d ⟨⟩; exact hSpacing)
    refine ⟨?_, by rw [hDrop]; rintro d ⟨⟩; exact hEqual⟩
    intro d hd
    rw [List.append_assoc] at hd
    exact Or.inl (isSpacing_of_mem_head? hNe hSpace d hd)

theorem readAttributes?_eq (h : AttributesSpelt attributes text) (hTail : EndsAssignment tail)
    (hRead : readAttributes? tail = some ([], selfClosing, rest)) :
    readAttributes? (text ++ tail) = some (attributes, selfClosing, rest) := by
  induction h with
  | nil => exact hRead
  | @cons space name value assignment text attributes hNe hSpace hName hValue hRest ih =>
    have hEnds := hRest.endsAssignment hTail
    have hText : space ++ (name ++ (assignment ++ text)) ++ tail =
        space ++ (name ++ (assignment ++ (text ++ tail))) := by
      simp only [List.append_assoc]
    rw [hText, hName.taken.readAttributes?_behind hSpace (hValue.stops_name hEnds)
      (hValue.readAssignment?_eq hEnds), ih]
    rfl

end AttributesSpelt

theorem StartTag.Spelt.construct?_eq {tag : StartTag} {spelling : List Char}
    (h : tag.Spelt spelling) (casing : Casing) (rest : List Char) :
    Scan.construct? casing (spelling ++ rest) =
      some (Scan.startLexeme casing tag, rest, Scan.modeAfter tag) := by
  cases h with
  | @tag name middle ending attributes selfClosing hFirst hName hAttributes hEnd =>
    have hText : '<' :: (name ++ (middle ++ ending)) ++ rest =
        '<' :: (name ++ (middle ++ (ending ++ rest))) := by
      simp only [List.cons_append, List.append_assoc]
    have hEnds := hEnd.endsAssignment rest
    have hStart := readStartTag?_spelt hFirst hName (hAttributes.endsAssignment hEnds).stops_name
      (hAttributes.readAttributes?_eq hEnds (hEnd.readAttributes?_eq rest))
    obtain ⟨c, tail, rfl, hLetter⟩ := hFirst
    rw [hText, List.cons_append, Scan.construct?_letter casing _ hLetter, ← List.cons_append, hStart]
    rfl

/-! ## Reading the tag -/

namespace Token

/-- However a start tag is spelt, the first token is that tag, with its name, its attributes in order
and its closing slash as they were spelt, and it covers the spelling. -/
theorem scan_startTag (casing : Casing) {tag : StartTag} {spelling : List Char}
    (h : tag.Spelt spelling) (rest : List Char) :
    ∃ tokens,
      scan casing (String.ofList (spelling ++ rest)) =
        ⟨.start, .startTag (casing.tagName tag.name)
          (tag.attributes.map fun a => (casing.attributeName a.name, String.ofList a.value))
          tag.selfClosing⟩ :: tokens ∧
      (casing.tags = false → casing.tagName tag.name = String.ofList tag.name) ∧
      (casing.attributes = false → ∀ a ∈ tag.attributes,
        casing.attributeName a.name = String.ofList a.name) ∧
      (tokens = [] ↔ rest = []) ∧
      ∀ next ∈ tokens.head?, next.position.offset = spelling.length := by
  have hConstruct := h.construct?_eq casing rest
  obtain ⟨tail, rfl⟩ : ∃ tail, spelling = '<' :: tail := by
    cases h
    exact ⟨_, rfl⟩
  have hRun := (Scan.begin ('<' :: tail ++ rest)).run_data_construct rfl rfl hConstruct
  have hRead : (Scan.begin ('<' :: tail ++ rest)).read rest = '<' :: tail :=
    Scan.read_append _ rfl
  rw [hRead] at hRun
  have hTiling := Scan.tiling_run casing
    ⟨Scan.modeAfter tag, Position.start.after ('<' :: tail), rest, .start, []⟩
    ⟨rfl, fun hMode => absurd hMode (Scan.construct_mode_ne hConstruct)⟩
  refine ⟨_, ?_, ?_, ?_, hTiling.tokens_eq_nil_iff, ?_⟩
  · rw [scan, String.toList_ofList, hRun]
    rfl
  · intro hCasing
    simp only [Casing.tagName, hCasing, Bool.false_eq_true, if_false]
  · intro hCasing a _
    simp only [Casing.attributeName, hCasing, Bool.false_eq_true, if_false]
  · intro next hNext
    rw [hTiling.head_position next hNext]
    exact (Position.after_offset _ _).trans (Nat.zero_add _)

/-- A blank in the name, a name twice, and values with marks in them that end nothing. -/
theorem scan_startTag_mixed :
    let spelling := "<a\u00a0B x\tx = \"a>b='/'\" Y=' \"'  z=\n/a='\" />".toList
    let tag : StartTag := ⟨"a\u00a0B".toList, [⟨"x".toList, []⟩, ⟨"x".toList, "a>b='/'".toList⟩,
      ⟨"Y".toList, " \"".toList⟩, ⟨"z".toList, "/a='\"".toList⟩], true⟩
    tag.Spelt spelling ∧ ∃ tokens,
      scan ⟨true, true⟩ (String.ofList (spelling ++ "=b</a>".toList)) =
        ⟨.start, .startTag "a\u00a0b" [("x", ""), ("x", "a>b='/'"), ("y", " \""), ("z", "/a='\"")]
          true⟩ :: tokens ∧
      ∀ next ∈ tokens.head?, next.position.offset = 40 := by
  intro spelling tag
  -- Membership in a literal list is checked through `List.all`: over all characters it would not end.
  have hSpace : ∀ c ∈ [' '], isSpacing c = true := List.forall_mem_singleton.mpr rfl
  have hValue : ∀ c ∈ "/a='\"".toList, isUnquotedChar c = true :=
    List.all_eq_true.mp (by decide +kernel)
  have hUnquoted : AssignmentSpelt "/a='\"".toList "=\n/a='\"".toList :=
    @AssignmentSpelt.unquoted [] ['\n'] "/a='\"".toList (List.forall_mem_nil _)
      (List.forall_mem_singleton.mpr rfl) (by decide) hValue (by rintro c ⟨⟩; decide)
  have hSingle : AssignmentSpelt " \"".toList "=' \"'".toList :=
    @AssignmentSpelt.quoted [] [] " \"".toList '\'' (List.forall_mem_nil _) (List.forall_mem_nil _)
      (Or.inr rfl) (by decide +kernel)
  have hDouble : AssignmentSpelt "a>b='/'".toList " = \"a>b='/'\"".toList :=
    @AssignmentSpelt.quoted [' '] [' '] "a>b='/'".toList '"' hSpace hSpace (Or.inl rfl)
      (by decide +kernel)
  have hLast : AttributesSpelt [⟨['z'], "/a='\"".toList⟩] "  z=\n/a='\"".toList :=
    @AttributesSpelt.cons "  ".toList ['z'] _ _ _ _ (by decide) (List.all_eq_true.mp (by decide))
      (by decide) hUnquoted .nil
  have hAttributes := @AttributesSpelt.cons [' '] ['x'] _ _ _ _ (by decide) hSpace (by decide)
    .bare (@AttributesSpelt.cons ['\t'] ['x'] _ _ _ _ (by decide)
      (List.forall_mem_singleton.mpr rfl) (by decide) hDouble
      (@AttributesSpelt.cons [' '] ['Y'] _ _ _ _ (by decide) hSpace (by decide) hSingle hLast))
  have hName : ∀ c ∈ "a\u00a0B".toList, isNameChar c = true :=
    List.all_eq_true.mp (by decide +kernel)
  have hTag := @StartTag.Spelt.tag "a\u00a0B".toList _ _ _ _ ⟨'a', _, rfl, by decide⟩ hName
    hAttributes (@TagEndSpelt.closing [' '] (by decide) hSpace)
  have hSpelt : tag.Spelt spelling := by
    refine Eq.mp (congr (congrArg StartTag.Spelt ?_) ?_) hTag
    · decide +kernel
    · decide +kernel
  obtain ⟨tokens, hScan, -, -, -, hNext⟩ := scan_startTag ⟨true, true⟩ hSpelt "=b</a>".toList
  refine ⟨hSpelt, tokens, ?_, ?_⟩
  · have hLexeme : Scan.startLexeme ⟨true, true⟩ tag =
        .startTag "a\u00a0b" [("x", ""), ("x", "a>b='/'"), ("y", " \""), ("z", "/a='\"")] true := by
      decide +kernel
    rw [hScan, ← hLexeme]
    rfl
  · intro next hHead
    rw [hNext next hHead]
    decide

end Token

end Hypertext
