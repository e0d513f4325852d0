import Hypertext.Proofs.Token.Readers

/-! # How tokens are spelt

The converse of what the readers read: a construct that is written out in full is read back, with
whatever stands behind it left over. Only the text up to the closing mark counts, so the text that
follows is free.
-/

namespace Hypertext

set_option autoImplicit false

open Text

/-! ## Runs of characters -/

theorem takeWhile_append_stop {α : Type} {test : α → Bool} {xs ys : List α}
    (hAll : ∀ x ∈ xs, test x = true) (hStop : ∀ y ∈ ys.head?, test y = false) :
    (xs ++ ys).takeWhile test = xs := by
  rw [List.takeWhile_append_of_pos hAll]
  cases ys with
  | nil => rw [List.takeWhile_nil, List.append_nil]
  | cons y ys =>
    rw [List.takeWhile_cons_of_neg (Bool.eq_false_iff.mp (hStop y rfl)), List.append_nil]

theorem dropWhile_append_stop {α : Type} {test : α → Bool} {xs ys : List α}
    (hAll : ∀ x ∈ xs, test x = true) (hStop : ∀ y ∈ ys.head?, test y = false) :
    (xs ++ ys).dropWhile test = ys := by
  rw [List.dropWhile_append_of_pos hAll]
  cases ys with
  | nil => rfl
  | cons y ys => exact List.dropWhile_cons_of_neg (Bool.eq_false_iff.mp (hStop y rfl))

theorem dropWhile_eq_self {α : Type} {test : α → Bool} {xs : List α}
    (hStop : ∀ x ∈ xs.head?, test x = false) : xs.dropWhile test = xs :=
  @dropWhile_append_stop _ test [] xs (by intro x hx; cases hx) hStop

/-! ## Marks -/

theorem breakAfter_append_mark {mark inner rest : List Char} (hMark : mark ≠ [])
    (hFresh : ¬ mark <:+: inner ++ mark.dropLast) :
    breakAfter mark (inner ++ (mark ++ rest)) = some (inner ++ mark, rest) := by
  induction inner with
  | nil =>
    cases mark with
    | nil => exact absurd rfl hMark
    | cons c mark =>
      have hPrefix : (c :: mark).isPrefixOf (c :: (mark ++ rest)) = true :=
        List.isPrefixOf_iff_prefix.mpr (List.prefix_append (c :: mark) rest)
      have hTake : (c :: (mark ++ rest)).take (c :: mark).length = c :: mark :=
        @List.take_left _ (c :: mark) rest
      have hDrop : (c :: (mark ++ rest)).drop (c :: mark).length = rest :=
        @List.drop_left _ (c :: mark) rest
      rw [List.nil_append, List.cons_append, breakAfter, if_pos hPrefix, hTake, hDrop,
        List.nil_append]
  | cons c inner ih =>
    have hNot : mark.isPrefixOf (c :: (inner ++ (mark ++ rest))) ≠ true := by
      intro hPrefix
      -- The mark is no longer than what stands in front of its own last character.
      have hLength := List.length_pos_iff.mpr hMark
      have hWhole : (c :: inner ++ mark.dropLast) <+: c :: (inner ++ (mark ++ rest)) := by
        refine ⟨mark.getLast hMark :: rest, ?_⟩
        calc
          c :: inner ++ mark.dropLast ++ mark.getLast hMark :: rest =
              c :: inner ++ (mark.dropLast ++ [mark.getLast hMark]) ++ rest := by simp
          _ = c :: (inner ++ (mark ++ rest)) := by
            rw [List.dropLast_concat_getLast, List.cons_append, List.cons_append,
              List.append_assoc]
      have hMarked := List.prefix_of_prefix_length_le (List.isPrefixOf_iff_prefix.mp hPrefix) hWhole
        (by simp only [List.length_append, List.length_cons, List.length_dropLast]; omega)
      exact hFresh hMarked.isInfix
    have hTail : ¬ mark <:+: inner ++ mark.dropLast := by
      intro hInfix
      exact hFresh (hInfix.trans (List.suffix_cons c _).isInfix)
    rw [List.cons_append, breakAfter, if_neg hNot, ih hTail]
    rfl

theorem breakAfter_append_char {c : Char} {inner rest : List Char} (hFresh : c ∉ inner) :
    breakAfter [c] (inner ++ c :: rest) = some (inner ++ [c], rest) := by
  apply breakAfter_append_mark (List.cons_ne_nil c [])
  rw [List.dropLast_singleton, List.append_nil]
  intro hInfix
  exact hFresh (hInfix.subset (List.mem_singleton.mpr rfl))

theorem readComment?_spelt {inner rest : List Char}
    (hFresh : ¬ commentClose <:+: inner ++ ['-', '-']) :
    readComment? (commentOpen ++ inner ++ commentClose ++ rest) =
      some (commentOpen ++ inner ++ commentClose, rest) := by
  have hOpen : commentOpen.isPrefixOf (commentOpen ++ inner ++ commentClose ++ rest) = true := by
    rw [List.isPrefixOf_iff_prefix, List.append_assoc, List.append_assoc]
    exact List.prefix_append _ _
  have hDrop : (commentOpen ++ inner ++ commentClose ++ rest).drop 4 =
      inner ++ (commentClose ++ rest) := by
    rw [List.append_assoc, List.append_assoc]
    exact @List.drop_left _ commentOpen _
  have hBreak : breakAfter commentClose (inner ++ (commentClose ++ rest)) =
      some (inner ++ commentClose, rest) :=
    breakAfter_append_mark (by decide) hFresh
  rw [readComment?, if_pos hOpen, hDrop, hBreak]
  simp only [List.append_assoc]

/-! ## Tags -/

/-- The name of an end tag is read up to where it stops; what is left before the closing mark is passed
over. -/
theorem readEndTag?_stopped {name left rest : List Char} (hNe : name ≠ [])
    (hName : ∀ c ∈ name, isEndNameChar c = true) (hStop : ∀ c ∈ left.head?, isEndNameChar c = false)
    (hLeft : '>' ∉ left) : readEndTag? (name ++ (left ++ '>' :: rest)) = some (name, rest) := by
  have hFirst : ∀ c ∈ (name ++ (left ++ '>' :: rest)).head?, isBlank c = false := by
    cases name with
    | nil => exact absurd rfl hNe
    | cons d name =>
      intro c hc
      rw [List.cons_append, List.head?_cons, Option.mem_def, Option.some.injEq] at hc
      have hChar := hName d List.mem_cons_self
      simp only [isEndNameChar, Bool.and_eq_true, Bool.not_eq_true'] at hChar
      rw [← hc]
      exact hChar.1.1
  have hStops : ∀ c ∈ (left ++ '>' :: rest).head?, isEndNameChar c = false := by
    cases left with
    | nil =>
      rintro c ⟨⟩
      decide
    | cons d left => exact hStop
  have hBreak : breakAfter ['>'] (left ++ '>' :: rest) = some (left ++ ['>'], rest) :=
    breakAfter_append_char hLeft
  have hNonempty : ¬ name.isEmpty = true := by
    rw [List.isEmpty_iff]
    exact hNe
  unfold readEndTag?
  dsimp only
  rw [dropWhile_eq_self hFirst, takeWhile_append_stop hName hStops, if_neg hNonempty,
    dropWhile_append_stop hName hStops, hBreak]
  rfl

theorem readEndTag?_spelt {name rest : List Char} (hNe : name ≠ [])
    (hName : ∀ c ∈ name, isEndNameChar c = true) :
    readEndTag? (name ++ '>' :: rest) = some (name, rest) :=
  @readEndTag?_stopped name [] rest hNe hName nofun List.not_mem_nil

theorem readAttributes?_close {text rest : List Char} (h : text.dropWhile isSpacing = '>' :: rest) :
    readAttributes? text = some ([], false, rest) := by
  unfold readAttributes?
  split <;> simp_all

theorem readAttributes?_selfClose {text rest : List Char}
    (h : text.dropWhile isSpacing = '/' :: '>' :: rest) :
    readAttributes? text = some ([], true, rest) := by
  unfold readAttributes?
  split <;> simp_all

theorem readAttributes?_attribute {text tail value after : List Char} {c : Char}
    (h : text.dropWhile isSpacing = c :: tail) (hSlash : c ≠ '/') (hEnd : c ≠ '>')
    (hRead : readAssignment? (tail.dropWhile isNameChar) = some (value, after)) :
    readAttributes? text = (readAttributes? after).map fun parts =>
      (⟨c :: tail.takeWhile isNameChar, value⟩ :: parts.1, parts.2) := by
  conv => lhs; unfold readAttributes?
  split
  · rename_i hText
    cases h.symm.trans hText
  · rename_i hText
    exact absurd (List.cons.inj (h.symm.trans hText)).1 hEnd
  · rename_i hText
    exact absurd (List.cons.inj (h.symm.trans hText)).1 hSlash
  · rename_i hText
    exact absurd (List.cons.inj (h.symm.trans hText)).1 hSlash
  · rename_i d rest _ _ _ hText
    obtain ⟨rfl, rfl⟩ := List.cons.inj (h.symm.trans hText)
    split
    · rename_i hNone
      rw [hRead] at hNone
      cases hNone
    · rename_i value' after' hSome
      rw [hRead] at hSome
      obtain ⟨rfl, rfl⟩ := Prod.mk.inj (Option.some.inj hSome)
      rfl

/-! ## Assignments -/

/-- What may stand behind an assignment: spacing or the end of the tag, and no `=` behind that. -/
structure EndsAssignment (text : List Char) : Prop where
  first : ∀ c ∈ text.head?, isSpacing c = true ∨ c = '>'
  next : ∀ c ∈ (text.dropWhile isSpacing).head?, c ≠ '='

theorem isNameChar_eq_false_of_isSpacing {c : Char} (h : isSpacing c = true) :
    isNameChar c = false := by
  simp only [isNameChar, h, Bool.not_true, Bool.false_and]

namespace EndsAssignment

variable {text : List Char}

theorem stops_name (h : EndsAssignment text) : ∀ c ∈ text.head?, isNameChar c = false := by
  intro c hc
  rcases h.first c hc with hSpacing | rfl
  · exact isNameChar_eq_false_of_isSpacing hSpacing
  · decide

theorem stops_value (h : EndsAssignment text) : ∀ c ∈ text.head?, isUnquotedChar c = false := by
  intro c hc
  rcases h.first c hc with hSpacing | rfl
  · simp only [isUnquotedChar, hSpacing, Bool.not_true, Bool.false_and]
  · decide

theorem readAssignment?_none (h : EndsAssignment text) :
    readAssignment? text = some ([], text) := by
  unfold readAssignment?
  split
  · rename_i rest hText
    have hNext := h.next
    rw [hText] at hNext
    exact absurd rfl (hNext '=' rfl)
  · rfl

end EndsAssignment

theorem readAssignment?_spaced {before text : List Char}
    (hBefore : ∀ c ∈ before, isSpacing c = true) :
    readAssignment? (before ++ '=' :: text) = readValue? text := by
  unfold readAssignment?
  rw [dropWhile_append_stop hBefore (by rintro c ⟨⟩; decide)]
  rfl

theorem readValue?_quoted {after value rest : List Char} {quote : Char}
    (hAfter : ∀ c ∈ after, isSpacing c = true) (hQuote : quote = '"' ∨ quote = '\'')
    (hValue : quote ∉ value) :
    readValue? (after ++ quote :: (value ++ quote :: rest)) = some (value, rest) := by
  have hSpacing : isSpacing quote = false := by rcases hQuote with rfl | rfl <;> decide
  have hTest : (decide (quote = '"') || decide (quote = '\'')) = true := by
    rcases hQuote with rfl | rfl <;> decide
  have hDrop : (after ++ quote :: (value ++ quote :: rest)).dropWhile isSpacing =
      quote :: (value ++ quote :: rest) :=
    dropWhile_append_stop hAfter (by rintro c ⟨⟩; exact hSpacing)
  have hBreak : breakAfter [quote] (value ++ quote :: rest) = some (value ++ [quote], rest) :=
    breakAfter_append_char hValue
  simp only [readValue?, hDrop, hTest, if_true, hBreak, Option.map_some, List.dropLast_concat]

theorem readValue?_unquoted {after value rest : List Char}
    (hAfter : ∀ c ∈ after, isSpacing c = true) (hNe : value ≠ [])
    (hValue : ∀ c ∈ value, isUnquotedChar c = true)
    (hFirst : ∀ c ∈ value.head?, c ≠ '"' ∧ c ≠ '\'') (hRest : EndsAssignment rest) :
    readValue? (after ++ (value ++ rest)) = some (value, rest) := by
  cases value with
  | nil => exact absurd rfl hNe
  | cons d value =>
    obtain ⟨hDouble, hSingle⟩ := hFirst d rfl
    have hSpacing : isSpacing d = false := by
      have hChar := hValue d List.mem_cons_self
      simp only [isUnquotedChar, Bool.and_eq_true, Bool.not_eq_true'] at hChar
      exact hChar.1
    have hDrop : (after ++ (d :: value ++ rest)).dropWhile isSpacing = d :: value ++ rest :=
      dropWhile_append_stop hAfter (by rintro c ⟨⟩; exact hSpacing)
    have hTake := takeWhile_append_stop hValue hRest.stops_value
    have hLeft := dropWhile_append_stop hValue hRest.stops_value
    rw [List.cons_append] at hDrop hTake hLeft
    simp only [readValue?, List.cons_append, hDrop, hDouble, hSingle, decide_false, Bool.or_self,
      Bool.false_eq_true, if_false, hTake, hLeft]

/-- The ways in which a value is spelt behind a name: not at all, in quotes of either kind, or as it
is. -/
inductive AssignmentSpelt : List Char → List Char → Prop where
  | bare : AssignmentSpelt [] []
  | quoted {before after value : List Char} {quote : Char}
    (hBefore : ∀ c ∈ before, isSpacing c = true) (hAfter : ∀ c ∈ after, isSpacing c = true)
    (hQuote : quote = '"' ∨ quote = '\'') (hValue : quote ∉ value) :
    AssignmentSpelt value (before ++ '=' :: (after ++ quote :: (value ++ [quote])))
  | unquoted {before after value : List Char} (hBefore : ∀ c ∈ before, isSpacing c = true)
    (hAfter : ∀ c ∈ after, isSpacing c = true) (hNe : value ≠ [])
    (hValue : ∀ c ∈ value, isUnquotedChar c = true)
    (hFirst : ∀ c ∈ value.head?, c ≠ '"' ∧ c ≠ '\'') :
    AssignmentSpelt value (before ++ '=' :: (after ++ value))

namespace AssignmentSpelt

variable {value assignment rest : List Char}

theorem readAssignment?_eq (h : AssignmentSpelt value assignment) (hRest : EndsAssignment rest) :
    readAssignment? (assignment ++ rest) = some (value, rest) := by
  cases h with
  | bare => exact hRest.readAssignment?_none
  | @quoted before after _ quote hBefore hAfter hQuote hValue =>
    have hText : before ++ '=' :: (after ++ quote :: (value ++ [quote])) ++ rest =
        before ++ '=' :: (after ++ quote :: (value ++ quote :: rest)) := by
      simp
    rw [hText, readAssignment?_spaced hBefore, readValue?_quoted hAfter hQuote hValue]
  | @unquoted before after _ hBefore hAfter hNe hValue hFirst =>
    have hText : before ++ '=' :: (after ++ value) ++ rest =
        before ++ '=' :: (after ++ (value ++ rest)) := by
      simp
    rw [hText, readAssignment?_spaced hBefore,
      readValue?_unquoted hAfter hNe hValue hFirst hRest]

theorem stops_name (h : AssignmentSpelt value assignment) (hRest : EndsAssignment rest) :
    ∀ c ∈ (assignment ++ rest).head?, isNameChar c = false := by
  have hSpaced {before : List Char} (hBefore : ∀ c ∈ before, isSpacing c = true)
      (text : List Char) : ∀ c ∈ (before ++ '=' :: text).head?, isNameChar c = false := by
    cases before with
    | nil =>
      rintro c ⟨⟩
      decide
    | cons d before =>
      rintro c ⟨⟩
      exact isNameChar_eq_false_of_isSpacing (hBefore d List.mem_cons_self)
  cases h with
  | bare => exact hRest.stops_name
  | quoted hBefore =>
    rw [List.append_assoc, List.cons_append]
    exact hSpaced hBefore _
  | unquoted hBefore =>
    rw [List.append_assoc, List.cons_append]
    exact hSpaced hBefore _

end AssignmentSpelt

/-- What may stand behind an attribute: a space or the end of the tag, and no `=` behind that. -/
structure EndsAttribute (text : List Char) : Prop where
  first : ∃ c rest, text = c :: rest ∧ (c = ' ' ∨ c = '>')
  next : ∀ c ∈ (text.dropWhile isSpacing).head?, c ≠ '='

namespace EndsAttribute

variable {text : List Char}

theorem endsAssignment (h : EndsAttribute text) : EndsAssignment text where
  first := by
    obtain ⟨c, rest, rfl, rfl | rfl⟩ := h.first
    · rintro c ⟨⟩
      exact Or.inl rfl
    · rintro c ⟨⟩
      exact Or.inr rfl
  next := h.next

theorem stops_name (h : EndsAttribute text) : ∀ c ∈ text.head?, isNameChar c = false :=
  h.endsAssignment.stops_name

end EndsAttribute

/-- The ways in which a value is written behind a name: not at all, in quotes, or as it is. -/
inductive Assigns : List Char → List Char → Prop where
  | bare : Assigns [] []
  | quoted {value : List Char} (hValue : '"' ∉ value) :
    Assigns value ('=' :: '"' :: (value ++ ['"']))
  | unquoted {value : List Char} (hNe : value ≠ [])
    (hValue : ∀ c ∈ value, isUnquotedChar c = true ∧ c ≠ '"' ∧ c ≠ '\'') :
    Assigns value ('=' :: value)

theorem readAssignment?_quoted {value rest : List Char} (hValue : '"' ∉ value) :
    readAssignment? ('=' :: '"' :: (value ++ '"' :: rest)) = some (value, rest) :=
  (readAssignment?_spaced (List.forall_mem_nil _)).trans
    (readValue?_quoted (List.forall_mem_nil _) (Or.inl rfl) hValue)

namespace Assigns

variable {value assignment rest : List Char}

theorem spelt (h : Assigns value assignment) : AssignmentSpelt value assignment := by
  have hNone : ∀ c ∈ ([] : List Char), isSpacing c = true := List.forall_mem_nil _
  cases h with
  | bare => exact .bare
  | quoted hValue => exact .quoted hNone hNone (Or.inl rfl) hValue
  | unquoted hNe hValue =>
    refine .unquoted hNone hNone hNe (fun c hc => (hValue c hc).1) ?_
    exact fun c hc => (hValue c (List.mem_of_mem_head? hc)).2

theorem readAssignment?_eq (h : Assigns value assignment) (hRest : EndsAttribute rest) :
    readAssignment? (assignment ++ rest) = some (value, rest) :=
  h.spelt.readAssignment?_eq hRest.endsAssignment

theorem stops_name (h : Assigns value assignment) (hRest : EndsAttribute rest) :
    ∀ c ∈ (assignment ++ rest).head?, isNameChar c = false :=
  h.spelt.stops_name hRest.endsAssignment

end Assigns

/-! ## Names -/

/-- A name of an attribute has a character, and no character that ends it. -/
structure NamesAttribute (name : List Char) : Prop where
  ne_nil : name ≠ []
  chars : ∀ c ∈ name, isNameChar c = true

instance (name : List Char) : Decidable (NamesAttribute name) :=
  decidable_of_iff (name ≠ [] ∧ name.all isNameChar = true) (by
    rw [List.all_eq_true]
    exact ⟨fun ⟨hNe, hChars⟩ => ⟨hNe, hChars⟩, fun h => ⟨h.ne_nil, h.chars⟩⟩)

theorem not_isSpacing_of_isNameChar {c : Char} (h : isNameChar c = true) : ¬ isSpacing c = true := by
  simp only [isNameChar, Bool.and_eq_true, Bool.not_eq_true'] at h
  exact Bool.eq_false_iff.mp h.1.1.1

/-- A name of an attribute as it is read: only its later characters keep it from being a value. -/
structure TakenName (name : List Char) : Prop where
  first : ∃ c rest, name = c :: rest ∧ isSpacing c = false ∧ c ≠ '/' ∧ c ≠ '>' ∧
    ∀ d ∈ rest, isNameChar d = true

theorem TakenName.readAttributes?_behind {name : List Char} (h : TakenName name)
    {space text value rest : List Char} (hSpace : ∀ c ∈ space, isSpacing c = true)
    (hStop : ∀ c ∈ text.head?, isNameChar c = false)
    (hRead : readAssignment? text = some (value, rest)) :
    readAttributes? (space ++ (name ++ text)) = (readAttributes? rest).map fun parts =>
      (⟨name, value⟩ :: parts.1, parts.2) := by
  obtain ⟨c, tail, rfl, hSpacing, hSlash, hEnd, hTail⟩ := h.first
  have hText : (space ++ (c :: tail ++ text)).dropWhile isSpacing = c :: (tail ++ text) :=
    dropWhile_append_stop hSpace (by rintro d ⟨⟩; exact hSpacing)
  rw [readAttributes?_attribute hText hSlash hEnd (by rwa [dropWhile_append_stop hTail hStop]),
    takeWhile_append_stop hTail hStop]

theorem TakenName.readAttributes?_eq {name : List Char} (h : TakenName name)
    {text value rest : List Char} (hStop : ∀ c ∈ text.head?, isNameChar c = false)
    (hRead : readAssignment? text = some (value, rest)) :
    readAttributes? (' ' :: (name ++ text)) = (readAttributes? rest).map fun parts =>
      (⟨name, value⟩ :: parts.1, parts.2) :=
  @readAttributes?_behind name h [' '] _ _ _ (List.forall_mem_singleton.mpr rfl) hStop hRead

namespace NamesAttribute

variable {name : List Char}

theorem taken (h : NamesAttribute name) : TakenName name := by
  cases name with
  | nil => exact absurd rfl h.ne_nil
  | cons c rest =>
    have hChar := h.chars c List.mem_cons_self
    refine ⟨c, rest, rfl, Bool.eq_false_iff.mpr (not_isSpacing_of_isNameChar hChar), ?_, ?_, ?_⟩
    · rintro rfl
      cases hChar
    · rintro rfl
      cases hChar
    · exact fun d hd => h.chars d (List.mem_cons_of_mem c hd)

theorem endsAttribute (h : NamesAttribute name) (text : List Char) :
    EndsAttribute (' ' :: (name ++ text)) where
  first := ⟨' ', _, rfl, Or.inl rfl⟩
  next := by
    cases name with
    | nil => exact absurd rfl h.ne_nil
    | cons c name =>
      have hChar := h.chars c List.mem_cons_self
      rw [List.dropWhile_cons_of_pos (by decide), List.cons_append,
        List.dropWhile_cons_of_neg (not_isSpacing_of_isNameChar hChar)]
      rintro d ⟨⟩ rfl
      cases hChar

end NamesAttribute

theorem readStartTag?_spelt {name text rest : List Char} {attributes : List AttributeText}
    {selfClosing : Bool} (hFirst : ∃ c tail, name = c :: tail ∧ isLetter c = true)
    (hName : ∀ c ∈ name, isNameChar c = true) (hStop : ∀ c ∈ text.head?, isNameChar c = false)
    (hRead : readAttributes? text = some (attributes, selfClosing, rest)) :
    readStartTag? (name ++ text) = some (⟨name, attributes, selfClosing⟩, rest) := by
  have hTake := takeWhile_append_stop hName hStop
  have hDrop := dropWhile_append_stop hName hStop
  obtain ⟨c, tail, rfl, hLetter⟩ := hFirst
  rw [List.cons_append] at hTake hDrop ⊢
  simp only [readStartTag?, hLetter, if_true, hTake, hDrop, hRead, Option.map_some]

/-- A name of a tag begins with a letter and has no character that ends it in either tag. -/
structure NamesTag (name : List Char) : Prop where
  first : ∃ c rest, name = c :: rest ∧ isLetter c = true
  chars : ∀ c ∈ name, isNameChar c = true ∧ isBlank c = false

instance (name : List Char) : Decidable (NamesTag name) :=
  decidable_of_iff (name.head?.any isLetter = true ∧
      name.all (fun c => isNameChar c && !isBlank c) = true) (by
    cases name with
    | nil => exact ⟨nofun, fun ⟨⟨_, _, hName, _⟩, _⟩ => nomatch hName⟩
    | cons c rest =>
      simp only [List.all_eq_true, Bool.and_eq_true, Bool.not_eq_true']
      constructor
      · rintro ⟨hFirst, hChars⟩
        exact ⟨⟨c, rest, rfl, hFirst⟩, hChars⟩
      · rintro ⟨⟨d, tail, hName, hLetter⟩, hChars⟩
        cases hName
        exact ⟨hLetter, hChars⟩)

namespace NamesTag

variable {name : List Char}

theorem readStartTag?_eq (h : NamesTag name) {text rest : List Char}
    {attributes : List AttributeText} {selfClosing : Bool}
    (hStop : ∀ c ∈ text.head?, isNameChar c = false)
    (hRead : readAttributes? text = some (attributes, selfClosing, rest)) :
    readStartTag? (name ++ text) = some (⟨name, attributes, selfClosing⟩, rest) :=
  readStartTag?_spelt h.first (fun c hc => (h.chars c hc).1) hStop hRead

theorem readEndTag?_eq (h : NamesTag name) (rest : List Char) :
    readEndTag? (name ++ '>' :: rest) = some (name, rest) := by
  apply readEndTag?_spelt
  · obtain ⟨c, tail, rfl, -⟩ := h.first
    exact List.cons_ne_nil c tail
  · intro c hc
    obtain ⟨hChar, hBlank⟩ := h.chars c hc
    simp only [isNameChar, Bool.and_eq_true, decide_eq_true_eq] at hChar
    simp only [isEndNameChar, hBlank, Bool.not_false, Bool.true_and, Bool.and_eq_true,
      decide_eq_true_eq]
    exact ⟨hChar.1.1.2, hChar.1.2⟩

end NamesTag

/-! ## Constructs -/

namespace Scan

theorem not_isPrefixOf_commentOpen {c : Char} (rest : List Char) (hChar : c ≠ '!') :
    ¬ commentOpen.isPrefixOf ('<' :: c :: rest) = true := by
  simp only [commentOpen, List.isPrefixOf, Bool.and_eq_true, beq_iff_eq]
  rintro ⟨-, hFirst, -⟩
  exact hChar hFirst.symm

theorem opensDirective_eq_false {c : Char} (rest : List Char) (hMark : c ≠ '!') (hQuery : c ≠ '?') :
    opensDirective ('<' :: c :: rest) = false := by
  unfold opensDirective
  split <;> simp_all

theorem isLetter_ne {c d : Char} (h : isLetter c = true) (hd : d.toNat < 65) : c ≠ d := by
  have hCode := isLetter_ge c h
  rintro rfl
  omega

theorem construct?_letter (casing : Casing) {c : Char} (rest : List Char)
    (hLetter : isLetter c = true) :
    construct? casing ('<' :: c :: rest) = (readStartTag? (c :: rest)).map fun parts =>
      (startLexeme casing parts.1, parts.2, modeAfter parts.1) := by
  have hMark : c ≠ '!' := isLetter_ne hLetter (by decide)
  have hQuery : c ≠ '?' := isLetter_ne hLetter (by decide)
  have hSlash : c ≠ '/' := isLetter_ne hLetter (by decide)
  rw [construct?, readComment?, if_neg (not_isPrefixOf_commentOpen rest hMark)]
  simp only [opensDirective_eq_false rest hMark hQuery, Bool.false_eq_true, if_false]
  rintro inner - hText
  exact hSlash (List.cons.inj hText).1

theorem construct?_slash (casing : Casing) (inner : List Char) :
    construct? casing ('<' :: '/' :: inner) = (readEndTag? inner).map fun parts =>
      (.endTag (casing.tagName parts.1), parts.2, .data) := by
  rw [construct?, readComment?, if_neg (not_isPrefixOf_commentOpen inner (by decide))]
  simp only [opensDirective_eq_false (c := '/') inner (by decide) (by decide), Bool.false_eq_true,
    if_false]

theorem construct?_eq_none (casing : Casing) {rest : List Char}
    (h : ∀ c ∈ rest.head?, isLetter c = false ∧ c ≠ '/' ∧ c ≠ '!' ∧ c ≠ '?') :
    construct? casing ('<' :: rest) = none := by
  cases rest with
  | nil => rfl
  | cons c rest =>
    obtain ⟨hLetter, hSlash, hMark, hQuery⟩ := h c rfl
    rw [construct?, readComment?, if_neg (not_isPrefixOf_commentOpen rest hMark)]
    simp only [opensDirective_eq_false rest hMark hQuery, Bool.false_eq_true, if_false]
    · simp only [readStartTag?, hLetter, Bool.false_eq_true, if_false, Option.map_none]
    · rintro inner - hText
      exact hSlash (List.cons.inj hText).1

theorem construct?_comment (casing : Casing) {inner rest : List Char}
    (hFresh : ¬ commentClose <:+: inner ++ ['-', '-']) :
    construct? casing (commentOpen ++ inner ++ commentClose ++ rest) =
      some (.comment (String.ofList (commentOpen ++ inner ++ commentClose)), rest, .data) := by
  simp only [construct?, readComment?_spelt hFresh]

theorem construct?_directive (casing : Casing) {c : Char} {inner rest : List Char}
    (hOpen : c = '!' ∨ c = '?') (hFresh : '>' ∉ inner)
    (hComment : ¬ commentOpen <+: '<' :: c :: (inner ++ ['>'])) :
    construct? casing ('<' :: c :: (inner ++ '>' :: rest)) =
      some (.directive (String.ofList ('<' :: c :: (inner ++ ['>']))), rest, .data) := by
  have hNone : ¬ commentOpen.isPrefixOf ('<' :: c :: (inner ++ '>' :: rest)) = true := by
    intro hPrefix
    apply hComment
    have hText : '<' :: c :: (inner ++ '>' :: rest) = '<' :: c :: (inner ++ ['>']) ++ rest := by simp
    have hWhole := List.isPrefixOf_iff_prefix.mp hPrefix
    rw [hText] at hWhole
    rcases List.prefix_or_prefix_of_prefix hWhole (List.prefix_append _ rest) with h | h
    · exact h
    · -- A directive that were part of the mark would have its `>` there.
      have hEnd : '>' ∈ commentOpen := h.subset (by simp)
      exact absurd hEnd (by decide)
  have hDirective : opensDirective ('<' :: c :: (inner ++ '>' :: rest)) = true := by
    rcases hOpen with rfl | rfl <;> rfl
  have hNot : '>' ∉ '<' :: c :: inner := by
    simp only [List.mem_cons, not_or]
    refine ⟨by decide, ?_, hFresh⟩
    rcases hOpen with rfl | rfl <;> decide
  have hBreak := @breakAfter_append_char '>' _ rest hNot
  rw [construct?, readComment?, if_neg hNone]
  simp only [hDirective, if_true]
  · rw [show '<' :: c :: (inner ++ '>' :: rest) = '<' :: c :: inner ++ '>' :: rest from rfl, hBreak]
    rfl
  · rintro other - hText
    rcases hOpen with rfl | rfl <;> cases hText

end Scan

end Hypertext
