import Hypertext.Proofs.Render.Legible
import Hypertext.Proofs.Token.RawText

/-! # Rendering and parsing

Parsing the markup of a legible tree gives the normal form of the tree. The markup of an item is
taken with any text behind it, so that the items of a tree can be read one after the other: markup
other than plain text begins with a construct and ends with one, and plain text ends in front of a
construct or at the end.
-/

namespace Hypertext

set_option autoImplicit false

open Text Scan

variable {style : RenderStyle} {reading : Reading} {casing : Casing}

/-! ## Tags -/

namespace Casing

theorem tagName_eq_self {tag : String} (h : casing.tags = true → lower tag = tag) :
    casing.tagName tag.toList = tag := by
  unfold tagName
  split
  · rename_i hTags
    exact h hTags
  · exact String.ofList_toList

theorem attributeName_eq_self {name : String} (h : casing.attributes = true → lower name = name) :
    casing.attributeName name.toList = name := by
  unfold attributeName
  split
  · rename_i hAttributes
    exact h hAttributes
  · exact String.ofList_toList

end Casing

namespace Value

theorem sublist_attributesReadBack (entries : List (Value × Value)) :
    ((attributesReadBack entries).map (·.1)).Sublist (entries.map fun entry => entry.1.text) := by
  induction entries with
  | nil => exact List.Sublist.slnil
  | cons entry entries ih =>
    rw [attributesReadBack, List.filterMap_cons, List.map_cons]
    cases entry.2.readBack? with
    | none => exact ih.cons _
    | some text => exact ih.cons_cons _

namespace LegibleAttributes

variable {attributes : Value}

theorem attributesMarkup_eq (h : LegibleAttributes casing attributes) (quoteAll : Bool) :
    attributesMarkup quoteAll attributes =
      .ok (String.ofList (attributeChars quoteAll (attributeEntries attributes))) := by
  cases h with
  | absent => rfl
  | given => exact attributesMarkup_map _ _ _

theorem names (h : LegibleAttributes casing attributes) :
    ∀ entry ∈ attributeEntries attributes, NamesAttribute entry.1.text.toList ∧
      (casing.attributes = true → lower entry.1.text = entry.1.text) := by
  cases h with
  | absent =>
    intro entry hEntry
    cases hEntry
  | given hNames =>
    intro entry hEntry
    obtain ⟨name, hName, hNames, hCased⟩ := hNames entry hEntry
    rw [hName, text_str]
    exact ⟨hNames, hCased⟩

theorem firstOfEachName_eq (h : LegibleAttributes casing attributes) :
    firstOfEachName (attributesReadBack (attributeEntries attributes)) =
      attributesReadBack (attributeEntries attributes) := by
  apply firstOfEachName_eq_self
  cases h with
  | absent => exact List.nodup_nil
  | given _ hDistinct => exact hDistinct.sublist (sublist_attributesReadBack _)

end LegibleAttributes

/-- The characters are read as the attributes in front of everything that ends a value. -/
def SpellsAttributes (casing : Casing) (chars : List Char) (attributes : List Attribute) : Prop :=
  ∀ ending selfClosing rest, EndsAttribute ending →
    readAttributes? ending = some ([], selfClosing, rest) →
    (∀ c ∈ (chars ++ ending).head?, isNameChar c = false) ∧
    ∃ texts, readAttributes? (chars ++ ending) = some (texts, selfClosing, rest) ∧
      texts.map (fun a => (casing.attributeName a.name, String.ofList a.value)) = attributes

def opening (quoteAll : Bool) (entries : List (Value × Value)) (tag : String) : List Char :=
  '<' :: (tag.toList ++ attributeChars quoteAll (attributeEntries (field entries "attrs")))

def attributesOf (entries : List (Value × Value)) : List Attribute :=
  attributesReadBack (attributeEntries (field entries "attrs"))

/-- An element whose tags are read back, with the attributes that reading gives it. -/
structure ReadableTag (casing : Casing) (quoteAll : Bool) (entries : List (Value × Value))
    (tag : String) : Prop where
  field_eq : field entries "tag" = str tag
  names : NamesTag tag.toList
  cased : casing.tags = true → lower tag = tag
  markup_eq : attributesMarkup quoteAll (field entries "attrs") =
    .ok (String.ofList (attributeChars quoteAll (attributeEntries (field entries "attrs"))))
  spelt : SpellsAttributes casing
    (attributeChars quoteAll (attributeEntries (field entries "attrs"))) (attributesOf entries)
  distinct : firstOfEachName (attributesOf entries) = attributesOf entries

namespace LegibleAttributes

variable {entries : List (Value × Value)}

theorem spells (h : LegibleAttributes casing (field entries "attrs")) (quoteAll : Bool) :
    SpellsAttributes casing
      (attributeChars quoteAll (attributeEntries (field entries "attrs")))
      (attributesOf entries) := by
  intro ending selfClosing rest hEnds hEnding
  have hNames := h.names
  obtain ⟨hStops, texts, hRead, hMap⟩ := readAttributes?_attributeChars quoteAll
    (fun entry hEntry => (hNames entry hEntry).1) hEnds hEnding
  refine ⟨hStops.stops_name, texts, hRead, ?_⟩
  rw [attributesOf, ← hMap]
  apply List.map_congr_left
  intro a ha
  have hMem : (String.ofList a.name, String.ofList a.value) ∈
      attributesReadBack (attributeEntries (field entries "attrs")) := by
    rw [← hMap]
    exact List.mem_map_of_mem ha
  obtain ⟨entry, hEntry, hBack⟩ := List.mem_filterMap.mp hMem
  obtain ⟨text, -, hPair⟩ := Option.map_eq_some_iff.mp hBack
  have hName : entry.1.text = String.ofList a.name := congrArg Prod.fst hPair
  have hFixed := Casing.attributeName_eq_self (hNames entry hEntry).2
  rw [hName, String.toList_ofList] at hFixed
  rw [hFixed]

end LegibleAttributes

theorem HasLegibleTag.readable {entries : List (Value × Value)} {tag : String}
    (h : HasLegibleTag casing entries tag) (quoteAll : Bool) :
    ReadableTag casing quoteAll entries tag where
  field_eq := h.field_eq
  names := h.names
  cased := h.cased
  markup_eq := h.attributes.attributesMarkup_eq quoteAll
  spelt := h.attributes.spells quoteAll
  distinct := h.attributes.firstOfEachName_eq

namespace ReadableTag

variable {quoteAll : Bool} {entries : List (Value × Value)} {tag : String}

theorem construct?_opening (h : ReadableTag casing quoteAll entries tag)
    {ending rest : List Char} {selfClosing : Bool} (hEnds : EndsAttribute ending)
    (hEnding : readAttributes? ending = some ([], selfClosing, rest)) :
    construct? casing (opening quoteAll entries tag ++ ending) =
      some (.startTag tag (attributesOf entries) selfClosing, rest,
        modeAfter ⟨tag.toList, [], selfClosing⟩) := by
  obtain ⟨hStops, texts, hRead, hMap⟩ := h.spelt ending selfClosing rest hEnds hEnding
  have hTag := h.names.readStartTag?_eq hStops hRead
  obtain ⟨c, tail, hText, hLetter⟩ := h.names.first
  have hOpening : opening quoteAll entries tag ++ ending = '<' :: c :: (tail ++
      (attributeChars quoteAll (attributeEntries (field entries "attrs")) ++ ending)) := by
    rw [opening, hText]
    simp only [List.cons_append, List.append_assoc]
  rw [hOpening, construct?_letter casing _ hLetter, ← List.cons_append, ← hText, hTag,
    Option.map_some, startLexeme]
  dsimp only
  rw [hMap, Casing.tagName_eq_self h.cased]
  rfl

theorem construct?_closing (h : ReadableTag casing quoteAll entries tag) (tail : List Char) :
    construct? casing ('<' :: '/' :: (tag.toList ++ '>' :: tail)) =
      some (.endTag tag, tail, .data) := by
  rw [construct?_slash, h.names.readEndTag?_eq, Option.map_some, Casing.tagName_eq_self h.cased]

end ReadableTag

end Value

/-! ## Markup that is read as items -/

/-- Read behind nothing, the markup is given out as lexemes that add the items. Markup that begins
with plain text does not end other text in front of it, and markup that ends with plain text needs
something behind it that does. -/
def Reads (reading : Reading) (startsPlain endsPlain : Prop) (markup : List Char)
    (items : List Item) : Prop :=
  ∃ lexemes, Assembly.Adds reading.recognizeSelfClosing lexemes items ∧
    ∀ tail, (endsPlain → Opens reading.casing tail) →
      stream reading.casing .data [] (markup ++ tail) =
          lexemes ++ stream reading.casing .data [] tail ∧
        (¬ startsPlain → Opens reading.casing (markup ++ tail))

namespace Reads

variable {first second : List Char} {items others : List Item} {a b c d : Prop}

theorem nil : Reads reading a True [] [] :=
  ⟨[], Assembly.adds_nil, fun _ hTail => ⟨rfl, fun _ => hTail trivial⟩⟩

theorem append (hFirst : Reads reading a b first items) (hSecond : Reads reading c d second others)
    (hApart : ¬ (b ∧ c)) : Reads reading a d (first ++ second) (items ++ others) := by
  obtain ⟨lexemes, hAdds, hRead⟩ := hFirst
  obtain ⟨more, hMore, hReadMore⟩ := hSecond
  refine ⟨lexemes ++ more, hAdds.append hMore, ?_⟩
  intro tail hTail
  obtain ⟨hStream, hOpens⟩ := hReadMore tail hTail
  obtain ⟨hStream', hOpens'⟩ := hRead (second ++ tail) fun hEnds =>
    hOpens fun hStarts => hApart ⟨hEnds, hStarts⟩
  rw [List.append_assoc, List.append_assoc]
  exact ⟨by rw [hStream', hStream], hOpens'⟩

theorem construct {markup : List Char} {lexeme : Lexeme}
    (hOpen : ∀ c ∈ markup.head?, c = '<') (hNe : markup ≠ [])
    (hRead : ∀ tail, construct? reading.casing (markup ++ tail) = some (lexeme, tail, .data))
    (hAdds : Assembly.Adds reading.recognizeSelfClosing [lexeme] items) :
    Reads reading a b markup items := by
  refine ⟨[lexeme], hAdds, ?_⟩
  intro tail _
  cases markup with
  | nil => exact absurd rfl hNe
  | cons c inner =>
    obtain rfl := hOpen c rfl
    refine ⟨stream_data_construct reading.casing [] (hRead tail), fun _ => Or.inr ?_⟩
    exact ⟨inner ++ tail, lexeme, tail, .data, rfl, hRead tail⟩

end Reads

/-! ## Texts -/

theorem stream_plain (casing : Casing) {text tail : List Char} (hPlain : IsPlain text)
    (hTail : Opens casing tail) (held : List Char) :
    stream casing .data held (text ++ tail) = stream casing .data (held ++ text) tail := by
  induction text generalizing held with
  | nil => rw [List.nil_append, List.append_nil]
  | cons c text ih =>
    have hRest : IsPlain text := fun rest hRest =>
      hPlain rest (hRest.trans (List.suffix_cons c text))
    have hStep : stream casing .data held (c :: (text ++ tail)) =
        stream casing .data (held ++ [c]) (text ++ tail) := by
      by_cases hChar : c = '<'
      · subst hChar
        apply stream_data_literal
        apply construct?_eq_none
        intro d hd
        cases text with
        | nil =>
          -- What ends the text begins with a `<` of its own, which no construct has second.
          rcases hTail with rfl | ⟨inner, lexeme, rest, mode, rfl, -⟩
          · cases hd
          · cases hd
            decide
        | cons e text => exact hPlain (e :: text) (List.suffix_refl _) d hd
      · exact stream_data_char casing held (text ++ tail) hChar
    rw [List.cons_append, hStep, ih hRest, List.append_assoc]
    rfl

theorem reads_plain {s : String} {a b : Prop} (hNe : s ≠ "") (hPlain : IsPlain s.toList)
    (hStarts : a) (hEnds : b) : Reads reading a b s.toList [.text s] := by
  refine ⟨[.text s], Assembly.adds_text rfl, ?_⟩
  intro tail hTail
  refine ⟨?_, fun hNot => absurd hStarts hNot⟩
  have hHeld : s.toList ≠ [] := fun hNil => hNe (String.toList_eq_nil_iff.mp hNil)
  rw [stream_plain reading.casing hPlain (hTail hEnds) [], stream_opens (hTail hEnds),
    List.nil_append, heldLexemes, if_neg hHeld, String.ofList_toList]

theorem reads_comment {s : String} {a b : Prop} (hComment : IsComment s.toList) :
    Reads reading a b s.toList [.text s] := by
  obtain ⟨inner, hText, hFresh⟩ := hComment
  apply Reads.construct
  · rw [hText]
    rintro c ⟨⟩
    rfl
  · rw [hText]
    exact List.cons_ne_nil _ _
  · intro tail
    rw [hText, construct?_comment reading.casing (commentClose_fresh hFresh), ← hText,
      String.ofList_toList]
  · exact @Assembly.adds_text _ (.comment s) rfl

theorem reads_directive {s : String} {a b : Prop} (hDirective : IsDirective s.toList) :
    Reads reading a b s.toList [.text s] := by
  obtain ⟨c, inner, hText, hMark, hFresh, hComment⟩ := hDirective
  apply Reads.construct
  · rw [hText]
    rintro d ⟨⟩
    rfl
  · rw [hText]
    exact List.cons_ne_nil _ _
  · intro tail
    have hRead := @construct?_directive reading.casing c inner tail hMark hFresh (by rwa [← hText])
    rw [← hText, String.ofList_toList] at hRead
    rw [← hRead, hText]
    simp only [List.cons_append, List.append_assoc, List.nil_append]
  · exact @Assembly.adds_text _ (.directive s) rfl

/-! ## Elements -/

theorem endsAttribute_close (rest : List Char) :
    EndsAttribute ('>' :: rest) ∧ readAttributes? ('>' :: rest) = some ([], false, rest) := by
  have hDrop : ('>' :: rest).dropWhile isSpacing = '>' :: rest :=
    List.dropWhile_cons_of_neg (by decide)
  refine ⟨⟨⟨'>', rest, rfl, Or.inr rfl⟩, ?_⟩, readAttributes?_close hDrop⟩
  rw [hDrop]
  rintro c ⟨⟩
  decide

theorem endsAttribute_slash (rest : List Char) :
    EndsAttribute (' ' :: '/' :: '>' :: rest) ∧
      readAttributes? (' ' :: '/' :: '>' :: rest) = some ([], true, rest) := by
  have hDrop : (' ' :: '/' :: '>' :: rest).dropWhile isSpacing = '/' :: '>' :: rest := by
    rw [List.dropWhile_cons_of_pos (by decide), List.dropWhile_cons_of_neg (by decide)]
  refine ⟨⟨⟨' ', _, rfl, Or.inl rfl⟩, ?_⟩, readAttributes?_selfClose hDrop⟩
  rw [hDrop]
  rintro c ⟨⟩
  decide

theorem ofName?_eq_none_of_isVoid {name : String} (h : isVoid name = true) :
    RawElement.ofName? name = none := by
  cases hName : RawElement.ofName? name with
  | none => rfl
  | some element =>
    rw [RawElement.name_of_ofName? hName] at h
    cases element <;> revert h <;> decide

theorem modeAfter_eq_data {tag : String} {selfClosing : Bool}
    (h : selfClosing = true ∨ RawElement.ofName? (lower tag) = none) :
    modeAfter ⟨tag.toList, [], selfClosing⟩ = .data := by
  have hLower : String.ofList (lowerChars tag.toList) = lower tag := rfl
  rcases h with rfl | hName
  · rfl
  · simp only [modeAfter, hLower, hName]
    split <;> rfl

namespace Value.ReadableTag

variable {quoteAll : Bool} {entries : List (Value × Value)} {tag : String} {a b : Prop}

theorem reads_leaf (h : ReadableTag reading.casing quoteAll entries tag)
    {ending : List Char} {selfClosing : Bool}
    (hLeaf : Assembly.isLeaf reading.recognizeSelfClosing tag selfClosing = true)
    (hMode : selfClosing = true ∨ RawElement.ofName? (lower tag) = Option.none)
    (hEnding : ∀ tail, EndsAttribute (ending ++ tail) ∧
      readAttributes? (ending ++ tail) = some ([], selfClosing, tail)) :
    Reads reading a b (opening quoteAll entries tag ++ ending)
      [.element tag (attributesOf entries) []] := by
  apply Reads.construct
  · rintro c ⟨⟩
    rfl
  · exact List.cons_ne_nil _ _
  · intro tail
    obtain ⟨hEnds, hRead⟩ := hEnding tail
    rw [List.append_assoc, h.construct?_opening hEnds hRead, modeAfter_eq_data hMode]
  · have hAdds := @Assembly.adds_leaf _ _ (attributesOf entries) _ hLeaf
    rwa [h.distinct] at hAdds

theorem reads_element (h : ReadableTag reading.casing quoteAll entries tag)
    {content : List Char} {lexemes : List Lexeme} {items : List Item}
    (hVoid : isVoid (lower tag) = false)
    (hAdds : Assembly.Adds reading.recognizeSelfClosing lexemes items)
    (hContent : ∀ tail, stream reading.casing (modeAfter ⟨tag.toList, [], false⟩) []
        (content ++ '<' :: '/' :: (tag.toList ++ '>' :: tail)) =
      lexemes ++ .endTag tag :: stream reading.casing .data [] tail) :
    Reads reading a b
      (opening quoteAll entries tag ++ '>' :: (content ++ '<' :: '/' :: (tag.toList ++ ['>'])))
      [.element tag (attributesOf entries) items] := by
  refine ⟨.startTag tag (attributesOf entries) false :: (lexemes ++ [.endTag tag]), ?_, ?_⟩
  · have hLeaf : Assembly.isLeaf reading.recognizeSelfClosing tag false = false := by
      rw [Assembly.isLeaf, hVoid]
      rfl
    have hElement := @Assembly.adds_element _ _ (attributesOf entries) _ _ _ hLeaf hAdds
    rwa [h.distinct] at hElement
  · intro tail _
    have hText : opening quoteAll entries tag ++
          '>' :: (content ++ '<' :: '/' :: (tag.toList ++ ['>'])) ++ tail =
        opening quoteAll entries tag ++
          '>' :: (content ++ '<' :: '/' :: (tag.toList ++ '>' :: tail)) := by
      simp only [List.append_assoc, List.cons_append, List.nil_append]
    obtain ⟨hEnds, hRead⟩ := endsAttribute_close
      (content ++ '<' :: '/' :: (tag.toList ++ '>' :: tail))
    have hOpening := h.construct?_opening hEnds hRead
    rw [hText]
    refine ⟨?_, fun _ => Or.inr ⟨_, _, _, _, rfl, hOpening⟩⟩
    have hStream := stream_data_construct reading.casing [] hOpening
    rw [hContent] at hStream
    rw [List.cons_append, List.append_assoc]
    exact hStream

theorem opens_closing (h : ReadableTag casing quoteAll entries tag) (tail : List Char) :
    Opens casing ('<' :: '/' :: (tag.toList ++ '>' :: tail)) :=
  Or.inr ⟨_, _, _, _, rfl, h.construct?_closing tail⟩

theorem stream_closing (h : ReadableTag casing quoteAll entries tag) (held tail : List Char) :
    stream casing .data held ('<' :: '/' :: (tag.toList ++ '>' :: tail)) =
      heldLexemes held ++ .endTag tag :: stream casing .data [] tail :=
  stream_data_construct casing held (h.construct?_closing tail)

end Value.ReadableTag

/-! ## Trees -/

namespace Value

theorem normalContent_eq (style : RenderStyle) (tag : String) (entries : List (Value × Value)) :
    normalContent style tag entries =
      ((Entries.at? entries "content").map (normalWithin style tag)).getD [] := by
  induction entries with
  | nil => rfl
  | cons entry entries ih =>
    rw [normalContent, Entries.at?, Entries.get?, List.find?_cons]
    split
    · rename_i hKey
      rw [hKey]
      rfl
    · rename_i hKey
      rw [Bool.eq_false_iff.mpr hKey]
      exact ih

variable {entries : List (Value × Value)} {items : List Value} {tag : String}

theorem HasContent.contentMarkup_eq (h : HasContent entries items) (style : RenderStyle) :
    contentMarkup style entries = itemsMarkup style items := by
  rw [Value.contentMarkup_eq, field]
  cases h with
  | absent hAt => rw [hAt]; rfl
  | given hAt => rw [hAt]; rfl

theorem HasContent.normalContent_eq (h : HasContent entries items) (style : RenderStyle)
    (hElement : RawElement.ofName? (lower tag) = Option.none) :
    normalContent style tag entries = normalItems style items := by
  rw [Value.normalContent_eq]
  cases h with
  | absent hAt => rw [hAt]; rfl
  | given hAt =>
    rw [hAt, Option.map_some, Option.getD_some, normalWithin, hElement]

theorem HasContent.normalContent_raw (h : HasContent entries items) (style : RenderStyle)
    {element : RawElement} (hElement : RawElement.ofName? (lower tag) = some element) :
    normalContent style tag entries = rawItems (itemsMarkup style items) := by
  rw [Value.normalContent_eq]
  cases h with
  | absent hAt => rw [hAt]; rfl
  | given hAt =>
    rw [hAt, Option.map_some, Option.getD_some, normalWithin, hElement]

theorem normalItems_eq_map (style : RenderStyle) (items : List Value) :
    normalItems style items = items.map (normal style) := by
  induction items with
  | nil => rfl
  | cons item items ih => rw [normalItems, ih, List.map_cons]

namespace ReadableTag

variable {quoteAll : Bool}

theorem tagText_eq (h : ReadableTag casing quoteAll entries tag) :
    isFalse (field entries "tag") = false ∧ tagText (field entries "tag") = tag := by
  have hNe : tag ≠ "" := by
    rintro rfl
    obtain ⟨c, rest, hText, -⟩ := h.names.first
    cases hText
  rw [h.field_eq]
  refine ⟨rfl, if_pos ?_⟩
  exact decide_eq_true hNe

theorem markup_single (h : ReadableTag casing style.quoteAll entries tag) (kind : MapKind)
    (hSingle : style.isSingle tag = true) :
    ∃ text, markup style (map kind entries) = .ok text ∧
      text.toList = opening style.quoteAll entries tag ++ (style.closing.markup tag).toList := by
  obtain ⟨hFalse, hText⟩ := h.tagText_eq
  refine ⟨"<" ++ tag ++
    String.ofList (attributeChars style.quoteAll (attributeEntries (field entries "attrs"))) ++
    style.closing.markup tag, ?_, ?_⟩
  · rw [markup, elementMarkup]
    simp only [hFalse, hText, h.markup_eq, hSingle, Bool.false_eq_true,
      if_false, if_true]
    rfl
  · simp only [String.toList_append, String.toList_ofList, opening]
    rfl

theorem markup_element (h : ReadableTag casing style.quoteAll entries tag) (kind : MapKind)
    (hSingle : style.isSingle tag = false) (hContent : HasContent entries items)
    {content : String} (hMarkup : itemsMarkup style items = .ok content) :
    ∃ text, markup style (map kind entries) = .ok text ∧
      text.toList = opening style.quoteAll entries tag ++
        '>' :: (content.toList ++ '<' :: '/' :: (tag.toList ++ ['>'])) := by
  obtain ⟨hFalse, hText⟩ := h.tagText_eq
  refine ⟨"<" ++ tag ++
    String.ofList (attributeChars style.quoteAll (attributeEntries (field entries "attrs"))) ++
    ">" ++ content ++ "</" ++ tag ++ ">", ?_, ?_⟩
  · rw [markup, elementMarkup]
    simp only [hFalse, hText, h.markup_eq, hSingle, hContent.contentMarkup_eq,
      hMarkup, Bool.false_eq_true, if_false]
    rfl
  · simp [opening]

theorem normal_map (h : ReadableTag casing quoteAll entries tag) (style : RenderStyle) (kind : MapKind) :
    normal style (map kind entries) =
      .element tag (attributesOf entries)
        (if style.isSingle tag then [] else normalContent style tag entries) := by
  rw [normal, h.tagText_eq.2]
  rfl

theorem modeAfter_eq_raw {element : RawElement}
    (hElement : RawElement.ofName? (lower tag) = some element) :
    modeAfter ⟨tag.toList, [], false⟩ = .raw element := by
  have hLower : String.ofList (lowerChars tag.toList) = lower tag := rfl
  simp only [modeAfter, hLower, hElement, Bool.false_eq_true, if_false]

theorem stream_raw_closing (h : ReadableTag casing quoteAll entries tag) {element : RawElement}
    (hElement : RawElement.ofName? (lower tag) = some element) {text : List Char}
    (hRaw : IsRaw element text) (tail : List Char) :
    stream casing (modeAfter ⟨tag.toList, [], false⟩) []
        (text ++ '<' :: '/' :: (tag.toList ++ '>' :: tail)) =
      heldLexemes text ++ .endTag tag :: stream casing .data [] tail := by
  have hEnd := endsRaw_endTag tail h.names (RawElement.name_of_ofName? hElement)
  rw [modeAfter_eq_raw hElement, stream_raw, splitRaw_append_end element _ hRaw hEnd,
    List.nil_append, h.stream_closing]

theorem reads_single {a b : Prop} (h : ReadableTag reading.casing style.quoteAll entries tag)
    (hClosed : ClosesSingle style reading tag) :
    Reads reading a b
      (opening style.quoteAll entries tag ++ (style.closing.markup tag).toList)
      [.element tag (attributesOf entries) []] := by
  have hSlash : Assembly.isLeaf reading.recognizeSelfClosing tag true = true →
      Reads reading a b (opening style.quoteAll entries tag ++ " />".toList)
        [.element tag (attributesOf entries) []] :=
    fun hLeaf => h.reads_leaf hLeaf (Or.inl rfl) endsAttribute_slash
  have hEndTag : ("></" ++ tag ++ ">").toList = '>' :: '<' :: '/' :: (tag.toList ++ ['>']) := by
    simp
  by_cases hVoid : isVoid (lower tag) = true
  · have hLeaf (selfClosing : Bool) :
        Assembly.isLeaf reading.recognizeSelfClosing tag selfClosing = true := by
      rw [Assembly.isLeaf, hVoid]
      rfl
    have hRaw := ofName?_eq_none_of_isVoid hVoid
    have hPlain (b : Prop) : Reads reading a b (opening style.quoteAll entries tag ++ ['>'])
        [.element tag (attributesOf entries) []] :=
      h.reads_leaf (hLeaf false) (Or.inr hRaw) endsAttribute_close
    cases hStyle : style.closing with
    | plain =>
      have hText : (ClosingStyle.plain.markup tag).toList = ['>'] := by
        rw [ClosingStyle.markup]
        rfl
      rw [hText]
      exact hPlain b
    | slash => exact hSlash (hLeaf true)
    | endTag =>
      have hDropped : Reads reading True b ('<' :: '/' :: (tag.toList ++ ['>'])) [] := by
        apply Reads.construct
        · rintro c ⟨⟩
          rfl
        · exact List.cons_ne_nil _ _
        · intro tail
          have hClosing := h.construct?_closing tail
          rw [← hClosing, List.cons_append, List.cons_append, List.append_assoc]
          rfl
        · exact Assembly.adds_endTag_of_void hVoid
      have hBoth := (hPlain False).append hDropped (fun hApart => hApart.1)
      rw [List.append_assoc] at hBoth
      rw [ClosingStyle.markup, hEndTag]
      exact hBoth
  · rcases hClosed with hClosed | hStyle | ⟨hStyle, hRecognized⟩
    · exact absurd hClosed hVoid
    · rw [hStyle, ClosingStyle.markup, hEndTag]
      apply @reads_element _ _ _ _ a b h [] [] [] (Bool.eq_false_iff.mpr hVoid)
        Assembly.adds_nil
      intro tail
      cases hElement : RawElement.ofName? (lower tag) with
      | none => rw [modeAfter_eq_data (Or.inr hElement)]; exact h.stream_closing [] tail
      | some element =>
        apply h.stream_raw_closing hElement
        intro rest hRest
        rw [List.suffix_nil.mp hRest]
        rfl
    · rw [hStyle]
      apply hSlash
      rw [Assembly.isLeaf, hRecognized]
      exact Bool.or_true _

end ReadableTag

theorem adds_rawItems (recognizeSelfClosing : Bool) (text : String) :
    Assembly.Adds recognizeSelfClosing (heldLexemes text.toList) (rawItems (.ok text)) := by
  unfold heldLexemes rawItems
  simp only [String.toList_eq_nil_iff, String.ofList_toList]
  split
  · exact Assembly.adds_nil
  · exact @Assembly.adds_text _ (.text text) rfl

theorem reads_items
    (hItems : ∀ item ∈ items, ∃ text, markup style item = .ok text ∧
      Reads reading (IsPlainText item) (IsPlainText item) text.toList [normal style item])
    (hApart : Apart items) :
    ∃ text, itemsMarkup style items = .ok text ∧
      Reads reading (∃ first ∈ items.head?, IsPlainText first) True text.toList
        (normalItems style items) := by
  induction items with
  | nil => exact ⟨"", rfl, Reads.nil⟩
  | cons item items ih =>
    obtain ⟨text, hMarkup, hReads⟩ := hItems item List.mem_cons_self
    obtain ⟨more, hMore, hReadMore⟩ := ih
      (fun other hOther => hItems other (List.mem_cons_of_mem item hOther))
      hApart.tail
    refine ⟨text ++ more, ?_, ?_⟩
    · rw [itemsMarkup, hMarkup, hMore]
      rfl
    · have hFirst : IsPlainText item ↔ ∃ first ∈ (item :: items).head?, IsPlainText first := by
        simp
      rw [String.toList_append, normalItems, ← hFirst]
      apply hReads.append hReadMore
      rintro ⟨hPlain, next, hNext, hPlainNext⟩
      cases items with
      | nil => cases hNext
      | cons other items =>
        cases hNext
        exact (List.isChain_cons_cons.mp hApart).1 ⟨hPlain, hPlainNext⟩

theorem Legible.reads {item : Value} (h : Legible style reading item) :
    ∃ text, markup style item = .ok text ∧
      Reads reading (IsPlainText item) (IsPlainText item) text.toList [normal style item] := by
  induction h with
  | @text s hNe hPlain =>
    exact ⟨s, rfl, reads_plain hNe hPlain ⟨s, rfl, hPlain⟩ ⟨s, rfl, hPlain⟩⟩
  | @comment s hComment => exact ⟨s, rfl, reads_comment hComment⟩
  | @directive s hDirective => exact ⟨s, rfl, reads_directive hDirective⟩
  | @single kind entries tag hTag hSingle hClosed hContent =>
    have hTag := hTag.readable style.quoteAll
    obtain ⟨text, hMarkup, hText⟩ := hTag.markup_single kind hSingle
    refine ⟨text, hMarkup, ?_⟩
    rw [hTag.normal_map, if_pos hSingle, hText]
    exact hTag.reads_single hClosed
  | @raw kind entries tag items element content hTag hSingle hElement hContent hMarkup hRaw =>
    have hTag := hTag.readable style.quoteAll
    obtain ⟨text, hMarkup', hText⟩ := hTag.markup_element kind hSingle hContent hMarkup
    have hVoid := (Bool.or_eq_false_iff.mp hSingle).1
    refine ⟨text, hMarkup', ?_⟩
    rw [hTag.normal_map, hSingle, hText, hContent.normalContent_raw style hElement, hMarkup]
    exact hTag.reads_element hVoid (adds_rawItems _ content)
      (hTag.stream_raw_closing hElement hRaw)
  | @element kind entries tag items hTag hSingle hElement hContent _ hApart ih =>
    obtain ⟨content, hMarkup, lexemes, hAdds, hRead⟩ := reads_items ih hApart
    have hTag := hTag.readable style.quoteAll
    obtain ⟨text, hMarkup', hText⟩ := hTag.markup_element kind hSingle hContent hMarkup
    have hVoid := (Bool.or_eq_false_iff.mp hSingle).1
    refine ⟨text, hMarkup', ?_⟩
    rw [hTag.normal_map, hSingle, hText, hContent.normalContent_eq style hElement]
    apply hTag.reads_element hVoid hAdds
    intro tail
    rw [modeAfter_eq_data (Or.inr hElement), (hRead _ fun _ => hTag.opens_closing tail).1,
      hTag.stream_closing [] tail]
    rfl

end Value

/-- Parsing what was rendered gives the normal form of the tree. -/
theorem parseForest_render {options : Options} {items : List Value}
    (hValid : options.validate = .ok ())
    (hItems : ∀ item ∈ items, item.Legible options.renderStyle options.reading)
    (hApart : Value.Apart items) :
    ∃ html, render options (.list items) = .ok html ∧
      parseForest options.reading html = items.map (Value.normal options.renderStyle) := by
  obtain ⟨html, hMarkup, lexemes, hAdds, hRead⟩ := Value.reads_items
    (fun item hItem => (hItems item hItem).reads) hApart
  refine ⟨html, ?_, ?_⟩
  · rw [render, renderWith, hValid]
    exact hMarkup
  · have hStream := (hRead [] fun _ => Or.inl rfl).1
    rw [List.append_nil, stream_nil, heldLexemes, if_pos rfl, List.append_nil] at hStream
    have hLexemes : (Token.scan options.reading.casing html).map (·.lexeme) = lexemes := by
      rw [map_scan, hStream]
    rw [parseForest, parse, hLexemes, hAdds.build_eq, Value.normalItems_eq_map]

/-- Single tags of an option, values that need quotes, a text with a stray `<` and raw text. -/
theorem parseForest_render_mixed :
    ∃ html, render
        { Options.default with
          singleTags := .list [.str "Note"]
          closingSingleTag := .str "slash"
          quoteAllAttributes := .bool false }
        (.list [
          .dict [(.str "tag", .str "P"),
            (.str "attrs", .dict [(.str "title", .str "a \"b\""), (.str "open", .bool true),
              (.str "n", .int 12), (.str "gone", .none)]),
            (.str "content", .list [.str "1 < 2", .dict [(.str "tag", .str "note")]])],
          .str "<!-- - -->",
          .dict [(.str "tag", .str "Script"), (.str "content", .list [.str "a</b"])]]) = .ok html ∧
      parseForest ⟨⟨false, false⟩, true⟩ html =
        [.element "P" [("title", "a &quot;b&quot;"), ("open", ""), ("n", "12")]
            [.text "1 < 2", .element "note" [] []],
          .text "<!-- - -->",
          .element "Script" [] [.text "a</b"]] := by
  have hNote : Value.Legible ⟨["note"], .slash, false⟩ ⟨⟨false, false⟩, true⟩
      (.dict [(.str "tag", .str "note")]) :=
    .single ⟨rfl, by decide, nofun, .absent⟩ (by decide)
      (Or.inr (Or.inr ⟨rfl, rfl⟩)) rfl
  have hText : Value.Legible ⟨["note"], .slash, false⟩ ⟨⟨false, false⟩, true⟩ (.str "1 < 2") :=
    .text (by decide) (by decide)
  have hAttributes : Value.LegibleAttributes ⟨false, false⟩
      (.dict [(.str "title", .str "a \"b\""), (.str "open", .bool true), (.str "n", .int 12),
        (.str "gone", .none)]) := by
    refine .given ?_ (by decide)
    intro entry hEntry
    simp only [List.mem_cons, List.not_mem_nil, or_false] at hEntry
    rcases hEntry with rfl | rfl | rfl | rfl <;>
      exact ⟨_, rfl, by decide, nofun⟩
  refine parseForest_render rfl ?_ ?_
  · intro item hItem
    simp only [List.mem_cons, List.not_mem_nil, or_false] at hItem
    rcases hItem with rfl | rfl | rfl
    · refine .element ⟨rfl, by decide, nofun, hAttributes⟩ (by decide)
        (by decide) (.given rfl) ?_ (.cons_cons ?_ (.singleton _))
      · intro inner hInner
        simp only [List.mem_cons, List.not_mem_nil, or_false] at hInner
        rcases hInner with rfl | rfl
        · exact hText
        · exact hNote
      · rintro ⟨-, s, hEq, -⟩
        cases hEq
    · exact .comment ⟨" - ".toList, by decide, by decide⟩
    · have hScript : RawElement.ofName? (lower "Script") = some .script := by decide
      exact .raw ⟨rfl, by decide, nofun, .absent⟩ (by decide) hScript
        (.given rfl) rfl (by decide)
  · refine .cons_cons ?_ (.cons_cons ?_ (.singleton _))
    · rintro ⟨⟨s, hEq, -⟩, -⟩
      cases hEq
    · rintro ⟨-, s, hEq, -⟩
      cases hEq

end Hypertext
