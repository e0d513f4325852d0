import Hypertext.Proofs.Render.RoundTrip
import Hypertext.Proofs.Render.Scanned

/-! # Settled items

Markup that needs no repair is parsed into items of a few forms. Their markup is read back to the
same items with the quotes in attribute values escaped, and escaping them once more changes
nothing, so the markup of the normal form is the same. Names of attributes are kept as they were
read, which is why the written tags are read here without the conditions of a legible tree.
-/

namespace Hypertext

set_option autoImplicit false

open Text Scan

def plainReading : Reading := ⟨.asWritten, true⟩

abbrev plainStyle : RenderStyle := ⟨[], .plain, true⟩

namespace Item

/-! ## Elements as values -/

theorem tag_nodeEntries (tag : String) (attributes : List Attribute) (content : List Value) :
    Value.field (nodeEntries tag attributes content) "tag" = .str tag := rfl

theorem attrs_nodeEntries (tag : String) (attributes : List Attribute) (content : List Value) :
    Value.field (nodeEntries tag attributes content) "attrs" =
      if attributes = [] then .none
      else .dict (attributes.map fun a => (.str a.1, .str a.2)) := by
  unfold nodeEntries
  split
  · split <;> rfl
  · rfl

theorem hasContent_nodeEntries (tag : String) (attributes : List Attribute)
    (content : List Value) : Value.HasContent (nodeEntries tag attributes content) content := by
  cases content with
  | nil =>
    apply Value.HasContent.absent
    unfold nodeEntries
    split <;> rfl
  | cons value rest =>
    apply @Value.HasContent.given _ .list
    unfold nodeEntries
    split <;> rfl

theorem attributeEntries_nodeEntries (tag : String) (attributes : List Attribute)
    (content : List Value) :
    Value.attributeEntries (Value.field (nodeEntries tag attributes content) "attrs") =
      attributes.map fun a => (.str a.1, .str a.2) := by
  rw [attrs_nodeEntries]
  split
  · rename_i hNone
    rw [hNone]
    rfl
  · rfl

theorem attributesMarkup_nodeEntries (quoteAll : Bool) (tag : String)
    (attributes : List Attribute) (content : List Value) :
    Value.attributesMarkup quoteAll
        (Value.field (nodeEntries tag attributes content) "attrs") =
      .ok (String.ofList (Value.attributeChars quoteAll (Value.attributeEntries
        (Value.field (nodeEntries tag attributes content) "attrs")))) := by
  rw [attributeEntries_nodeEntries, attrs_nodeEntries]
  split
  · rename_i hNone
    rw [hNone]
    rfl
  · exact Value.attributesMarkup_map quoteAll .dict _

def escapedAttributes (attributes : List Attribute) : List Attribute :=
  attributes.map fun a => (a.1, String.ofList (Value.quoteEscaped a.2.toList))

theorem attributesOf_nodeEntries (tag : String) (attributes : List Attribute)
    (content : List Value) :
    Value.attributesOf (nodeEntries tag attributes content) = escapedAttributes attributes := by
  have hBack (a : Attribute) : Value.readBack? (.str a.2) =
      some (String.ofList (Value.quoteEscaped a.2.toList)) := rfl
  rw [Value.attributesOf, attributeEntries_nodeEntries, Value.attributesReadBack,
    List.filterMap_map, escapedAttributes, ← List.filterMap_eq_map]
  apply List.filterMap_congr
  intro a _
  simp only [Function.comp_apply, hBack, Option.map_some, Value.text_str]

theorem attributeChars_escapedAttributes (attributes : List Attribute) :
    Value.attributeChars true ((escapedAttributes attributes).map fun a => (.str a.1, .str a.2)) =
      Value.attributeChars true (attributes.map fun a => (.str a.1, .str a.2)) := by
  unfold Value.attributeChars escapedAttributes
  rw [List.map_map, List.flatMap_map, List.flatMap_map]
  apply congrArg fun chars => attributes.flatMap chars
  funext a
  have hTwice : Value.quoteEscaped (Value.quoteEscaped a.2.toList) = Value.quoteEscaped a.2.toList :=
    Value.quoteEscaped_eq_self (Value.quote_not_mem_quoteEscaped _)
  simp [Value.attributeMarkup, hTwice]

/-! ## Settled items -/

/-- The tag of an element that was parsed: its name can stand in an end tag as well, and only the
first attribute of a name was kept. -/
structure TakenTag (tag : String) (attributes : List Attribute) : Prop where
  names : NamesTag tag.toList
  taken : ∀ a ∈ attributes, TakenName a.1.toList
  distinct : (attributes.map (·.1)).Nodup

namespace TakenTag

variable {tag : String} {attributes : List Attribute}

theorem map_fst_escapedAttributes (attributes : List Attribute) :
    (escapedAttributes attributes).map (·.1) = attributes.map (·.1) := by
  rw [escapedAttributes, List.map_map]
  rfl

theorem escaped (h : TakenTag tag attributes) : TakenTag tag (escapedAttributes attributes) where
  names := h.names
  taken := by
    intro a ha
    obtain ⟨b, hb, rfl⟩ := List.mem_map.mp ha
    exact h.taken b hb
  distinct := by
    rw [map_fst_escapedAttributes]
    exact h.distinct

theorem readable (h : TakenTag tag attributes) (content : List Value) :
    Value.ReadableTag plainReading.casing true (nodeEntries tag attributes content) tag where
  field_eq := tag_nodeEntries tag attributes content
  names := h.names
  cased := nofun
  markup_eq := attributesMarkup_nodeEntries true tag attributes content
  spelt := by
    intro ending selfClosing rest hEnds hEnding
    rw [attributesOf_nodeEntries, attributeEntries_nodeEntries]
    obtain ⟨hStops, hRead⟩ := Value.readAttributes?_quoted h.taken hEnds hEnding
    refine ⟨hStops, _, hRead, ?_⟩
    rw [escapedAttributes, List.map_map]
    apply List.map_congr_left
    intro a _
    have hName : plainReading.casing.attributeName a.1.toList = a.1 := String.ofList_toList
    simp only [Function.comp_apply, hName]
  distinct := by
    rw [attributesOf_nodeEntries]
    exact firstOfEachName_eq_self h.escaped.distinct

end TakenTag

/-- The items that parsing leaves of markup in which nothing had to be repaired. -/
inductive Settled : Item → Prop where
  | text {s : String} (hNe : s ≠ "") (hPlain : '<' ∉ s.toList) : Settled (.text s)
  | comment {s : String} (hComment : IsComment s.toList) : Settled (.text s)
  | directive {s : String} (hDirective : IsDirective s.toList) : Settled (.text s)
  | single {tag : String} {attributes : List Attribute} (hTag : TakenTag tag attributes)
    (hVoid : isVoid (lower tag) = true) : Settled (.element tag attributes [])
  | raw {tag : String} {attributes : List Attribute} {element : RawElement} {text : List Char}
    (hTag : TakenTag tag attributes) (hElement : RawElement.ofName? (lower tag) = some element)
    (hRaw : IsRaw element text) :
    Settled (.element tag attributes (Value.rawItems (.ok (String.ofList text))))
  | element {tag : String} {attributes : List Attribute} {content : List Item}
    (hTag : TakenTag tag attributes) (hVoid : isVoid (lower tag) = false)
    (hElement : RawElement.ofName? (lower tag) = none)
    (hContent : ∀ item ∈ content, Settled item) (hApart : Value.Apart (toValues content)) :
    Settled (.element tag attributes content)

theorem toValues_eq_map (items : List Item) : toValues items = items.map toValue := by
  induction items with
  | nil => rfl
  | cons item items ih => rw [toValues, ih, List.map_cons]

theorem isPlain_of_not_mem {text : List Char} (h : '<' ∉ text) : IsPlain text := by
  intro rest hRest
  exact absurd (hRest.subset List.mem_cons_self) h

/-! ## Serialising settled items -/

theorem isSingle_plainStyle (tag : String) : plainStyle.isSingle tag = isVoid (lower tag) :=
  Bool.or_false _

theorem isVoid_eq_false_of_ofName? {name : String} {element : RawElement}
    (h : RawElement.ofName? name = some element) : isVoid name = false := by
  apply Bool.eq_false_iff.mpr
  intro hVoid
  rw [ofName?_eq_none_of_isVoid hVoid] at h
  cases h

theorem rawItems_cases (text : List Char) :
    (text = [] ∧ Value.rawItems (.ok (String.ofList text)) = []) ∨
      (text ≠ [] ∧ Value.rawItems (.ok (String.ofList text)) = [.text (String.ofList text)]) := by
  by_cases hText : text = []
  · exact Or.inl ⟨hText, by rw [hText]; rfl⟩
  · refine Or.inr ⟨hText, if_neg ?_⟩
    intro hEmpty
    apply hText
    rw [← String.toList_ofList (l := text), hEmpty]
    rfl

theorem itemsMarkup_rawItems (style : RenderStyle) (text : List Char) :
    Value.itemsMarkup style (toValues (Value.rawItems (.ok (String.ofList text)))) =
      .ok (String.ofList text) := by
  rcases rawItems_cases text with ⟨rfl, hItems⟩ | ⟨-, hItems⟩
  · rw [hItems]
    rfl
  · rw [hItems]
    change Except.ok (String.ofList text ++ "") = _
    rw [String.append_empty]

namespace TakenTag

variable {tag : String} {attributes : List Attribute}

theorem markup_void (h : TakenTag tag attributes) (hVoid : isVoid (lower tag) = true) :
    ∃ html, Value.markup plainStyle (toValue (.element tag attributes [])) = .ok html ∧
      html.toList = Value.opening true (nodeEntries tag attributes []) tag ++ ['>'] := by
  have hReadable : Value.ReadableTag plainReading.casing plainStyle.quoteAll
    (nodeEntries tag attributes []) tag := h.readable []
  obtain ⟨html, hMarkup, hChars⟩ :=
    hReadable.markup_single .node ((isSingle_plainStyle tag).trans hVoid)
  refine ⟨html, hMarkup, ?_⟩
  rw [hChars, ClosingStyle.markup]
  rfl

theorem markup_content (h : TakenTag tag attributes) (hVoid : isVoid (lower tag) = false)
    {content : List Item} {inner : String}
    (hContent : Value.itemsMarkup plainStyle (toValues content) = .ok inner) :
    ∃ html, Value.markup plainStyle (toValue (.element tag attributes content)) = .ok html ∧
      html.toList = Value.opening true (nodeEntries tag attributes (toValues content)) tag ++
        '>' :: (inner.toList ++ '<' :: '/' :: (tag.toList ++ ['>'])) := by
  have hReadable : Value.ReadableTag plainReading.casing plainStyle.quoteAll
    (nodeEntries tag attributes (toValues content)) tag := h.readable (toValues content)
  exact hReadable.markup_element .node ((isSingle_plainStyle tag).trans hVoid)
    (hasContent_nodeEntries tag attributes (toValues content)) hContent

theorem normal_eq (h : TakenTag tag attributes) (content : List Item) :
    Value.normal plainStyle (toValue (.element tag attributes content)) =
      .element tag (escapedAttributes attributes)
        (if isVoid (lower tag) = true then []
          else Value.normalContent plainStyle tag
            (nodeEntries tag attributes (toValues content))) := by
  have hNormal := (h.readable (toValues content)).normal_map plainStyle .node
  rw [attributesOf_nodeEntries, isSingle_plainStyle] at hNormal
  exact hNormal

theorem normal_raw (h : TakenTag tag attributes) {element : RawElement}
    (hElement : RawElement.ofName? (lower tag) = some element) (text : List Char) :
    Value.normal plainStyle
        (toValue (.element tag attributes (Value.rawItems (.ok (String.ofList text))))) =
      .element tag (escapedAttributes attributes)
        (Value.rawItems (.ok (String.ofList text))) := by
  have hContent := (hasContent_nodeEntries tag attributes
    (toValues (Value.rawItems (.ok (String.ofList text))))).normalContent_raw plainStyle hElement
  rw [itemsMarkup_rawItems] at hContent
  rw [h.normal_eq, if_neg (Bool.eq_false_iff.mp (isVoid_eq_false_of_ofName? hElement)), hContent]

theorem normal_element (h : TakenTag tag attributes) (hVoid : isVoid (lower tag) = false)
    (hElement : RawElement.ofName? (lower tag) = none) (content : List Item) :
    Value.normal plainStyle (toValue (.element tag attributes content)) =
      .element tag (escapedAttributes attributes)
        (Value.normalItems plainStyle (toValues content)) := by
  rw [h.normal_eq, if_neg (Bool.eq_false_iff.mp hVoid),
    (hasContent_nodeEntries tag attributes (toValues content)).normalContent_eq plainStyle hElement]

theorem opening_escapedAttributes (tag : String) (attributes : List Attribute)
    (content others : List Value) :
    Value.opening true (nodeEntries tag (escapedAttributes attributes) content) tag =
      Value.opening true (nodeEntries tag attributes others) tag := by
  simp only [Value.opening, attributeEntries_nodeEntries, attributeChars_escapedAttributes]

theorem markup_escaped (h : TakenTag tag attributes) {content others : List Item} {inner : String}
    (hVoid : isVoid (lower tag) = false)
    (hContent : Value.itemsMarkup plainStyle (toValues content) = .ok inner)
    (hOthers : Value.itemsMarkup plainStyle (toValues others) = .ok inner) :
    Value.markup plainStyle (toValue (.element tag (escapedAttributes attributes) others)) =
      Value.markup plainStyle (toValue (.element tag attributes content)) := by
  obtain ⟨first, hFirst, hChars⟩ := h.markup_content hVoid hContent
  obtain ⟨second, hSecond, hChars'⟩ := h.escaped.markup_content hVoid hOthers
  rw [hFirst, hSecond]
  apply congrArg Except.ok
  apply String.toList_inj.mp
  rw [hChars, hChars', opening_escapedAttributes tag attributes _ (toValues content)]

end TakenTag

namespace Settled

theorem reads_content {content : List Item}
    (hItems : ∀ item ∈ content, ∃ html, Value.markup plainStyle item.toValue = .ok html ∧
      Reads plainReading (Value.IsPlainText item.toValue) (Value.IsPlainText item.toValue)
        html.toList [Value.normal plainStyle item.toValue])
    (hApart : Value.Apart (toValues content)) :
    ∃ html, Value.itemsMarkup plainStyle (toValues content) = .ok html ∧
      Reads plainReading (∃ first ∈ (toValues content).head?, Value.IsPlainText first) True
        html.toList (Value.normalItems plainStyle (toValues content)) := by
  apply Value.reads_items _ hApart
  intro value hValue
  rw [toValues_eq_map] at hValue
  obtain ⟨item, hItem, rfl⟩ := List.mem_map.mp hValue
  exact hItems item hItem

/-- The markup of a settled item is read back as the item in its normal form. -/
theorem reads {item : Item} (h : Settled item) :
    ∃ html, Value.markup plainStyle item.toValue = .ok html ∧
      Reads plainReading (Value.IsPlainText item.toValue) (Value.IsPlainText item.toValue)
        html.toList [Value.normal plainStyle item.toValue] := by
  induction h with
  | @text s hNe hPlain =>
    have hText := isPlain_of_not_mem hPlain
    exact ⟨s, rfl, reads_plain hNe hText ⟨s, rfl, hText⟩ ⟨s, rfl, hText⟩⟩
  | @comment s hComment => exact ⟨s, rfl, reads_comment hComment⟩
  | @directive s hDirective => exact ⟨s, rfl, reads_directive hDirective⟩
  | @single tag attributes hTag hVoid =>
    obtain ⟨html, hMarkup, hChars⟩ := hTag.markup_void hVoid
    refine ⟨html, hMarkup, ?_⟩
    rw [hTag.normal_eq, if_pos hVoid, hChars, ← attributesOf_nodeEntries tag attributes []]
    refine (hTag.readable []).reads_leaf ?_ (Or.inr (ofName?_eq_none_of_isVoid hVoid))
      endsAttribute_close
    rw [Assembly.isLeaf, hVoid, Bool.true_or]
  | @raw tag attributes element text hTag hElement hRaw =>
    have hVoid := isVoid_eq_false_of_ofName? hElement
    have hReadable := hTag.readable (toValues (Value.rawItems (.ok (String.ofList text))))
    obtain ⟨html, hMarkup, hChars⟩ :=
      hTag.markup_content hVoid (itemsMarkup_rawItems plainStyle text)
    refine ⟨html, hMarkup, ?_⟩
    rw [hTag.normal_raw hElement, hChars, ← attributesOf_nodeEntries]
    apply hReadable.reads_element hVoid (Value.adds_rawItems true (String.ofList text))
    rw [String.toList_ofList]
    exact hReadable.stream_raw_closing hElement hRaw
  | @element tag attributes content hTag hVoid hElement _ hApart ih =>
    have hReadable := hTag.readable (toValues content)
    obtain ⟨inner, hContent, lexemes, hAdds, hRead⟩ := reads_content ih hApart
    obtain ⟨html, hMarkup, hChars⟩ := hTag.markup_content hVoid hContent
    refine ⟨html, hMarkup, ?_⟩
    rw [hTag.normal_element hVoid hElement, hChars, ← attributesOf_nodeEntries]
    apply hReadable.reads_element hVoid hAdds
    intro tail
    rw [modeAfter_eq_data (Or.inr hElement), (hRead _ fun _ => hReadable.opens_closing tail).1,
      hReadable.stream_closing [] tail]
    rfl

theorem itemsMarkup_normalItems {content : List Item}
    (hItems : ∀ item ∈ content, Value.markup plainStyle
      (Value.normal plainStyle item.toValue).toValue = Value.markup plainStyle item.toValue) :
    Value.itemsMarkup plainStyle (toValues (Value.normalItems plainStyle (toValues content))) =
      Value.itemsMarkup plainStyle (toValues content) := by
  induction content with
  | nil => rfl
  | cons item content ih =>
    have hRest := ih fun other hOther => hItems other (List.mem_cons_of_mem item hOther)
    rw [toValues, Value.normalItems, toValues, Value.itemsMarkup, Value.itemsMarkup,
      hItems item List.mem_cons_self, hRest]

theorem markup_normal {item : Item} (h : Settled item) :
    Value.markup plainStyle (Value.normal plainStyle item.toValue).toValue =
      Value.markup plainStyle item.toValue := by
  induction h with
  | text | comment | directive => rfl
  | @single tag attributes hTag hVoid =>
    obtain ⟨first, hFirst, hChars⟩ := hTag.markup_void hVoid
    obtain ⟨second, hSecond, hChars'⟩ := hTag.escaped.markup_void hVoid
    rw [hTag.normal_eq, if_pos hVoid, hFirst, hSecond]
    apply congrArg Except.ok
    apply String.toList_inj.mp
    rw [hChars, hChars', TakenTag.opening_escapedAttributes tag attributes _ []]
  | @raw tag attributes element text hTag hElement hRaw =>
    have hContent := itemsMarkup_rawItems plainStyle text
    rw [hTag.normal_raw hElement]
    exact hTag.markup_escaped (isVoid_eq_false_of_ofName? hElement) hContent hContent
  | @element tag attributes content hTag hVoid hElement hItems hApart ih =>
    obtain ⟨inner, hContent, -⟩ := reads_content (fun item hItem => (hItems item hItem).reads) hApart
    rw [hTag.normal_element hVoid hElement]
    exact hTag.markup_escaped hVoid hContent ((itemsMarkup_normalItems ih).trans hContent)

end Settled

end Item

end Hypertext
