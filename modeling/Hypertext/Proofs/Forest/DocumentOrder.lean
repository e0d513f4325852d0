import Hypertext.Proofs.Forest.Nesting
import Hypertext.Proofs.Render.Settled

/-! # Document order

Building keeps what it is given. In document order the items of a forest are those of its lexemes
other than end tags, one by one, however its elements are nested, and end tags that were dropped or
added make no difference. Every item has markup.
-/

namespace Hypertext

set_option autoImplicit false

/-! ## The items of a tree -/

namespace Value

mutual

/-- The items of a tree, an element before those in its content. -/
def documentOrder : Value → List Value
  | atom a => [atom a]
  | seq _ items => itemsInOrder items
  | map kind entries => map kind entries :: contentInOrder entries

def itemsInOrder : List Value → List Value
  | [] => []
  | item :: rest => documentOrder item ++ itemsInOrder rest

def contentInOrder : List (Value × Value) → List Value
  | [] => []
  | (key, value) :: rest =>
    if key.same (str "content") then documentOrder value else contentInOrder rest

end

end Value

/-- Attributes as a node has them: one for each name, in the order in which the names first came,
with the first value of the name; a node without attributes has no entry for them. -/
def KeepsFirst (attributes : List Attribute) (entry : Option Value) : Prop :=
  ∃ kept : List Attribute, kept.map (·.1) = (attributes.map (·.1)).eraseDups ∧
    (∀ name, kept.lookup name = attributes.lookup name) ∧
    entry = if kept = [] then none else some (.dict (kept.map fun a => (.str a.1, .str a.2)))

/-- The item that a lexeme other than an end tag is in a tree. -/
inductive Contributes (recognizeSelfClosing : Bool) : Lexeme → Value → Prop where
  | text {lexeme : Lexeme} (hText : lexeme.isTag = false) :
      Contributes recognizeSelfClosing lexeme (.str lexeme.value)
  | element {tag : String} {attributes : List Attribute} {selfClosing : Bool}
      {entries : List (Value × Value)}
      (hKeys : (entries.map (·.1)).Sublist [.str "tag", .str "attrs", .str "content"])
      (hTag : Entries.at? entries "tag" = some (.str tag))
      (hAttributes : KeepsFirst attributes (Entries.at? entries "attrs"))
      (hContent : Entries.at? entries "content" = none ∨
        ∃ items, items ≠ [] ∧ Entries.at? entries "content" = some (.list items))
      (hLeaf : isVoid (Text.lower tag) = true ∨
          (selfClosing = true ∧ recognizeSelfClosing = true) →
        Entries.at? entries "content" = none) :
      Contributes recognizeSelfClosing (.startTag tag attributes selfClosing) (.map .node entries)

/-! ## Attributes of one name -/

theorem firstOfEachName_concat (attributes : List Attribute) (a : Attribute) :
    firstOfEachName (attributes ++ [a]) =
      if (firstOfEachName attributes).any (·.1 = a.1) then firstOfEachName attributes
      else firstOfEachName attributes ++ [a] := by
  rw [firstOfEachName, List.foldl_append]
  rfl

theorem firstOfEachName_spec (attributes : List Attribute) :
    (firstOfEachName attributes).map (·.1) = (attributes.map (·.1)).eraseDups ∧
      ∀ name, (firstOfEachName attributes).lookup name = attributes.lookup name := by
  induction attributes using List.reverseRecOn with
  | nil => exact ⟨rfl, fun _ => rfl⟩
  | append_singleton attributes a ih =>
    obtain ⟨hNames, hLookup⟩ := ih
    have hPresent : (firstOfEachName attributes).any (·.1 = a.1) = true ↔
        a.1 ∈ attributes.map (·.1) := by
      rw [← List.mem_eraseDups, ← hNames]
      simp [List.any_eq_true, List.mem_map]
    rw [firstOfEachName_concat, List.map_append, List.map_singleton, List.eraseDups_append]
    by_cases hKnown : a.1 ∈ attributes.map (·.1)
    · rw [if_pos (hPresent.mpr hKnown), hNames]
      refine ⟨by simp [List.removeAll, hKnown], fun name => ?_⟩
      rw [hLookup, List.lookup_append]
      by_cases hName : name = a.1
      · obtain ⟨value, hValue⟩ : ∃ value, attributes.lookup name = some value := by
          rw [← Option.isSome_iff_exists, List.lookup_isSome_iff]
          obtain ⟨b, hb, hSame⟩ := List.mem_map.mp hKnown
          exact ⟨b, hb, by rw [hName, hSame, beq_self_eq_true]⟩
        rw [hValue, Option.some_or]
      · rw [List.lookup_cons, beq_false_of_ne hName, List.lookup_nil, Option.or_none]
    · rw [if_neg (mt hPresent.mp hKnown), List.map_append, hNames]
      refine ⟨by simp [List.removeAll, hKnown, List.eraseDups_cons], fun name => ?_⟩
      rw [List.lookup_append, List.lookup_append, hLookup]

theorem keepsFirst_nodeEntries (tag : String) (attributes : List Attribute)
    (content : List Value) :
    KeepsFirst attributes
      (Entries.at? (Item.nodeEntries tag (firstOfEachName attributes) content) "attrs") := by
  obtain ⟨hNames, hLookup⟩ := firstOfEachName_spec attributes
  refine ⟨firstOfEachName attributes, hNames, hLookup, ?_⟩
  unfold Item.nodeEntries
  split
  · cases content <;> rfl
  · rfl

/-! ## Elements -/

namespace Item

theorem keys_nodeEntries (tag : String) (attributes : List Attribute) (content : List Value) :
    ((nodeEntries tag attributes content).map (·.1)).Sublist
      [.str "tag", .str "attrs", .str "content"] := by
  unfold nodeEntries
  by_cases hAttributes : attributes = [] <;> cases content <;> simp [hAttributes]

theorem content_nodeEntries (tag : String) (attributes : List Attribute) (content : List Value) :
    Entries.at? (nodeEntries tag attributes content) "content" =
      if content = [] then none else some (.list content) := by
  unfold nodeEntries
  split <;> cases content <;> rfl

theorem contentInOrder_nodeEntries (tag : String) (attributes : List Attribute)
    (content : List Value) :
    Value.contentInOrder (nodeEntries tag attributes content) = Value.itemsInOrder content := by
  unfold nodeEntries
  split <;> cases content <;> rfl

theorem documentOrder_element (tag : String) (attributes : List Attribute) (content : List Item) :
    (toValue (.element tag attributes content)).documentOrder =
      .map .node (nodeEntries tag attributes (toValues content)) ::
        Value.itemsInOrder (toValues content) := by
  rw [toValue, Value.documentOrder, contentInOrder_nodeEntries]

end Item

theorem contributes_element {recognizeSelfClosing : Bool} {tag : String}
    {attributes : List Attribute} {selfClosing : Bool} {content : List Value}
    (hContent : Assembly.isLeaf recognizeSelfClosing tag selfClosing = true → content = []) :
    Contributes recognizeSelfClosing (.startTag tag attributes selfClosing)
      (.map .node (Item.nodeEntries tag (firstOfEachName attributes) content)) := by
  refine .element (Item.keys_nodeEntries _ _ _) rfl (keepsFirst_nodeEntries _ _ _) ?_ ?_
  · rw [Item.content_nodeEntries]
    by_cases hNone : content = []
    · exact Or.inl (if_pos hNone)
    · exact Or.inr ⟨content, hNone, if_neg hNone⟩
  · intro hLeaf
    rw [Item.content_nodeEntries, if_pos (hContent _)]
    rcases hLeaf with hVoid | ⟨rfl, rfl⟩
    · rw [Assembly.isLeaf, hVoid, Bool.true_or]
    · rw [Assembly.isLeaf, Bool.true_and, Bool.or_true]

/-! ## The items of a forest -/

theorem Edited.filter_eq {given edited : List Lexeme} {dropped added : Nat}
    (h : Edited given edited dropped added) :
    edited.filter (·.kind ≠ .endTag) = given.filter (·.kind ≠ .endTag) := by
  induction h with
  | nil => rfl
  | keep lexeme _ ih => rw [List.filter_cons, List.filter_cons, ih]
  | drop name _ ih => rw [ih, List.filter_cons_of_neg (by simp [Lexeme.kind])]
  | add name _ ih => rw [List.filter_cons_of_neg (by simp [Lexeme.kind]), ih]

theorem Nested.contributes {recognizeSelfClosing : Bool} {lexemes : List Lexeme}
    {growth : List Growth} (h : Nested recognizeSelfClosing lexemes growth) :
    List.Forall₂ (Contributes recognizeSelfClosing) (lexemes.filter (·.kind ≠ .endTag))
      (Value.itemsInOrder (Item.toValues (Growth.items growth))) := by
  induction h with
  | nil => exact .nil
  | @text lexeme lexemes growth hText _ ih =>
    have hKept : lexeme.kind ≠ .endTag := by
      cases lexeme with
      | startTag _ _ _ | endTag _ => cases hText
      | text _ | comment _ | directive _ => exact nofun
    rw [List.filter_cons_of_pos (p := fun other : Lexeme => decide (other.kind ≠ .endTag))
      (decide_eq_true hKept)]
    exact .cons (.text hText) ih
  | @leaf tag attributes selfClosing lexemes growth hLeaf _ ih =>
    rw [List.filter_cons_of_pos (by rfl), Growth.items, Growth.item, Item.toValues,
      Value.itemsInOrder, Item.documentOrder_element]
    exact .cons (contributes_element fun _ => rfl) ih
  | @element tag name attributes selfClosing inner lexemes content growth hOpen _ _ _ ihInner ih =>
    rw [List.filter_cons_of_pos (by rfl), List.filter_append,
      List.filter_cons_of_neg (by simp [Lexeme.kind]), Growth.items, Growth.item, Item.toValues,
      Value.itemsInOrder, Item.documentOrder_element]
    refine .cons (contributes_element fun hLeaf => ?_) (List.rel_append ihInner ih)
    rw [hOpen] at hLeaf
    cases hLeaf

/-! ## Markup -/

namespace Item

mutual

theorem markup_isOk (style : RenderStyle) : ∀ item : Item, ∃ html,
    Value.markup style item.toValue = .ok html
  | .text s => ⟨s, rfl⟩
  | .element tag attributes content => by
    obtain ⟨inner, hInner⟩ := itemsMarkup_isOk style content
    have hContent := hasContent_nodeEntries tag attributes (toValues content)
    have hFalse : Value.isFalse (.str tag) = false := rfl
    rw [toValue, Value.markup, Value.elementMarkup]
    simp only [tag_nodeEntries, hFalse, attributesMarkup_nodeEntries, hContent.contentMarkup_eq,
      hInner, Bool.false_eq_true, if_false, bind, Except.bind]
    split
    · exact ⟨_, rfl⟩
    · exact ⟨_, rfl⟩

theorem itemsMarkup_isOk (style : RenderStyle) : ∀ items : List Item, ∃ html,
    Value.itemsMarkup style (toValues items) = .ok html
  | [] => ⟨"", rfl⟩
  | item :: rest => by
    obtain ⟨first, hFirst⟩ := markup_isOk style item
    obtain ⟨others, hOthers⟩ := itemsMarkup_isOk style rest
    refine ⟨first ++ others, ?_⟩
    rw [toValues, Value.itemsMarkup, hFirst, hOthers]
    rfl

end

end Item

namespace Forest

/-- In document order a forest has the items of its lexemes, each once, and whatever was parsed has
markup under all options that are valid. -/
theorem build_document_order :
    (∀ (recognizeSelfClosing : Bool) (lexemes : List Lexeme) (handle : Option OptionsRef),
      List.Forall₂ (Contributes recognizeSelfClosing) (lexemes.filter (·.kind ≠ .endTag))
        ((build recognizeSelfClosing lexemes).1.toTree handle).documentOrder) ∧
    ∀ (given rendering : Options) (text : String) (handle : Option OptionsRef),
      rendering.validate = .ok () →
        ∃ html, render rendering ((parse given.reading text).forest.toTree handle) = .ok html := by
  refine ⟨fun recognizeSelfClosing lexemes handle => ?_,
    fun given rendering text handle hValid => ?_⟩
  · obtain ⟨repaired, growth, hEdited, hNested, hBuild⟩ :=
      build_mended recognizeSelfClosing lexemes
    rw [← hEdited.filter_eq, hBuild]
    exact hNested.contributes
  · rw [render, renderWith, hValid]
    exact Item.itemsMarkup_isOk rendering.renderStyle _

/-- A link that is never closed, around an attribute given twice and an end tag of nothing. -/
theorem build_document_order_mended :
    Options.default.validate = .ok () ∧
      ∃ html, render Options.default
        ((parse Options.default.reading "<a x=1 X=2 x=3>b</i><br>").forest.toTree none) =
          .ok html := by
  have hValid : Options.default.validate = .ok () := rfl
  exact ⟨hValid, build_document_order.2 Options.default Options.default _ none hValid⟩

end Forest

end Hypertext
