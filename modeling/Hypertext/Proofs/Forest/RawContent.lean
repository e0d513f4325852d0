import Hypertext.Proofs.Forest.DocumentOrder
import Hypertext.Proofs.Token.Restart

/-! # The content of raw elements

Scanning leaves raw text at whatever is alike to the beginning of an end tag of the element, and
building closes the element at an end tag that has its name in lower case. An element is raw as a
whole where these agree: at every place where raw text could be left there is a complete end tag
with the name of the element.
-/

namespace Hypertext

set_option autoImplicit false

open Text Scan

/-! ## Lexemes -/

def IsOneText (lexemes : List Lexeme) : Prop := lexemes = [] ∨ ∃ s, lexemes = [.text s]

/-- What follows the start tag of a raw element: one text or none, and an end tag of the element
unless nothing else follows. -/
inductive RawBehind (name : String) : List Lexeme → Prop where
  | unclosed {texts : List Lexeme} (hTexts : IsOneText texts) : RawBehind name texts
  | closed {texts : List Lexeme} {endName : String} {rest : List Lexeme} (hTexts : IsOneText texts)
      (hName : lower endName = name) : RawBehind name (texts ++ .endTag endName :: rest)

def RawApart : List Lexeme → Prop
  | [] => True
  | lexeme :: rest => (lexeme.OpensRaw → RawBehind (lower lexeme.value) rest) ∧ RawApart rest

theorem rawApart_withHeld (start : Position) (held : List Char) {tokens : List Token}
    (h : RawApart (tokens.map (·.lexeme))) :
    RawApart ((withHeld start held tokens).map (·.lexeme)) := by
  have hText (s : String) : (Lexeme.text s).OpensRaw → RawBehind (lower s) (tokens.map (·.lexeme)) :=
    fun hOpens => absurd hOpens (Lexeme.not_opensRaw_of_isText rfl)
  by_cases hHeld : held = []
  · rwa [hHeld, withHeld_nil]
  · rcases head_text_or_apart tokens with ⟨p, s, rest, rfl⟩ | hApart
    · rw [withHeld_text _ _ hHeld]
      exact ⟨fun hOpens => absurd hOpens (Lexeme.not_opensRaw_of_isText rfl), h.2⟩
    · rw [withHeld_apart _ hHeld hApart]
      exact ⟨hText _, h⟩

namespace RawElement

/-- Wherever raw text could be left, there is an end tag of the element. -/
def Closes (element : RawElement) (text : List Char) : Prop :=
  ∀ rest ∈ text.tails, endsRaw element rest = true →
    (readEndTag? (rest.drop 2)).any (fun parts => lowerChars parts.1 = element.name.toList) = true

instance (element : RawElement) (text : List Char) : Decidable (element.Closes text) :=
  inferInstanceAs (Decidable (∀ rest ∈ text.tails, endsRaw element rest = true → _))

theorem Closes.of_suffix {element : RawElement} {text rest : List Char} (h : element.Closes text)
    (hRest : rest <:+ text) : element.Closes rest :=
  fun other hOther =>
    h other ((List.mem_tails _ _).mpr (((List.mem_tails _ _).mp hOther).trans hRest))

end RawElement

theorem rawBehind_tokens {casing : Casing} {element : RawElement} {text : List Char}
    (hCloses : element.Closes text) (start p : Position) :
    RawBehind element.name ((withHeld start (splitRaw element text).1
      (tokensAt casing p (splitRaw element text).2)).map (·.lexeme)) := by
  have hWhole := splitRaw_append element text
  by_cases hBehind : (splitRaw element text).2 = []
  · rw [hBehind, tokensAt_nil]
    by_cases hHeld : (splitRaw element text).1 = []
    · rw [hHeld, withHeld_nil]
      exact .unclosed (Or.inl rfl)
    · rw [withHeld_apart _ hHeld (by rintro first ⟨⟩)]
      exact .unclosed (Or.inr ⟨_, rfl⟩)
  · have hEnds := endsRaw_splitRaw element text hBehind
    generalize (splitRaw element text).1 = held at hWhole ⊢
    generalize (splitRaw element text).2 = behind at hWhole hEnds ⊢
    obtain ⟨tail, rfl⟩ : ∃ tail, behind = '<' :: '/' :: tail := by
      unfold endsRaw at hEnds
      split at hEnds
      · exact ⟨_, rfl⟩
      · cases hEnds
    have hTag := hCloses _ ((List.mem_tails _ _).mpr ⟨held, hWhole⟩) hEnds
    rw [List.drop_succ_cons, List.drop_succ_cons, List.drop_zero, Option.any_eq_true] at hTag
    obtain ⟨⟨name, rest⟩, hRead, hDecide⟩ := hTag
    have hName : lowerChars name = element.name.toList := of_decide_eq_true hDecide
    have hConstruct : construct? casing ('<' :: '/' :: tail) =
        some (.endTag (casing.tagName name), rest, .data) := by
      rw [construct?_slash, hRead, Option.map_some]
    have hEnd : lower (casing.tagName name) = element.name := by
      rw [lower_tagName, hName, String.ofList_toList]
    obtain ⟨span, hSpan, -⟩ := spells_construct hConstruct
    rw [tokensAt_construct p hConstruct hSpan]
    by_cases hHeld : held = []
    · rw [hHeld, withHeld_nil]
      exact .closed (Or.inl rfl) hEnd
    · rw [withHeld_apart _ hHeld (by rintro first ⟨⟩; exact nofun)]
      exact @RawBehind.closed _ [.text _] _ _ (Or.inr ⟨_, rfl⟩) hEnd

theorem rawApart_tokensAt {casing : Casing} (p : Position) {text : List Char}
    (hCloses : ∀ element : RawElement, element.Closes text) :
    RawApart ((tokensAt casing p text).map (·.lexeme)) := by
  induction hLength : text.length using Nat.strongRecOn generalizing p text with
  | ind length ih =>
  cases text with
  | nil =>
    rw [tokensAt_nil]
    trivial
  | cons c rest =>
    cases hOpens : (if c = '<' then construct? casing ('<' :: rest) else none) with
    | none =>
      have hNone : c = '<' → construct? casing ('<' :: rest) = none := by
        rintro rfl
        rwa [if_pos rfl] at hOpens
      have hShort : rest.length < length := by
        rw [← hLength]
        exact Nat.lt_succ_self _
      rw [tokensAt_char p hNone]
      exact rawApart_withHeld _ _ (ih _ hShort _
        (fun element => (hCloses element).of_suffix (List.suffix_cons c rest)) rfl)
    | some construct =>
      obtain ⟨lexeme, left, mode⟩ := construct
      split at hOpens
      · rename_i hChar
        subst hChar
        obtain ⟨span, hSpan, hNe, -⟩ := spells_construct hOpens
        have hLeft : left <:+ '<' :: rest := ⟨span, hSpan.symm⟩
        have hWhole := mode.takeRaw_append left
        have hBehind : (mode.takeRaw left).2 <:+ left := ⟨_, hWhole⟩
        have hShort : (mode.takeRaw left).2.length < length := by
          have hPositive := List.length_pos_iff.mpr hNe
          have hSize := hBehind.length_le
          rw [← hLength, hSpan, List.length_append]
          omega
        rw [tokensAt_construct p hOpens hSpan, List.map_cons]
        refine ⟨fun hRaw => ?_, rawApart_withHeld _ _ (ih _ hShort _
          (fun element => (hCloses element).of_suffix (hBehind.trans hLeft)) rfl)⟩
        rcases mode_of_construct hOpens with ⟨-, hNot⟩ | ⟨element, rfl, -, hElement⟩
        · exact absurd hRaw hNot
        · rw [RawElement.name_of_ofName? hElement]
          exact rawBehind_tokens ((hCloses element).of_suffix hLeft) _ _
      · cases hOpens

theorem RawApart.of_append {texts rest : List Lexeme} (h : RawApart (texts ++ rest)) :
    RawApart rest := by
  induction texts with
  | nil => exact h
  | cons lexeme texts ih => exact ih h.2

/-! ## Building -/

/-- An item in which every raw element has one text or nothing as its content. -/
inductive Item.RawWhole : Item → Prop where
  | text (s : String) : RawWhole (.text s)
  | element {tag : String} {attributes : List Attribute} {content : List Item}
      (hRaw : (RawElement.ofName? (lower tag)).isSome = true →
        content = [] ∨ ∃ s, content = [.text s])
      (hContent : ∀ item ∈ content, RawWhole item) :
      RawWhole (.element tag attributes content)

theorem Item.RawWhole.of_oneText {lexemes : List Lexeme} (tag : String)
    (attributes : List Attribute) (h : IsOneText lexemes) :
    RawWhole (.element tag attributes (lexemes.map fun lexeme => .text lexeme.value)) := by
  rcases h with rfl | ⟨s, rfl⟩
  · exact .element (fun _ => Or.inl rfl) (List.forall_mem_nil _)
  · refine .element (fun _ => Or.inr ⟨s, rfl⟩) ?_
    intro item hItem
    rw [List.mem_singleton.mp hItem]
    exact .text _

namespace Assembly

structure RawClosed (items : List Item) (stack : List OpenElement) : Prop where
  whole : ∀ item ∈ items, item.RawWhole
  plain : ∀ element ∈ stack, (RawElement.ofName? (lower element.tag)).isSome = false
  before : ∀ element ∈ stack, ∀ item ∈ element.before, item.RawWhole

theorem RawClosed.close {items : List Item} {stack : List OpenElement}
    (h : RawClosed items stack) (count : Nat) :
    RawClosed (close count items stack).1 (close count items stack).2 := by
  induction count generalizing items stack with
  | zero => exact h
  | succ count ih =>
    cases stack with
    | nil => exact h
    | cons element stack =>
      apply ih
      refine ⟨?_, fun other hOther => h.plain other (List.mem_cons_of_mem element hOther),
        fun other hOther => h.before other (List.mem_cons_of_mem element hOther)⟩
      intro item hItem
      rcases List.mem_cons.mp hItem with rfl | hBefore
      · have hPlain := h.plain element List.mem_cons_self
        refine .element (fun hRaw => ?_) fun item hItem => h.whole item (List.mem_reverse.mp hItem)
        rw [hPlain] at hRaw
        cases hRaw
      · exact h.before element List.mem_cons_self item hBefore

theorem RawClosed.add {items : List Item} {stack : List OpenElement} (h : RawClosed items stack)
    {item : Item} (hItem : item.RawWhole) : RawClosed (item :: items) stack :=
  ⟨List.forall_mem_cons.mpr ⟨hItem, h.whole⟩, h.plain, h.before⟩

theorem RawClosed.addLexeme {assembly : Assembly} (h : RawClosed assembly.items assembly.stack)
    {lexeme : Lexeme} (hPlain : ¬ lexeme.OpensRaw) :
    RawClosed (assembly.addLexeme true lexeme).items (assembly.addLexeme true lexeme).stack := by
  cases lexeme with
  | startTag tag attributes selfClosing =>
    rw [Assembly.addLexeme]
    split
    · exact h.add (.element (fun _ => Or.inl rfl) (List.forall_mem_nil _))
    · rename_i hLeaf
      rw [Bool.not_eq_true, isLeaf, Bool.or_eq_false_iff, Bool.and_true] at hLeaf
      obtain ⟨-, rfl⟩ := hLeaf
      have hTag : (RawElement.ofName? (lower tag)).isSome = false := by
        cases hElement : RawElement.ofName? (lower tag) with
        | none => rfl
        | some element => exact absurd ⟨tag, attributes, element, rfl, hElement⟩ hPlain
      exact ⟨List.forall_mem_nil _, List.forall_mem_cons.mpr ⟨hTag, h.plain⟩,
        List.forall_mem_cons.mpr ⟨h.whole, h.before⟩⟩
  | endTag name =>
    cases hFind : assembly.stack.findIdx? (·.name = lower name) with
    | none =>
      rw [addLexeme_endTag_of_none _ _ hFind]
      exact h
    | some index =>
      have hClose := h.close (index + 1)
      rw [close_stack] at hClose
      rw [addLexeme_endTag_of_some _ _ hFind]
      exact hClose
  | text s | comment s | directive s => exact h.add (.text s)

theorem foldl_oneText (recognizeSelfClosing : Bool) {texts : List Lexeme} (hTexts : IsOneText texts)
    (assembly : Assembly) :
    texts.foldl (Assembly.addLexeme recognizeSelfClosing) assembly =
      { assembly with
        items := (texts.map fun lexeme => .text lexeme.value).reverse ++ assembly.items } := by
  rcases hTexts with rfl | ⟨s, rfl⟩
  · rfl
  · rfl

/-- While no raw element is open, lexemes behind whose raw start tags the elements end build raw
elements that are whole. A raw element is gone through in one piece. -/
theorem RawClosed.finish {assembly : Assembly} (h : RawClosed assembly.items assembly.stack)
    {lexemes : List Lexeme} (hApart : RawApart lexemes) :
    ∀ item ∈ (lexemes.foldl (Assembly.addLexeme true) assembly).finish.1, item.RawWhole := by
  induction hLength : lexemes.length using Nat.strongRecOn generalizing lexemes assembly with
  | ind length ih =>
  cases lexemes with
  | nil =>
    intro item hItem
    exact (h.close assembly.stack.length).whole item (List.mem_reverse.mp hItem)
  | cons lexeme rest =>
    rw [List.length_cons] at hLength
    rw [List.foldl_cons]
    by_cases hOpens : lexeme.OpensRaw
    · have hBehind := hApart.1 hOpens
      obtain ⟨tag, attributes, element, rfl, hElement⟩ := hOpens
      have hOpen : isLeaf true tag false = false := by
        rw [isLeaf, Item.isVoid_eq_false_of_ofName? hElement]
        rfl
      have hStart : assembly.addLexeme true (.startTag tag attributes false) =
          { items := []
            stack := ⟨lower tag, tag, firstOfEachName attributes, assembly.items⟩ :: assembly.stack
            counts :=
              { assembly.counts with
                elements := assembly.counts.elements + 1
                depth := max assembly.counts.depth (assembly.stack.length + 1) } } := by
        simp only [Assembly.addLexeme, hOpen, Bool.false_eq_true, if_false]
      rw [hStart]
      cases hBehind with
      | unclosed hTexts =>
        rw [foldl_oneText true hTexts, Assembly.finish]
        have hWhole := h.add (Item.RawWhole.of_oneText tag (firstOfEachName attributes) hTexts)
        intro item hItem
        apply (hWhole.close assembly.stack.length).whole
        rw [List.mem_reverse, List.append_nil, List.length_cons, Assembly.close,
          List.reverse_reverse] at hItem
        exact hItem
      | @closed texts endName rest hTexts hName =>
        have hFind : (⟨lower tag, tag, firstOfEachName attributes, assembly.items⟩ ::
            assembly.stack).findIdx? (·.name = lower endName) = some 0 := by
          rw [List.findIdx?_cons]
          exact if_pos (decide_eq_true hName.symm)
        rw [List.foldl_append, foldl_oneText true hTexts, List.foldl_cons,
          addLexeme_endTag_of_some _ _ hFind]
        apply ih rest.length _ _ hApart.2.of_append.2 rfl
        · rw [← hLength, List.length_append, List.length_cons]
          omega
        · rw [List.append_nil]
          simp only [Assembly.close, List.reverse_reverse, List.drop_succ_cons]
          exact h.add (Item.RawWhole.of_oneText tag (firstOfEachName attributes) hTexts)
    · exact ih rest.length (by omega) (h.addLexeme hOpens) hApart.2 rfl

end Assembly

/-! ## Trees -/

def Value.RawContent (node : Value) : Prop :=
  ∀ kind entries tag, node = .map kind entries → Entries.at? entries "tag" = some (.str tag) →
    (RawElement.ofName? (lower tag)).isSome = true →
      Entries.at? entries "content" = Option.none ∨
        ∃ s, Entries.at? entries "content" = some (.list [.str s])

namespace Item

theorem mem_itemsInOrder {node : Value} {items : List Item}
    (h : node ∈ Value.itemsInOrder (toValues items)) :
    ∃ item ∈ items, node ∈ item.toValue.documentOrder := by
  induction items with
  | nil => cases h
  | cons item items ih =>
    rw [toValues, Value.itemsInOrder] at h
    rcases List.mem_append.mp h with hHere | hLater
    · exact ⟨item, List.mem_cons_self, hHere⟩
    · obtain ⟨other, hOther, hNode⟩ := ih hLater
      exact ⟨other, List.mem_cons_of_mem item hOther, hNode⟩

theorem RawWhole.rawContent {item : Item} (h : item.RawWhole) :
    ∀ node ∈ item.toValue.documentOrder, node.RawContent := by
  induction h with
  | text s =>
    intro node hNode kind entries tag hMap
    rw [List.mem_singleton.mp hNode] at hMap
    cases hMap
  | @element tag attributes content hRaw _ ih =>
    intro node hNode
    rw [documentOrder_element] at hNode
    rcases List.mem_cons.mp hNode with rfl | hInside
    · rintro kind entries name ⟨⟩ hTag hElement
      cases hTag
      rw [content_nodeEntries]
      rcases hRaw hElement with rfl | ⟨s, rfl⟩
      · exact Or.inl rfl
      · exact Or.inr ⟨s, rfl⟩
    · obtain ⟨inner, hInner, hOrder⟩ := mem_itemsInOrder hInside
      exact ih inner hInner node hOrder

end Item

/-- Where raw text is left at end tags of its element only, parsing gives every raw element one
text or nothing as its content. -/
theorem parse_rawContent {reading : Reading} (hSelfClosing : reading.recognizeSelfClosing = true)
    {text : String} (hCloses : ∀ element : RawElement, element.Closes text.toList)
    (handle : Option OptionsRef) :
    ∀ node ∈ ((parse reading text).forest.toTree handle).documentOrder, node.RawContent := by
  have hApart := @rawApart_tokensAt reading.casing .start text.toList hCloses
  have hForest : ∀ item ∈ (parse reading text).forest, item.RawWhole := by
    rw [parse, hSelfClosing]
    exact @Assembly.RawClosed.finish .empty
      ⟨List.forall_mem_nil _, List.forall_mem_nil _, List.forall_mem_nil _⟩ _ hApart
  intro node hNode
  obtain ⟨item, hItem, hOrder⟩ := Item.mem_itemsInOrder hNode
  exact (hForest item hItem).rawContent node hOrder

/-- End tags in another case and with blanks close raw elements. -/
theorem parse_rawContent_cased :
    (∀ element : RawElement,
      element.Closes "<script>a</b><i></ SCRIPT\t><style>c".toList) ∧
    ∀ node ∈ ((parse ⟨⟨false, false⟩, true⟩
      "<script>a</b><i></ SCRIPT\t><style>c").forest.toTree none).documentOrder,
        node.RawContent := by
  have hCloses : ∀ element : RawElement,
      element.Closes "<script>a</b><i></ SCRIPT\t><style>c".toList := by
    intro element
    cases element <;> decide +kernel
  exact ⟨hCloses, parse_rawContent rfl hCloses none⟩

/-- An end tag with a long s, and one that is never complete: both end raw text, and neither closes
the element. -/
theorem parse_rawContent_torn :
    parseForest ⟨⟨false, false⟩, true⟩ "<script>a</ſcript>b<b>c</b></script>" =
        [.element "script" [] [.text "a", .text "b", .element "b" [] [.text "c"]]] ∧
      parseForest ⟨⟨false, false⟩, true⟩ "<script>a</script <!-- b" =
        [.element "script" [] [.text "a</script ", .text "<!-- b"]] := by
  have hLong : (Token.scan ⟨false, false⟩ "<script>a</ſcript>b<b>c</b></script>").map (·.lexeme) =
      [.startTag "script" [] false, .text "a", .endTag "ſcript", .text "b", .startTag "b" [] false,
        .text "c", .endTag "b", .endTag "script"] := by
    decide +kernel
  have hOpen : (Token.scan ⟨false, false⟩ "<script>a</script <!-- b").map (·.lexeme) =
      [.startTag "script" [] false, .text "a</script ", .comment "<!-- b"] := by
    decide +kernel
  simp only [parseForest, parse, hLong, hOpen]
  exact ⟨rfl, rfl⟩

end Hypertext
