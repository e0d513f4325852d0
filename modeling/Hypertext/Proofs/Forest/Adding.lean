import Hypertext.Proofs.Forest.Nesting

/-! # Lexemes that add items

Some lexemes only add items to the innermost open element and leave every open element open. Void
elements are never open, so an end tag of one adds nothing, and lexemes that add items to an open
element make the content of it.
-/

namespace Hypertext

set_option autoImplicit false

theorem foldl_firstOfEachName (kept attributes : List Attribute)
    (hDistinct : ((kept ++ attributes).map (·.1)).Nodup) :
    attributes.foldl (fun kept a => if kept.any (·.1 = a.1) then kept else kept ++ [a]) kept =
      kept ++ attributes := by
  induction attributes generalizing kept with
  | nil => exact (List.append_nil kept).symm
  | cons a attributes ih =>
    have hNew : ¬ kept.any (fun b => decide (b.1 = a.1)) = true := by
      intro hAny
      obtain ⟨b, hb, hEq⟩ := List.any_eq_true.mp hAny
      rw [List.map_append, List.nodup_append] at hDistinct
      exact hDistinct.2.2 b.1 (List.mem_map_of_mem hb) a.1 (List.mem_map_of_mem List.mem_cons_self)
        (of_decide_eq_true hEq)
    rw [List.foldl_cons, if_neg hNew, ih (kept ++ [a]) (by rwa [List.append_assoc]),
      List.append_assoc]
    rfl

theorem firstOfEachName_eq_self {attributes : List Attribute}
    (hDistinct : (attributes.map (·.1)).Nodup) : firstOfEachName attributes = attributes :=
  foldl_firstOfEachName [] attributes hDistinct

theorem foldl_firstOfEachName_spec (kept attributes : List Attribute)
    (hDistinct : (kept.map (·.1)).Nodup) :
    let first := attributes.foldl
      (fun kept a => if kept.any (·.1 = a.1) then kept else kept ++ [a]) kept
    (first.map (·.1)).Nodup ∧ ∀ a ∈ first, a ∈ kept ∨ a ∈ attributes := by
  induction attributes generalizing kept with
  | nil => exact ⟨hDistinct, fun a ha => Or.inl ha⟩
  | cons a attributes ih =>
    rw [List.foldl_cons]
    split
    · obtain ⟨hFirst, hMem⟩ := ih kept hDistinct
      exact ⟨hFirst, fun b hb => (hMem b hb).imp_right (List.mem_cons_of_mem a)⟩
    · rename_i hNew
      have hKept : ((kept ++ [a]).map (·.1)).Nodup := by
        rw [List.map_append, List.nodup_append]
        refine ⟨hDistinct, List.nodup_cons.mpr ⟨List.not_mem_nil, List.nodup_nil⟩, ?_⟩
        intro name hName other hOther hEq
        rw [List.mem_singleton.mp hOther] at hEq
        obtain ⟨b, hb, rfl⟩ := List.mem_map.mp hName
        exact hNew (List.any_eq_true.mpr ⟨b, hb, decide_eq_true hEq⟩)
      obtain ⟨hFirst, hMem⟩ := ih (kept ++ [a]) hKept
      refine ⟨hFirst, ?_⟩
      intro b hb
      rcases hMem b hb with hOld | hLater
      · rcases List.mem_append.mp hOld with hOld | hHere
        · exact Or.inl hOld
        · exact Or.inr (List.mem_cons.mpr (Or.inl (List.mem_singleton.mp hHere)))
      · exact Or.inr (List.mem_cons_of_mem a hLater)

theorem nodup_firstOfEachName (attributes : List Attribute) :
    ((firstOfEachName attributes).map (·.1)).Nodup :=
  (foldl_firstOfEachName_spec [] attributes List.nodup_nil).1

theorem mem_of_mem_firstOfEachName {attributes : List Attribute} :
    ∀ a ∈ firstOfEachName attributes, a ∈ attributes := by
  intro a ha
  rcases (foldl_firstOfEachName_spec [] attributes List.nodup_nil).2 a ha with hNone | hMem
  · cases hNone
  · exact hMem

namespace Assembly

def WithoutVoid (assembly : Assembly) : Prop := ∀ element ∈ assembly.stack, isVoid element.name = false

def Adds (recognizeSelfClosing : Bool) (lexemes : List Lexeme) (items : List Item) : Prop :=
  ∀ assembly : Assembly, assembly.WithoutVoid →
    (lexemes.foldl (addLexeme recognizeSelfClosing) assembly).items =
        items.reverse ++ assembly.items ∧
      (lexemes.foldl (addLexeme recognizeSelfClosing) assembly).stack = assembly.stack

variable {recognizeSelfClosing : Bool}

theorem adds_nil : Adds recognizeSelfClosing [] [] := fun _ _ => ⟨rfl, rfl⟩

theorem Adds.append {first second : List Lexeme} {items others : List Item}
    (hFirst : Adds recognizeSelfClosing first items)
    (hSecond : Adds recognizeSelfClosing second others) :
    Adds recognizeSelfClosing (first ++ second) (items ++ others) := by
  intro assembly hVoid
  obtain ⟨hItems, hStack⟩ := hFirst assembly hVoid
  obtain ⟨hItems', hStack'⟩ := hSecond (first.foldl (addLexeme recognizeSelfClosing) assembly)
    (by rw [WithoutVoid, hStack]; exact hVoid)
  rw [List.foldl_append]
  constructor
  · rw [hItems', hItems, List.reverse_append, List.append_assoc]
  · rw [hStack', hStack]

theorem adds_text {lexeme : Lexeme} (h : lexeme.isTag = false) :
    Adds recognizeSelfClosing [lexeme] [.text lexeme.value] := by
  intro assembly _
  rw [List.foldl_cons, List.foldl_nil, addLexeme_text recognizeSelfClosing assembly h]
  exact ⟨rfl, rfl⟩

theorem adds_leaf {tag : String} {attributes : List Attribute} {selfClosing : Bool}
    (hLeaf : isLeaf recognizeSelfClosing tag selfClosing = true) :
    Adds recognizeSelfClosing [.startTag tag attributes selfClosing]
      [.element tag (firstOfEachName attributes) []] := by
  intro assembly _
  rw [List.foldl_cons, List.foldl_nil, addLexeme, if_pos hLeaf]
  exact ⟨rfl, rfl⟩

theorem adds_endTag_of_void {name : String} (hVoid : isVoid (Text.lower name) = true) :
    Adds recognizeSelfClosing [.endTag name] [] := by
  intro assembly hOpen
  have hNone : assembly.stack.findIdx? (·.name = Text.lower name) = none := by
    rw [List.findIdx?_eq_none_iff]
    intro element hElement
    apply decide_eq_false
    intro hName
    have := hOpen element hElement
    rw [hName, hVoid] at this
    cases this
  rw [List.foldl_cons, List.foldl_nil, addLexeme_endTag_of_none _ _ hNone]
  exact ⟨rfl, rfl⟩

theorem adds_element {tag : String} {attributes : List Attribute} {selfClosing : Bool}
    {lexemes : List Lexeme} {content : List Item}
    (hOpen : isLeaf recognizeSelfClosing tag selfClosing = false)
    (hContent : Adds recognizeSelfClosing lexemes content) :
    Adds recognizeSelfClosing (.startTag tag attributes selfClosing :: (lexemes ++ [.endTag tag]))
      [.element tag (firstOfEachName attributes) content] := by
  intro assembly hVoid
  have hName : isVoid (Text.lower tag) = false := (Bool.or_eq_false_iff.mp hOpen).1
  have hStart : (assembly.addLexeme recognizeSelfClosing (.startTag tag attributes selfClosing)).items = [] ∧
      (assembly.addLexeme recognizeSelfClosing (.startTag tag attributes selfClosing)).stack =
        ⟨Text.lower tag, tag, firstOfEachName attributes, assembly.items⟩ :: assembly.stack := by
    simp only [addLexeme, hOpen, Bool.false_eq_true, if_false, and_self]
  obtain ⟨hItems, hStack⟩ := hContent
    (assembly.addLexeme recognizeSelfClosing (.startTag tag attributes selfClosing)) (by
      intro element hElement
      rw [hStart.2] at hElement
      rcases List.mem_cons.mp hElement with rfl | hElement
      · exact hName
      · exact hVoid element hElement)
  rw [hStart.1, List.append_nil] at hItems
  rw [hStart.2] at hStack
  rw [List.foldl_cons, List.foldl_append, List.foldl_cons, List.foldl_nil]
  generalize lexemes.foldl (addLexeme recognizeSelfClosing) _ = inner at hItems hStack
  have hFind : inner.stack.findIdx? (·.name = Text.lower tag) = some 0 := by
    rw [hStack, List.findIdx?_cons, if_pos (decide_eq_true rfl)]
  rw [addLexeme_endTag_of_some _ _ hFind, hItems, hStack]
  simp only [close, List.reverse_reverse, List.reverse_cons, List.reverse_nil, List.nil_append,
    List.cons_append]
  exact ⟨trivial, rfl⟩

theorem Adds.build_eq {lexemes : List Lexeme} {items : List Item}
    (h : Adds recognizeSelfClosing lexemes items) :
    (Forest.build recognizeSelfClosing lexemes).1 = items := by
  obtain ⟨hItems, hStack⟩ := h .empty (by intro element hElement; cases hElement)
  rw [Forest.build, finish, hItems, hStack]
  simp only [empty, List.length_nil, close, List.append_nil, List.reverse_reverse]

end Assembly

end Hypertext
