import Hypertext.Forest.Build

/-! # What building repairs

Building is exact about its repairs. There is a sequence of lexemes that nests as brackets do,
gives the same forest without any repair, and is reached from the given one by dropping as many
end tags and adding as many end tags as are counted. The open elements carry the invariant: each
of them stands behind repaired lexemes that nest already.
-/

namespace Hypertext

set_option autoImplicit false

/-! ## Nested lexemes -/

/-- A forest that still knows which of its elements were complete with their start tags. -/
inductive Growth where
  | text (s : String)
  | leaf (tag : String) (attributes : List Attribute)
  | element (tag : String) (attributes : List Attribute) (content : List Growth)

namespace Growth

mutual

def item : Growth → Item
  | text s => .text s
  | leaf tag attributes => .element tag attributes []
  | element tag attributes content => .element tag attributes (items content)

def items : List Growth → List Item
  | [] => []
  | growth :: rest => item growth :: items rest

end

mutual

/-- How many elements with an end of their own stand inside one another at most. -/
def depth : Growth → Nat
  | text _ => 0
  | leaf _ _ => 0
  | element _ _ content => depths content + 1

def depths : List Growth → Nat
  | [] => 0
  | growth :: rest => max (depth growth) (depths rest)

end

@[simp] theorem items_append (first second : List Growth) :
    items (first ++ second) = items first ++ items second := by
  induction first with
  | nil => rfl
  | cons growth rest ih => rw [List.cons_append, items, items, ih, List.cons_append]

@[simp] theorem depths_append (first second : List Growth) :
    depths (first ++ second) = max (depths first) (depths second) := by
  induction first with
  | nil => rw [List.nil_append, depths, Nat.zero_max]
  | cons growth rest ih => rw [List.cons_append, depths, depths, ih, Nat.max_assoc]

end Growth

def Lexeme.isTag (lexeme : Lexeme) : Bool :=
  lexeme.kind = .startTag || lexeme.kind = .endTag

/-- Lexemes whose start tags and end tags form a word of brackets, leaves apart: each start tag
has an end tag of the same name in lower case, and what stands between them is nested. -/
inductive Nested (recognizeSelfClosing : Bool) : List Lexeme → List Growth → Prop where
  | nil : Nested recognizeSelfClosing [] []
  | text {lexeme : Lexeme} {lexemes : List Lexeme} {growth : List Growth}
      (hText : lexeme.isTag = false) (hRest : Nested recognizeSelfClosing lexemes growth) :
      Nested recognizeSelfClosing (lexeme :: lexemes) (.text lexeme.value :: growth)
  | leaf {tag : String} {attributes : List Attribute} {selfClosing : Bool}
      {lexemes : List Lexeme} {growth : List Growth}
      (hLeaf : Assembly.isLeaf recognizeSelfClosing tag selfClosing = true)
      (hRest : Nested recognizeSelfClosing lexemes growth) :
      Nested recognizeSelfClosing (.startTag tag attributes selfClosing :: lexemes)
        (.leaf tag (firstOfEachName attributes) :: growth)
  | element {tag name : String} {attributes : List Attribute} {selfClosing : Bool}
      {inner lexemes : List Lexeme} {content growth : List Growth}
      (hOpen : Assembly.isLeaf recognizeSelfClosing tag selfClosing = false)
      (hName : Text.lower name = Text.lower tag)
      (hContent : Nested recognizeSelfClosing inner content)
      (hRest : Nested recognizeSelfClosing lexemes growth) :
      Nested recognizeSelfClosing
        (.startTag tag attributes selfClosing :: (inner ++ .endTag name :: lexemes))
        (.element tag (firstOfEachName attributes) content :: growth)

def WellNested (recognizeSelfClosing : Bool) (lexemes : List Lexeme) : Prop :=
  ∃ growth, Nested recognizeSelfClosing lexemes growth

theorem Nested.append {recognizeSelfClosing : Bool} {first second : List Lexeme}
    {growth more : List Growth} (hFirst : Nested recognizeSelfClosing first growth)
    (hSecond : Nested recognizeSelfClosing second more) :
    Nested recognizeSelfClosing (first ++ second) (growth ++ more) := by
  induction hFirst with
  | nil => exact hSecond
  | text hText _ ih => exact .text hText ih
  | leaf hLeaf _ ih => exact .leaf hLeaf ih
  | element hOpen hName hContent _ _ ih =>
    rw [List.cons_append, List.append_assoc]
    exact .element hOpen hName hContent ih

/-! ## Building from nested lexemes -/

namespace Assembly

def startTags (lexemes : List Lexeme) : Nat := lexemes.countP (·.kind = .startTag)

theorem addLexeme_text (recognizeSelfClosing : Bool) (assembly : Assembly) {lexeme : Lexeme}
    (h : lexeme.isTag = false) :
    assembly.addLexeme recognizeSelfClosing lexeme = assembly.add (.text lexeme.value) := by
  cases lexeme with
  | startTag _ _ _ => cases h
  | endTag _ => cases h
  | text _ | comment _ | directive _ => rfl

theorem foldl_addLexeme_of_nested {recognizeSelfClosing : Bool} {lexemes : List Lexeme}
    {growth : List Growth} (h : Nested recognizeSelfClosing lexemes growth) (assembly : Assembly)
    (hDepth : assembly.stack.length ≤ assembly.counts.depth) :
    lexemes.foldl (addLexeme recognizeSelfClosing) assembly =
      { items := (Growth.items growth).reverse ++ assembly.items
        stack := assembly.stack
        counts :=
          { assembly.counts with
            elements := assembly.counts.elements + startTags lexemes
            depth := max assembly.counts.depth
              (assembly.stack.length + Growth.depths growth) } } := by
  induction h generalizing assembly with
  | nil =>
    simp only [List.foldl_nil, Growth.items, Growth.depths, startTags, List.countP_nil,
      Nat.add_zero, Nat.max_eq_left hDepth]
    rfl
  | @text lexeme lexemes growth hText _ ih =>
    have hKind : (lexeme.kind = .startTag) = False := by
      cases lexeme <;> simp_all [Lexeme.isTag, Lexeme.kind]
    rw [List.foldl_cons, addLexeme_text _ _ hText, ih _ (by exact hDepth)]
    simp [add, Growth.items, Growth.item, Growth.depths, Growth.depth, startTags, hKind]
  | @leaf tag attributes selfClosing lexemes growth hLeaf _ ih =>
    rw [List.foldl_cons]
    simp only [addLexeme, hLeaf, if_true]
    rw [ih _ (by exact hDepth)]
    simp [Growth.items, Growth.item, Growth.depths, Growth.depth, startTags, Lexeme.kind]
    omega
  | @element tag name attributes selfClosing inner lexemes content growth hOpen hName _ _ ihInner ih =>
    rw [List.foldl_cons, List.foldl_append, List.foldl_cons]
    simp only [addLexeme, hOpen, Bool.false_eq_true, if_false]
    rw [ihInner _ (Nat.le_max_right _ _)]
    simp only [hName, List.findIdx?_cons, decide_true, if_true, close]
    rw [ih _ (by dsimp only; omega)]
    simp [Growth.items, Growth.item, Growth.depths, Growth.depth, startTags, Lexeme.kind]
    omega

theorem build_of_nested {recognizeSelfClosing : Bool} {lexemes : List Lexeme}
    {growth : List Growth} (h : Nested recognizeSelfClosing lexemes growth) :
    Forest.build recognizeSelfClosing lexemes =
      (Growth.items growth, ⟨startTags lexemes, Growth.depths growth, 0, 0⟩) := by
  unfold Forest.build
  rw [foldl_addLexeme_of_nested h empty (Nat.le_refl 0)]
  simp [finish, close, empty, BuildCounts.zero]

end Assembly

/-! ## Repairs -/

/-- The second sequence is the first one without some end tags and with some new ones; both are
counted. -/
inductive Edited : List Lexeme → List Lexeme → Nat → Nat → Prop where
  | nil : Edited [] [] 0 0
  | keep {given edited : List Lexeme} {dropped added : Nat} (lexeme : Lexeme)
      (h : Edited given edited dropped added) :
      Edited (lexeme :: given) (lexeme :: edited) dropped added
  | drop {given edited : List Lexeme} {dropped added : Nat} (name : String)
      (h : Edited given edited dropped added) :
      Edited (.endTag name :: given) edited (dropped + 1) added
  | add {given edited : List Lexeme} {dropped added : Nat} (name : String)
      (h : Edited given edited dropped added) :
      Edited given (.endTag name :: edited) dropped (added + 1)

namespace Edited

theorem append {given edited more editedMore : List Lexeme} {dropped added d a : Nat}
    (hFirst : Edited given edited dropped added) (hSecond : Edited more editedMore d a) :
    Edited (given ++ more) (edited ++ editedMore) (dropped + d) (added + a) := by
  induction hFirst with
  | nil => simpa using hSecond
  | keep lexeme _ ih => exact .keep lexeme ih
  | drop name _ ih =>
    rw [Nat.add_right_comm]
    exact .drop name ih
  | add name _ ih =>
    rw [Nat.add_right_comm]
    exact .add name ih

theorem of_names (names : List String) : Edited [] (names.map .endTag) 0 names.length := by
  induction names with
  | nil => exact .nil
  | cons name rest ih => exact .add name ih

theorem eq_of_unrepaired {given edited : List Lexeme} {dropped added : Nat}
    (h : Edited given edited dropped added) (hNone : dropped + added = 0) : edited = given := by
  induction h with
  | nil => rfl
  | keep lexeme _ ih => rw [ih hNone]
  | drop name _ _ => omega
  | add name _ _ => omega

end Edited

/-- Repaired lexemes in front of which the open elements of an assembly stand: behind each of
their start tags everything is nested. The number is the depth reached so far. -/
inductive Spine (recognizeSelfClosing : Bool) :
    List Lexeme → List Item → List OpenElement → Nat → Prop where
  | ground {lexemes : List Lexeme} {growth : List Growth}
      (hNested : Nested recognizeSelfClosing lexemes growth) :
      Spine recognizeSelfClosing lexemes (Growth.items growth).reverse [] (Growth.depths growth)
  | within {outer lexemes : List Lexeme} {before : List Item} {stack : List OpenElement}
      {depth : Nat} {tag : String} {attributes : List Attribute} {selfClosing : Bool}
      {growth : List Growth} (hOuter : Spine recognizeSelfClosing outer before stack depth)
      (hOpen : Assembly.isLeaf recognizeSelfClosing tag selfClosing = false)
      (hNested : Nested recognizeSelfClosing lexemes growth) :
      Spine recognizeSelfClosing (outer ++ .startTag tag attributes selfClosing :: lexemes)
        (Growth.items growth).reverse
        (⟨Text.lower tag, tag, firstOfEachName attributes, before⟩ :: stack)
        (max depth (stack.length + 1 + Growth.depths growth))

namespace Spine

variable {recognizeSelfClosing : Bool} {lexemes more : List Lexeme} {items : List Item}
  {stack : List OpenElement} {depth : Nat} {growth : List Growth}

theorem append (h : Spine recognizeSelfClosing lexemes items stack depth)
    (hMore : Nested recognizeSelfClosing more growth) :
    Spine recognizeSelfClosing (lexemes ++ more) ((Growth.items growth).reverse ++ items) stack
      (max depth (stack.length + Growth.depths growth)) := by
  cases h with
  | ground hNested =>
    have h := Spine.ground (hNested.append hMore)
    rwa [Growth.items_append, List.reverse_append, Growth.depths_append,
      ← Nat.zero_add (Growth.depths growth)] at h
  | @within outer inner before stack depth tag attributes selfClosing content hOuter hOpen hNested =>
    have h := @Spine.within _ _ _ _ _ _ _ attributes _ _ hOuter hOpen (hNested.append hMore)
    rw [Growth.items_append, List.reverse_append, Growth.depths_append] at h
    have hDepth : max (max depth (stack.length + 1 + Growth.depths content))
        (stack.length + 1 + Growth.depths growth) =
        max depth (stack.length + 1 + max (Growth.depths content) (Growth.depths growth)) := by
      omega
    rw [List.append_assoc, List.cons_append, List.length_cons, hDepth]
    exact h

theorem length_le (h : Spine recognizeSelfClosing lexemes items stack depth) :
    stack.length ≤ depth := by
  cases h with
  | ground _ => exact Nat.zero_le _
  | within _ _ _ =>
    rw [List.length_cons]
    omega

theorem append_flat (h : Spine recognizeSelfClosing lexemes items stack depth)
    (hMore : Nested recognizeSelfClosing more growth) (hFlat : Growth.depths growth = 0) :
    Spine recognizeSelfClosing (lexemes ++ more) ((Growth.items growth).reverse ++ items) stack
      depth := by
  have hSpine := h.append hMore
  rwa [hFlat, Nat.add_zero, Nat.max_eq_left h.length_le] at hSpine

theorem exists_nested (h : Spine recognizeSelfClosing lexemes items [] depth) :
    ∃ growth, Nested recognizeSelfClosing lexemes growth ∧ items.reverse = Growth.items growth ∧
      depth = Growth.depths growth := by
  cases h with
  | ground hNested => exact ⟨_, hNested, List.reverse_reverse _, rfl⟩

theorem lower_tag {element : OpenElement}
    (h : Spine recognizeSelfClosing lexemes items (element :: stack) depth) :
    Text.lower element.tag = element.name := by
  cases h with
  | within _ _ _ => rfl

theorem close_one {element : OpenElement} {name : String}
    (h : Spine recognizeSelfClosing lexemes items (element :: stack) depth)
    (hName : Text.lower name = element.name) :
    Spine recognizeSelfClosing (lexemes ++ [.endTag name])
      (.element element.tag element.attributes items.reverse :: element.before) stack depth := by
  cases h with
  | @within outer inner before _ depth tag attributes selfClosing content hOuter hOpen hNested =>
    have hElement : Nested recognizeSelfClosing
        (.startTag tag attributes selfClosing :: (inner ++ [.endTag name]))
        [.element tag (firstOfEachName attributes) content] :=
      .element hOpen hName hNested .nil
    have h := hOuter.append hElement
    have hDepth : Growth.depths [.element tag (firstOfEachName attributes) content] =
        1 + Growth.depths content := by
      simp [Growth.depths, Growth.depth, Nat.add_comm]
    rw [hDepth, ← Nat.add_assoc] at h
    rw [List.append_assoc, List.cons_append, List.reverse_reverse]
    exact h

theorem close_many (h : Spine recognizeSelfClosing lexemes items stack depth) (count : Nat)
    (hCount : count ≤ stack.length) :
    ∃ names : List String, names.length = count ∧
      Spine recognizeSelfClosing (lexemes ++ names.map .endTag)
        (Assembly.close count items stack).1 (stack.drop count) depth := by
  induction count generalizing lexemes items stack with
  | zero => exact ⟨[], rfl, by simpa [Assembly.close] using h⟩
  | succ count ih =>
    cases stack with
    | nil => exact absurd hCount (Nat.not_succ_le_zero count)
    | cons element stack =>
      obtain ⟨names, hLength, hSpine⟩ :=
        ih (h.close_one h.lower_tag) (Nat.le_of_succ_le_succ hCount)
      refine ⟨element.tag :: names, by rw [List.length_cons, hLength], ?_⟩
      rw [List.append_assoc] at hSpine
      exact hSpine

end Spine

/-! ## The repaired lexemes of an assembly -/

namespace Assembly

/-- What the counts of an assembly say about the lexemes it was made from: they differ from
repaired ones by as many end tags as were dropped and added. -/
structure Mended (recognizeSelfClosing : Bool) (lexemes repaired : List Lexeme)
    (assembly : Assembly) : Prop where
  edited : Edited lexemes repaired assembly.counts.droppedEndTags
    assembly.counts.implicitlyClosed
  spine : Spine recognizeSelfClosing repaired assembly.items assembly.stack
    assembly.counts.depth
  elements : assembly.counts.elements = startTags lexemes

theorem close_add (count more : Nat) (items : List Item) (stack : List OpenElement)
    (hCount : count ≤ stack.length) :
    close (count + more) items stack =
      close more (close count items stack).1 (close count items stack).2 := by
  induction count generalizing items stack with
  | zero =>
    rw [Nat.zero_add]
    rfl
  | succ count ih =>
    cases stack with
    | nil => exact absurd hCount (Nat.not_succ_le_zero count)
    | cons element stack =>
      rw [Nat.add_right_comm]
      exact ih _ _ (Nat.le_of_succ_le_succ hCount)

theorem close_stack (count : Nat) (items : List Item) (stack : List OpenElement) :
    (close count items stack).2 = stack.drop count := by
  induction count generalizing items stack with
  | zero => rfl
  | succ count ih =>
    cases stack with
    | nil => rfl
    | cons element stack => exact ih _ stack

theorem startTags_append (first second : List Lexeme) :
    startTags (first ++ second) = startTags first + startTags second := List.countP_append

theorem addLexeme_endTag_of_none (recognizeSelfClosing : Bool) (assembly : Assembly)
    {name : String}
    (h : assembly.stack.findIdx? (·.name = Text.lower name) = none) :
    assembly.addLexeme recognizeSelfClosing (.endTag name) =
      { assembly with
        counts :=
          { assembly.counts with droppedEndTags := assembly.counts.droppedEndTags + 1 } } := by
  simp only [addLexeme, h]

theorem addLexeme_endTag_of_some (recognizeSelfClosing : Bool) (assembly : Assembly)
    {name : String} {index : Nat}
    (h : assembly.stack.findIdx? (·.name = Text.lower name) = some index) :
    assembly.addLexeme recognizeSelfClosing (.endTag name) =
      { items := (close (index + 1) assembly.items assembly.stack).1
        stack := assembly.stack.drop (index + 1)
        counts :=
          { assembly.counts with
            implicitlyClosed := assembly.counts.implicitlyClosed + index } } := by
  simp only [addLexeme, h, close_stack]

variable {recognizeSelfClosing : Bool} {lexemes repaired : List Lexeme} {assembly : Assembly}

theorem mended_empty (recognizeSelfClosing : Bool) :
    Mended recognizeSelfClosing [] [] empty where
  edited := .nil
  spine := .ground .nil
  elements := rfl

theorem mended_startTag (h : Mended recognizeSelfClosing lexemes repaired assembly)
    (tag : String) (attributes : List Attribute) (selfClosing : Bool) :
    Mended recognizeSelfClosing (lexemes ++ [.startTag tag attributes selfClosing])
      (repaired ++ [.startTag tag attributes selfClosing])
      (assembly.addLexeme recognizeSelfClosing (.startTag tag attributes selfClosing)) := by
  have hEdited := h.edited.append (.keep (.startTag tag attributes selfClosing) .nil)
  have hElements : assembly.counts.elements + 1 =
      startTags (lexemes ++ [.startTag tag attributes selfClosing]) := by
    rw [startTags_append, h.elements]
    rfl
  unfold addLexeme
  dsimp only
  split
  · rename_i hLeaf
    have hNested : Nested recognizeSelfClosing [.startTag tag attributes selfClosing]
        [.leaf tag (firstOfEachName attributes)] := .leaf hLeaf .nil
    exact ⟨hEdited, h.spine.append_flat hNested rfl, hElements⟩
  · rename_i hOpen
    exact ⟨hEdited, .within h.spine (Bool.eq_false_iff.mpr hOpen) .nil, hElements⟩

theorem mended_text (h : Mended recognizeSelfClosing lexemes repaired assembly) {lexeme : Lexeme}
    (hText : lexeme.isTag = false) :
    Mended recognizeSelfClosing (lexemes ++ [lexeme]) (repaired ++ [lexeme])
      (assembly.addLexeme recognizeSelfClosing lexeme) := by
  rw [addLexeme_text _ _ hText]
  refine ⟨h.edited.append (.keep lexeme .nil), h.spine.append_flat (.text hText .nil) rfl, ?_⟩
  have hNone : startTags [lexeme] = 0 := by
    cases lexeme with
    | startTag _ _ _ => cases hText
    | endTag _ | text _ | comment _ | directive _ => rfl
  rw [startTags_append, hNone]
  exact h.elements

/-- An end tag closes an open element, or none is open that it could close. In the first case the
elements inside that one get end tags of their own. -/
theorem mended_endTag (h : Mended recognizeSelfClosing lexemes repaired assembly) (name : String) :
    ∃ repaired, Mended recognizeSelfClosing (lexemes ++ [.endTag name]) repaired
      (assembly.addLexeme recognizeSelfClosing (.endTag name)) := by
  have hElements : assembly.counts.elements = startTags (lexemes ++ [.endTag name]) := by
    rw [startTags_append, h.elements]
    rfl
  cases hFind : assembly.stack.findIdx? (·.name = Text.lower name) with
  | none =>
    rw [addLexeme_endTag_of_none _ _ hFind]
    have hEdited := h.edited.append (.drop name .nil)
    rw [List.append_nil] at hEdited
    exact ⟨repaired, hEdited, h.spine, hElements⟩
  | some index =>
    obtain ⟨hIndex, hName, -⟩ := List.findIdx?_eq_some_iff_getElem.mp hFind
    obtain ⟨names, hLength, hSpine⟩ := h.spine.close_many index (Nat.le_of_lt hIndex)
    rw [List.drop_eq_getElem_cons hIndex] at hSpine
    have hClosed := hSpine.close_one (of_decide_eq_true hName).symm
    have hEdited := h.edited.append
      ((Edited.of_names names).append (.keep (.endTag name) .nil))
    rw [List.nil_append, Nat.zero_add, Nat.add_zero, hLength, ← List.append_assoc] at hEdited
    rw [addLexeme_endTag_of_some _ _ hFind, close_add index 1 _ _ (Nat.le_of_lt hIndex), close_stack,
      List.drop_eq_getElem_cons hIndex]
    exact ⟨repaired ++ names.map .endTag ++ [.endTag name], hEdited, hClosed, hElements⟩

theorem mended_addLexeme (h : Mended recognizeSelfClosing lexemes repaired assembly)
    (lexeme : Lexeme) :
    ∃ repaired, Mended recognizeSelfClosing (lexemes ++ [lexeme]) repaired
      (assembly.addLexeme recognizeSelfClosing lexeme) := by
  cases lexeme with
  | startTag tag attributes selfClosing => exact ⟨_, mended_startTag h tag attributes selfClosing⟩
  | endTag name => exact mended_endTag h name
  | text _ | comment _ | directive _ => exact ⟨_, mended_text h rfl⟩

theorem mended_foldl (h : Mended recognizeSelfClosing lexemes repaired assembly)
    (more : List Lexeme) :
    ∃ repaired, Mended recognizeSelfClosing (lexemes ++ more) repaired
      (more.foldl (addLexeme recognizeSelfClosing) assembly) := by
  induction more generalizing lexemes repaired assembly with
  | nil => exact ⟨repaired, by simpa using h⟩
  | cons lexeme rest ih =>
    obtain ⟨next, hNext⟩ := mended_addLexeme h lexeme
    obtain ⟨last, hLast⟩ := ih hNext
    exact ⟨last, by simpa using hLast⟩

end Assembly

namespace Forest

theorem build_mended (recognizeSelfClosing : Bool) (lexemes : List Lexeme) :
    ∃ repaired growth,
      Edited lexemes repaired (build recognizeSelfClosing lexemes).2.droppedEndTags
        (build recognizeSelfClosing lexemes).2.implicitlyClosed ∧
      Nested recognizeSelfClosing repaired growth ∧
      build recognizeSelfClosing lexemes =
        (Growth.items growth,
          { (build recognizeSelfClosing lexemes).2 with
            elements := Assembly.startTags lexemes
            depth := Growth.depths growth }) := by
  obtain ⟨repaired, hMended⟩ :=
    Assembly.mended_foldl (Assembly.mended_empty recognizeSelfClosing) lexemes
  rw [List.nil_append] at hMended
  unfold build
  generalize lexemes.foldl (Assembly.addLexeme recognizeSelfClosing) Assembly.empty = assembly
    at hMended
  obtain ⟨names, hLength, hSpine⟩ := hMended.spine.close_many _ (Nat.le_refl assembly.stack.length)
  rw [List.drop_length] at hSpine
  have hEdited := hMended.edited.append (Edited.of_names names)
  rw [List.append_nil, Nat.add_zero, hLength] at hEdited
  obtain ⟨growth, hNested, hItems, hDepth⟩ := hSpine.exists_nested
  refine ⟨_, growth, hEdited, hNested, ?_⟩
  simp only [Assembly.finish, hItems, hMended.elements, hDepth]

/-- Building repairs exactly what it counts. Dropping as many end tags as it dropped and adding
as many as it closed elements without one leads to nested lexemes with the same forest, at which
there is nothing to repair; there is nothing to repair in nested lexemes alone; every start tag
is an element, and the depth is that of the forest. -/
theorem build_repairs (recognizeSelfClosing : Bool) (lexemes : List Lexeme) :
    (∃ repaired growth,
      Edited lexemes repaired (build recognizeSelfClosing lexemes).2.droppedEndTags
        (build recognizeSelfClosing lexemes).2.implicitlyClosed ∧
      Nested recognizeSelfClosing repaired growth ∧
      (build recognizeSelfClosing repaired).1 = (build recognizeSelfClosing lexemes).1 ∧
      (build recognizeSelfClosing repaired).2.repairs = 0 ∧
      Growth.items growth = (build recognizeSelfClosing lexemes).1 ∧
      Growth.depths growth = (build recognizeSelfClosing lexemes).2.depth) ∧
    ((build recognizeSelfClosing lexemes).2.repairs = 0 ↔
      WellNested recognizeSelfClosing lexemes) ∧
    (build recognizeSelfClosing lexemes).2.elements =
      lexemes.countP (·.kind = .startTag) := by
  obtain ⟨repaired, growth, hEdited, hNested, hBuild⟩ := build_mended recognizeSelfClosing lexemes
  have hRepaired := Assembly.build_of_nested hNested
  refine ⟨⟨repaired, growth, hEdited, hNested, ?_, ?_, ?_, ?_⟩, ⟨?_, ?_⟩, ?_⟩
  · rw [hRepaired, hBuild]
  · rw [hRepaired]
    rfl
  · rw [hBuild]
  · rw [hBuild]
  · intro hNone
    have hSame : repaired = lexemes := by
      apply hEdited.eq_of_unrepaired
      rw [Nat.add_comm]
      exact hNone
    exact ⟨growth, hSame ▸ hNested⟩
  · rintro ⟨growth, hGiven⟩
    rw [Assembly.build_of_nested hGiven]
    rfl
  · rw [hBuild]
    rfl

end Forest

end Hypertext
