import Hypertext.Proofs.Forest.Adding
import Hypertext.Proofs.Render.Writing
import Mathlib.Data.List.Chain
import Mathlib.Data.List.Infix

/-! # Legible trees

A tree is legible when its markup is read back as the tree. Texts, comments and directives are told
apart by their own characters, so a text that reads as anything else is not legible, nor are two
texts side by side, which would be read as one. Elements without content have to be written so that
reading knows them to be complete, and raw text must not hold the end of its element.
-/

namespace Hypertext

set_option autoImplicit false

open Text

/-! ## Texts -/

/-- A text in which no `<` begins a construct. -/
def IsPlain (text : List Char) : Prop :=
  ∀ rest, ('<' :: rest) <:+ text →
    ∀ c ∈ rest.head?, isLetter c = false ∧ c ≠ '/' ∧ c ≠ '!' ∧ c ≠ '?'

theorem isPlain_nil : IsPlain [] := by
  intro rest hRest
  cases List.suffix_nil.mp hRest

theorem isPlain_cons_iff (c : Char) (text : List Char) :
    IsPlain (c :: text) ↔
      (c = '<' → ∀ d ∈ text.head?, isLetter d = false ∧ d ≠ '/' ∧ d ≠ '!' ∧ d ≠ '?') ∧
        IsPlain text := by
  constructor
  · intro h
    constructor
    · rintro rfl
      exact h text (List.suffix_refl _)
    · intro rest hRest
      exact h rest (hRest.trans (List.suffix_cons c text))
  · rintro ⟨hHead, hTail⟩ rest hRest
    rcases List.suffix_cons_iff.mp hRest with hEq | hRest
    · obtain ⟨rfl, rfl⟩ := List.cons.inj hEq
      exact hHead rfl
    · exact hTail rest hRest

instance decidableIsPlain : (text : List Char) → Decidable (IsPlain text)
  | [] => isTrue isPlain_nil
  | c :: text =>
    have := decidableIsPlain text
    decidable_of_iff ((c = '<' → text.head?.all
        (fun d => !isLetter d && d ≠ '/' && d ≠ '!' && d ≠ '?') = true) ∧ IsPlain text) (by
      simp [isPlain_cons_iff, Option.all_eq_true, and_assoc])

def IsComment (text : List Char) : Prop :=
  ∃ inner, text = commentOpen ++ inner ++ commentClose ∧ ¬ commentClose <:+: inner

def IsDirective (text : List Char) : Prop :=
  ∃ c inner, text = '<' :: c :: (inner ++ ['>']) ∧ (c = '!' ∨ c = '?') ∧ '>' ∉ inner ∧
    ¬ commentOpen <+: text

def IsRaw (element : RawElement) (text : List Char) : Prop :=
  ∀ rest, rest <:+ text → endsRaw element rest = false

instance decidableIsRaw (element : RawElement) (text : List Char) : Decidable (IsRaw element text) :=
  decidable_of_iff (∀ rest ∈ text.tails, endsRaw element rest = false) (by
    simp only [IsRaw, List.mem_tails])

theorem commentClose_fresh {inner : List Char} (h : ¬ commentClose <:+: inner) :
    ¬ commentClose <:+: inner ++ ['-', '-'] := by
  rintro ⟨before, after, hText⟩
  apply h
  rcases List.eq_nil_or_concat after with rfl | ⟨after, d, rfl⟩
  · have hLast := congrArg List.getLast? hText
    simp [commentClose] at hLast
  rcases List.eq_nil_or_concat after with rfl | ⟨after, e, rfl⟩
  · have hText' : before ++ ['-', '-'] ++ ['>', d] = inner ++ ['-', '-'] := by
      simpa [commentClose] using hText
    have hEnd := List.append_inj_right' hText' rfl
    cases hEnd
  · have hText' : before ++ commentClose ++ after ++ [e, d] = inner ++ ['-', '-'] := by
      simpa using hText
    exact ⟨before, after, List.append_inj_left' hText' rfl⟩

namespace Value

/-! ## Elements -/

inductive LegibleAttributes (casing : Casing) : Value → Prop where
  | absent : LegibleAttributes casing none
  | given {kind : MapKind} {entries : List (Value × Value)}
    (hNames : ∀ entry ∈ entries, ∃ name, entry.1 = str name ∧ NamesAttribute name.toList ∧
      (casing.attributes = true → lower name = name))
    (hDistinct : (entries.map fun entry => entry.1.text).Nodup) :
    LegibleAttributes casing (map kind entries)

/-- An element whose tags are read back: the names are ones of tags and of attributes, and reading
does not put them into another case. -/
structure HasLegibleTag (casing : Casing) (entries : List (Value × Value)) (tag : String) : Prop where
  field_eq : field entries "tag" = str tag
  names : NamesTag tag.toList
  cased : casing.tags = true → lower tag = tag
  attributes : LegibleAttributes casing (field entries "attrs")

inductive HasContent (entries : List (Value × Value)) : List Value → Prop where
  | absent (h : Entries.at? entries "content" = Option.none) : HasContent entries []
  | given {kind : SeqKind} {items : List Value}
    (h : Entries.at? entries "content" = some (seq kind items)) : HasContent entries items

def IsPlainText (item : Value) : Prop := ∃ s, item = str s ∧ IsPlain s.toList

def Apart (items : List Value) : Prop :=
  items.IsChain fun item next => ¬ (IsPlainText item ∧ IsPlainText next)

/-- How an element without content may be written: a void one in any way, another one so that
reading knows its end. -/
def ClosesSingle (style : RenderStyle) (reading : Reading) (tag : String) : Prop :=
  isVoid (lower tag) = true ∨ style.closing = .endTag ∨
    (style.closing = .slash ∧ reading.recognizeSelfClosing = true)

inductive Legible (style : RenderStyle) (reading : Reading) : Value → Prop where
  | text {s : String} (hNe : s ≠ "") (hPlain : IsPlain s.toList) : Legible style reading (str s)
  | comment {s : String} (hComment : IsComment s.toList) : Legible style reading (str s)
  | directive {s : String} (hDirective : IsDirective s.toList) : Legible style reading (str s)
  | single {kind : MapKind} {entries : List (Value × Value)} {tag : String}
    (hTag : HasLegibleTag reading.casing entries tag) (hSingle : style.isSingle tag = true)
    (hClosed : ClosesSingle style reading tag)
    (hContent : Entries.at? entries "content" = Option.none) :
    Legible style reading (map kind entries)
  | raw {kind : MapKind} {entries : List (Value × Value)} {tag : String} {items : List Value}
    {element : RawElement} {text : String}
    (hTag : HasLegibleTag reading.casing entries tag) (hSingle : style.isSingle tag = false)
    (hElement : RawElement.ofName? (lower tag) = some element) (hContent : HasContent entries items)
    (hMarkup : itemsMarkup style items = .ok text) (hRaw : IsRaw element text.toList) :
    Legible style reading (map kind entries)
  | element {kind : MapKind} {entries : List (Value × Value)} {tag : String} {items : List Value}
    (hTag : HasLegibleTag reading.casing entries tag) (hSingle : style.isSingle tag = false)
    (hElement : RawElement.ofName? (lower tag) = Option.none) (hContent : HasContent entries items)
    (hItems : ∀ item ∈ items, Legible style reading item) (hApart : Apart items) :
    Legible style reading (map kind entries)

/-! ## Normal forms -/

/-- Raw text as content: nothing when it is empty. -/
def rawItems : Outcome String → List Item
  | .ok text => if text = "" then [] else [.text text]
  | .error _ => []

mutual

/-- What a legible item is read back as: the written attributes with the texts of their values, and
content only where there is some. The content of a raw element is the text of its markup. -/
def normal (style : RenderStyle) : Value → Item
  | map _ entries =>
    let tag := tagText (field entries "tag")
    .element tag (attributesReadBack (attributeEntries (field entries "attrs")))
      (if style.isSingle tag then [] else normalContent style tag entries)
  | other => .text other.text

def normalItems (style : RenderStyle) : List Value → List Item
  | [] => []
  | item :: rest => normal style item :: normalItems style rest

def normalContent (style : RenderStyle) (tag : String) : List (Value × Value) → List Item
  | [] => []
  | (key, value) :: rest =>
    if key.same (str "content") then normalWithin style tag value else normalContent style tag rest

def normalWithin (style : RenderStyle) (tag : String) : Value → List Item
  | seq _ items =>
    match RawElement.ofName? (lower tag) with
    | some _ => rawItems (itemsMarkup style items)
    | Option.none => normalItems style items
  | _ => []

end

end Value

end Hypertext
