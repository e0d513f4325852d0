import Hypertext.Parse
import Hypertext.Proofs.Token.Stream
import Hypertext.Render

/-! # Written tags are read back

The markup of an attribute is one of the forms in which the scanner reads a value. A value that
needs no quotes cannot be cut short by the reader, and an escaped value holds no quote, so each
form gives back the text that was written; a space or the end of the tag is behind every one.
-/

namespace Hypertext

set_option autoImplicit false

open Text

namespace Value

/-- What reading makes of a written attribute value, and nothing of one that is left out. -/
def readBack? : Value → Option String
  | bool true => some ""
  | bool false => Option.none
  | none => Option.none
  | value => some (String.ofList (quoteEscaped value.text.toList))

theorem quote_not_mem_quoteEscaped (text : List Char) : '"' ∉ quoteEscaped text := by
  intro hMem
  obtain ⟨c, -, hChar⟩ := List.mem_flatMap.mp hMem
  split at hChar
  · revert hChar
    decide
  · rename_i hNe
    exact hNe (List.mem_singleton.mp hChar).symm

theorem quoteEscaped_eq_self {text : List Char} (h : '"' ∉ text) : quoteEscaped text = text := by
  induction text with
  | nil => rfl
  | cons c text ih =>
    have hChar : c ≠ '"' := by
      rintro rfl
      exact h List.mem_cons_self
    have hTail : '"' ∉ text := fun hMem => h (List.mem_cons_of_mem c hMem)
    rw [quoteEscaped, List.flatMap_cons, if_neg hChar]
    exact congrArg (c :: ·) (ih hTail)

theorem assigns_unquoted {text : List Char} (h : needsQuotes text = false) :
    Assigns text ('=' :: text) ∧ '"' ∉ text := by
  simp only [needsQuotes, Bool.or_eq_false_iff, List.isEmpty_eq_false_iff, List.any_eq_false,
    Bool.or_eq_true, decide_eq_true_eq, not_or] at h
  obtain ⟨hNe, hChars⟩ := h
  constructor
  · apply Assigns.unquoted hNe
    intro c hc
    obtain ⟨⟨⟨⟨⟨⟨hSpacing, hDouble⟩, hSingle⟩, -⟩, -⟩, hEnd⟩, -⟩ := hChars c hc
    refine ⟨?_, hDouble, hSingle⟩
    rw [isUnquotedChar, Bool.eq_false_iff.mpr hSpacing, decide_eq_true hEnd]
    rfl
  · intro hMem
    obtain ⟨⟨⟨⟨⟨⟨-, hDouble⟩, -⟩, -⟩, -⟩, -⟩, -⟩ := hChars _ hMem
    exact hDouble rfl

theorem attributeMarkup_cases (quoteAll : Bool) (name value : Value) :
    (value.readBack? = Option.none ∧ attributeMarkup quoteAll name value = "") ∨
    ∃ text assignment, value.readBack? = some text ∧ Assigns text.toList assignment ∧
      (attributeMarkup quoteAll name value).toList = ' ' :: (name.text.toList ++ assignment) := by
  fun_cases attributeMarkup quoteAll name value
  case case1 => exact Or.inr ⟨"", [], rfl, Assigns.bare, by simp⟩
  case case2 => exact Or.inl ⟨rfl, rfl⟩
  case case3 => exact Or.inl ⟨rfl, rfl⟩
  case case4 hTrue hFalse hNone text hQuotes =>
    refine Or.inr ⟨_, '=' :: '"' :: (quoteEscaped text.toList ++ ['"']),
      readBack?.eq_4 value hTrue hFalse hNone, ?_, ?_⟩
    · rw [String.toList_ofList]
      exact Assigns.quoted (quote_not_mem_quoteEscaped text.toList)
    · simp
  case case5 hTrue hFalse hNone text hQuotes =>
    simp only [Bool.or_eq_true, not_or, Bool.not_eq_true] at hQuotes
    obtain ⟨hAssigns, hQuote⟩ := assigns_unquoted hQuotes.2
    refine Or.inr ⟨_, '=' :: text.toList, readBack?.eq_4 value hTrue hFalse hNone, ?_, ?_⟩
    · rw [String.toList_ofList, quoteEscaped_eq_self hQuote]
      exact hAssigns
    · simp

/-! ## Attributes -/

def attributeEntries : Value → List (Value × Value)
  | map _ entries => entries
  | _ => []

def attributesReadBack (entries : List (Value × Value)) : List Attribute :=
  entries.filterMap fun entry => entry.2.readBack?.map fun text => (entry.1.text, text)

def attributeChars (quoteAll : Bool) (entries : List (Value × Value)) : List Char :=
  entries.flatMap fun entry => (attributeMarkup quoteAll entry.1 entry.2).toList

theorem attributesMarkup_map (quoteAll : Bool) (kind : MapKind) (entries : List (Value × Value)) :
    attributesMarkup quoteAll (map kind entries) =
      .ok (String.ofList (attributeChars quoteAll entries)) := by
  have hJoin : String.join (entries.map fun entry => attributeMarkup quoteAll entry.1 entry.2) =
      String.ofList (attributeChars quoteAll entries) := by
    apply String.toList_inj.mp
    rw [String.toList_join, String.toList_ofList, attributeChars, List.flatMap_map]
  cases entries with
  | nil => rfl
  | cons entry entries => exact congrArg Except.ok hJoin

theorem readAttributes?_attributeChars (quoteAll : Bool) {entries : List (Value × Value)}
    (hNames : ∀ entry ∈ entries, NamesAttribute entry.1.text.toList) {ending rest : List Char}
    {selfClosing : Bool} (hEnds : EndsAttribute ending)
    (hEnding : readAttributes? ending = some ([], selfClosing, rest)) :
    EndsAttribute (attributeChars quoteAll entries ++ ending) ∧
    ∃ attributes, readAttributes? (attributeChars quoteAll entries ++ ending) =
        some (attributes, selfClosing, rest) ∧
      attributes.map (fun a => (String.ofList a.name, String.ofList a.value)) =
        attributesReadBack entries := by
  induction entries with
  | nil => exact ⟨hEnds, [], hEnding, rfl⟩
  | cons entry entries ih =>
    obtain ⟨hRestEnds, attributes, hRead, hMap⟩ := ih fun other hOther =>
      hNames other (List.mem_cons_of_mem entry hOther)
    have hName := hNames entry List.mem_cons_self
    rcases attributeMarkup_cases quoteAll entry.1 entry.2 with
      ⟨hBack, hMarkup⟩ | ⟨text, assignment, hBack, hAssigns, hMarkup⟩
    · have hChars : attributeChars quoteAll (entry :: entries) = attributeChars quoteAll entries := by
        rw [attributeChars, List.flatMap_cons, hMarkup]
        rfl
      have hReadBack : attributesReadBack (entry :: entries) = attributesReadBack entries := by
        rw [attributesReadBack, List.filterMap_cons, hBack]
        rfl
      rw [hChars, hReadBack]
      exact ⟨hRestEnds, attributes, hRead, hMap⟩
    · have hChars : attributeChars quoteAll (entry :: entries) ++ ending =
          ' ' :: (entry.1.text.toList ++ (assignment ++ (attributeChars quoteAll entries ++ ending))) := by
        rw [attributeChars, List.flatMap_cons, hMarkup]
        simp only [List.cons_append, List.append_assoc]
        rfl
      have hReadBack : attributesReadBack (entry :: entries) =
          (entry.1.text, text) :: attributesReadBack entries := by
        rw [attributesReadBack, List.filterMap_cons, hBack]
        rfl
      rw [hChars, hReadBack]
      refine ⟨hName.endsAttribute _, ⟨entry.1.text.toList, text.toList⟩ :: attributes, ?_, ?_⟩
      · rw [hName.taken.readAttributes?_eq (hAssigns.stops_name hRestEnds)
          (hAssigns.readAssignment?_eq hRestEnds), hRead]
        rfl
      · rw [List.map_cons, hMap, String.ofList_toList, String.ofList_toList]

theorem readAttributes?_quoted {attributes : List Attribute}
    (hNames : ∀ a ∈ attributes, TakenName a.1.toList) {ending rest : List Char}
    {selfClosing : Bool} (hEnds : EndsAttribute ending)
    (hEnding : readAttributes? ending = some ([], selfClosing, rest)) :
    (∀ c ∈ (attributeChars true (attributes.map fun a => (str a.1, str a.2)) ++ ending).head?,
      isNameChar c = false) ∧
    readAttributes? (attributeChars true (attributes.map fun a => (str a.1, str a.2)) ++ ending) =
      some (attributes.map fun a => ⟨a.1.toList, quoteEscaped a.2.toList⟩, selfClosing, rest) := by
  induction attributes with
  | nil => exact ⟨hEnds.stops_name, hEnding⟩
  | cons a attributes ih =>
    obtain ⟨-, hRead⟩ := ih fun b hb => hNames b (List.mem_cons_of_mem a hb)
    have hName := hNames a List.mem_cons_self
    have hChars : attributeChars true ((a :: attributes).map fun a => (str a.1, str a.2)) ++ ending =
        ' ' :: (a.1.toList ++ '=' :: '"' :: (quoteEscaped a.2.toList ++ '"' ::
          (attributeChars true (attributes.map fun a => (str a.1, str a.2)) ++ ending))) := by
      simp [attributeChars, attributeMarkup]
    rw [hChars]
    constructor
    · rintro c ⟨⟩
      decide
    · rw [hName.readAttributes?_eq (by rintro c ⟨⟩; decide)
        (readAssignment?_quoted (quote_not_mem_quoteEscaped _)), hRead]
      rfl

end Value

end Hypertext
