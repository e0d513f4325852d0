import Hypertext.Proofs.Text.Lowering
import Hypertext.Proofs.Token.Spelling
import Hypertext.Token.Scan

/-! # Where raw text ends

Raw text ends at the first place that is its end, and no place inside it becomes one through the
`<` that stands behind it: names of raw elements have no `<`, and none may follow them. The end tag
of the element is such a place in whatever case its name is written.
-/

namespace Hypertext

set_option autoImplicit false

open Text

def Lexeme.OpensRaw (lexeme : Lexeme) : Prop :=
  ∃ name attributes element, lexeme = .startTag name attributes false ∧
    RawElement.ofName? (lower name) = some element

theorem Lexeme.not_opensRaw_of_isText {lexeme : Lexeme} (h : lexeme.kind = .text) :
    ¬ lexeme.OpensRaw := by
  rintro ⟨name, attributes, element, rfl, -⟩
  cases h

theorem dropAlike_append {d : Char} (name text rest : List Char)
    (hName : ∀ c ∈ name, alike c d = false) :
    dropAlike name (text ++ d :: rest) = (dropAlike name text).map (· ++ d :: rest) := by
  induction name generalizing text with
  | nil => rfl
  | cons c name ih =>
    have hTail : ∀ c' ∈ name, alike c' d = false := fun c' h => hName c' (List.mem_cons_of_mem c h)
    cases text with
    | nil =>
      simp only [List.nil_append, dropAlike, hName c List.mem_cons_self, Bool.false_eq_true,
        if_false, Option.map_none]
    | cons e text =>
      rw [List.cons_append, dropAlike, dropAlike]
      split
      · exact ih text hTail
      · rfl

namespace RawElement

theorem not_alike_opening (element : RawElement) :
    ∀ c ∈ element.name.toList, alike c '<' = false := by
  have hAll : element.name.toList.all (fun c => !alike c '<') = true := by
    cases element <;> decide
  simpa only [List.all_eq_true, Bool.not_eq_true'] using hAll

theorem self_image (element : RawElement) :
    ∀ c ∈ element.name.toList, (caseImages c.toNat).contains c.toNat = true := by
  have hAll : element.name.toList.all (fun c => (caseImages c.toNat).contains c.toNat) = true := by
    cases element <;> decide
  exact List.all_eq_true.mp hAll

theorem toNat_ne (element : RawElement) :
    ∀ c ∈ element.name.toList, c.toNat ≠ 0 ∧ c.toNat < 128 := by
  have hAll : element.name.toList.all (fun c => c.toNat ≠ 0 && c.toNat < 128) = true := by
    cases element <;> decide
  simpa only [List.all_eq_true, Bool.and_eq_true, decide_eq_true_eq] using hAll

theorem name_of_ofName? {name : String} {element : RawElement} (h : ofName? name = some element) :
    name = element.name := by
  unfold ofName? at h
  split at h
  · cases h
    assumption
  · split at h
    · cases h
      assumption
    · cases h

end RawElement

theorem endsRaw_append (element : RawElement) {text : List Char} (rest : List Char) (hNe : text ≠ [])
    (h : endsRaw element text = false) : endsRaw element (text ++ '<' :: rest) = false := by
  match text, hNe, h with
  | [c], _, _ =>
    unfold endsRaw
    split
    · rename_i hText
      cases (List.cons.inj (List.cons.inj hText).2).1
    · rfl
  | c :: d :: inner, _, h =>
    have hDrop : (inner ++ '<' :: rest).dropWhile isBlank =
        inner.dropWhile isBlank ++ '<' :: rest := by
      rw [List.dropWhile_append]
      split
      · rename_i hEmpty
        rw [List.isEmpty_iff.mp hEmpty, List.dropWhile_cons_of_neg (by decide), List.nil_append]
      · rfl
    by_cases hMark : c = '<' ∧ d = '/'
    · obtain ⟨rfl, rfl⟩ := hMark
      simp only [List.cons_append, endsRaw, hDrop,
        dropAlike_append _ _ _ element.not_alike_opening] at h ⊢
      cases hLeft : dropAlike element.name.toList (inner.dropWhile isBlank) with
      | none => rfl
      | some left =>
        rw [hLeft] at h
        cases left with
        | nil => rfl
        | cons e left => exact h
    · unfold endsRaw
      split
      · rename_i hText
        obtain ⟨hFirst, hInner⟩ := List.cons.inj hText
        exact absurd ⟨hFirst, (List.cons.inj hInner).1⟩ hMark
      · rfl

theorem splitRaw_append_end (element : RawElement) {text : List Char} (rest : List Char)
    (hText : ∀ inner, inner <:+ text → endsRaw element inner = false)
    (hEnd : endsRaw element ('<' :: rest) = true) :
    splitRaw element (text ++ '<' :: rest) = (text, '<' :: rest) := by
  induction text with
  | nil => rw [List.nil_append, splitRaw, if_pos hEnd]
  | cons c text ih =>
    have hHere := endsRaw_append element rest (List.cons_ne_nil c text)
      (hText _ (List.suffix_refl _))
    have hTail := ih fun inner hInner => hText inner (hInner.trans (List.suffix_cons c text))
    rw [List.cons_append] at hHere
    rw [List.cons_append, splitRaw, if_neg (Bool.eq_false_iff.mp hHere), hTail]

/-! ## Names in any case -/

/-- A character whose image begins a part of the name is mapped to the beginning, and to no more of
the name. -/
theorem image_of_name (element : RawElement) {c d : Char} {before rest name : List Char}
    (hName : ∀ e ∈ d :: name, e ∈ element.name.toList)
    (hImage : lowerAfter before (c :: rest) = d :: name) :
    c ≠ 'İ' ∧ lowerCodePoint loweringRows c.toNat = d.toNat ∧
      lowerAfter (c :: before) rest = name := by
  have hd := hName d List.mem_cons_self
  obtain ⟨hZero, hAscii⟩ := element.toNat_ne d hd
  have hSigma : c ≠ 'Σ' := by
    rintro rfl
    rw [lowerAfter, if_pos rfl] at hImage
    split at hImage <;>
    · obtain ⟨rfl, -⟩ := List.cons.inj hImage
      revert hAscii
      decide
  have hDotted : c ≠ 'İ' := by
    rintro rfl
    obtain ⟨-, hTail⟩ := List.cons.inj hImage
    have hMark : Char.ofNat 0x307 ∈ element.name.toList := by
      apply hName
      rw [← hTail]
      exact List.mem_cons_of_mem d List.mem_cons_self
    have hMarkAscii := (element.toNat_ne _ hMark).2
    revert hMarkAscii
    decide
  rw [lowerAfter_cons hSigma hDotted] at hImage
  obtain ⟨hHead, hTail⟩ := List.cons.inj hImage
  exact ⟨hDotted, toNat_of_ofNat_eq hZero hHead, hTail⟩

theorem alike_of_image (element : RawElement) {c d : Char} {before rest name : List Char}
    (hName : ∀ e ∈ d :: name, e ∈ element.name.toList)
    (hImage : lowerAfter before (c :: rest) = d :: name) :
    alike d c = true ∧ lowerAfter (c :: before) rest = name := by
  obtain ⟨hDotted, hCode, hTail⟩ := image_of_name element hName hImage
  have hFold : foldCodePoint c.toNat = lowerCodePoint loweringRows c.toNat := by
    apply if_neg
    intro hCode
    exact hDotted (Char.toNat_inj.mp hCode)
  refine ⟨?_, hTail⟩
  rw [alike, hFold, hCode]
  exact element.self_image d (hName d List.mem_cons_self)

theorem dropAlike_of_lowerAfter (element : RawElement) {before tag name : List Char}
    (rest : List Char) (hName : ∀ e ∈ name, e ∈ element.name.toList)
    (hLower : lowerAfter before tag = name) : dropAlike name (tag ++ rest) = some rest := by
  induction tag generalizing before name with
  | nil =>
    rw [← hLower]
    rfl
  | cons c tag ih =>
    cases name with
    | nil => exact absurd hLower (lowerAfter_ne_nil before (List.cons_ne_nil c tag))
    | cons d name =>
      obtain ⟨hAlike, hTail⟩ := alike_of_image element hName hLower
      rw [List.cons_append, dropAlike, if_pos hAlike]
      exact ih (fun e he => hName e (List.mem_cons_of_mem d he)) hTail

theorem endsRaw_endTag {element : RawElement} {tag : List Char} (rest : List Char)
    (hTag : NamesTag tag) (hElement : String.ofList (lowerChars tag) = element.name) :
    endsRaw element ('<' :: '/' :: (tag ++ '>' :: rest)) = true := by
  have hLower : lowerAfter [] tag = element.name.toList := by
    rw [← hElement, String.toList_ofList]
    rfl
  have hBlank : (tag ++ '>' :: rest).dropWhile isBlank = tag ++ '>' :: rest := by
    obtain ⟨c, tail, hText, -⟩ := hTag.first
    have hFirst := (hTag.chars c (by rw [hText]; exact List.mem_cons_self)).2
    rw [hText, List.cons_append, List.dropWhile_cons_of_neg (Bool.eq_false_iff.mp hFirst)]
  simp only [endsRaw, hBlank, dropAlike_of_lowerAfter element _ (fun _ h => h) hLower]
  rfl

theorem lower_tagName (casing : Casing) (name : List Char) :
    lower (casing.tagName name) = String.ofList (lowerChars name) := by
  rw [lower, Casing.tagName, String.toList_ofList]
  split
  · rw [lowerChars_lowerChars]
  · rfl

end Hypertext
