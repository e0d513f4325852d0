import Hypertext.Value.Basic

/-! # Entries that are set one after the other

A key that is set is found with its value, one that is erased is not found, and every other key is found as
before. So of entries that are set one after the other the last one under a key counts, and no two keys
become the same.
-/

namespace Hypertext

set_option autoImplicit false

theorem Value.str_same_iff {value : Value} {s : String} :
    (Value.str s).same value = true ↔ value = .str s := by
  constructor
  · intro h
    cases value with
    | atom a =>
      cases a <;> simp [same, Atom.same] at h
      rw [h]
    | seq kind items => simp [same] at h
    | map kind entries => simp [same] at h
  · rintro rfl
    exact same_str_iff.mpr rfl

namespace Entries

variable {β γ : Type} {entries more : List (Value × β)} {key : Value} {name : String}

theorem get?_cons (entry : Value × β) (rest : List (Value × β)) (key : Value) :
    get? (entry :: rest) key = if entry.1.same key then some entry.2 else get? rest key := by
  rw [get?, List.find?_cons]
  cases entry.1.same key <;> rfl

theorem get?_append (before after : List (Value × β)) (key : Value) :
    get? (before ++ after) key = (get? before key).or (get? after key) := by
  rw [get?, List.find?_append, Option.map_or]
  rfl

theorem find?_replaced (key name : Value) (value : β) :
    (entries.map fun entry => if entry.1.same key then (entry.1, value) else entry).find?
        (·.1.same name) =
      (entries.find? (·.1.same name)).map fun entry =>
        if entry.1.same key then (entry.1, value) else entry := by
  rw [List.find?_map]
  congr 1
  refine congrArg (List.find? · entries) (funext fun entry => ?_)
  simp only [Function.comp_apply]
  split <;> rfl

theorem at?_set_self (entries : List (Value × β)) (name : String) (value : β) :
    at? (set entries (.str name) value) name = some value := by
  rw [set, at?, get?]
  split
  · rename_i hContains
    obtain ⟨first, hFirst⟩ := Option.isSome_iff_exists.mp (List.find?_isSome.mpr
      (List.any_eq_true.mp hContains))
    have hKey := List.find?_some hFirst
    rw [find?_replaced, hFirst, Option.map_some, if_pos hKey]
    rfl
  · rename_i hNew
    have hNone : entries.find? (·.1.same (.str name)) = none := by
      rw [List.find?_eq_none]
      exact fun entry hEntry hSame => hNew (List.any_eq_true.mpr ⟨entry, hEntry, hSame⟩)
    simp [List.find?_append, hNone, Value.same_str_iff]

theorem at?_set_ne (entries : List (Value × β)) (hKey : key ≠ .str name) (value : β) :
    at? (set entries key value) name = at? entries name := by
  have hApart : key.same (.str name) = false := by
    rw [Bool.eq_false_iff]
    exact fun hSame => hKey (Value.same_str_iff.mp hSame)
  rw [set, at?, get?, at?, get?]
  split
  · rw [find?_replaced, Option.map_map]
    cases hFirst : entries.find? (·.1.same (.str name)) with
    | none => rfl
    | some first =>
      have hSame := List.find?_some hFirst
      have hName := Value.same_str_iff.mp hSame
      have hOther : first.1.same key = false := by
        rw [hName, Bool.eq_false_iff]
        exact fun hSame => hKey (Value.str_same_iff.mp hSame)
      simp [hOther]
  · simp [List.find?_append, hApart]

theorem same_str_of_ne {value : Value} {name other : String} (h : name ≠ other)
    (hKey : value.same (.str name) = true) : value.same (.str other) = false := by
  rw [Bool.eq_false_iff]
  intro hOther
  cases (Value.same_str_iff.mp hKey).symm.trans (Value.same_str_iff.mp hOther)
  exact h rfl

theorem at?_erase_self (entries : List (Value × β)) (name : String) :
    at? (erase entries (.str name)) name = none := by
  simp only [erase, at?, get?, List.find?_filter, Option.map_eq_none_iff, List.find?_eq_none]
  simp

theorem at?_erase_ne (entries : List (Value × β)) {name other : String} (h : name ≠ other) :
    at? (erase entries (.str name)) other = at? entries other := by
  simp only [erase, at?, get?, List.find?_filter]
  congr 2
  funext entry
  cases hKey : entry.1.same (.str name) with
  | true => simp [same_str_of_ne h hKey]
  | false => simp

/-! ## Distinct keys -/

/-- No key is the same as one before it. -/
def Distinct (entries : List (Value × β)) : Prop :=
  entries.Pairwise fun first second => first.1.same second.1 = false

theorem Distinct.set (h : Distinct entries) (key : Value) (value : β) :
    Distinct (set entries key value) := by
  rw [Entries.set]
  split
  · have hKeys (entry : Value × β) :
        (if entry.1.same key then (entry.1, value) else entry).1 = entry.1 := by
      split <;> rfl
    refine List.pairwise_map.mpr (h.imp fun {first second} hApart => ?_)
    rw [hKeys, hKeys]
    exact hApart
  · rename_i hNew
    refine List.pairwise_append.mpr ⟨h, List.pairwise_singleton _ _, ?_⟩
    intro first hFirst second hSecond
    rw [List.mem_singleton.mp hSecond, Bool.eq_false_iff]
    exact fun hSame => hNew (List.any_eq_true.mpr ⟨first, hFirst, hSame⟩)

def setAll (entries more : List (Value × β)) : List (Value × β) :=
  more.foldl (fun merged entry => Entries.set merged entry.1 entry.2) entries

theorem Distinct.setAll (h : Distinct entries) (more : List (Value × β)) :
    Distinct (setAll entries more) := by
  induction more generalizing entries with
  | nil => exact h
  | cons entry more ih => exact ih (h.set entry.1 entry.2)

theorem at?_cons (entry : Value × β) (entries : List (Value × β)) (name : String) :
    at? (entry :: entries) name =
      if entry.1.same (.str name) then some entry.2 else at? entries name :=
  get?_cons entry entries (.str name)

theorem at?_setAll (hMore : Distinct more) (entries : List (Value × β)) (name : String) :
    at? (setAll entries more) name = (at? more name).or (at? entries name) := by
  induction more generalizing entries with
  | nil => rfl
  | cons entry more ih =>
    obtain ⟨hFirst, hMore⟩ := List.pairwise_cons.mp hMore
    rw [setAll, List.foldl_cons]
    refine (ih hMore (Entries.set entries entry.1 entry.2)).trans ?_
    rw [at?_cons]
    split
    · rename_i hSame
      have hName := Value.same_str_iff.mp hSame
      have hNone : at? more name = none := by
        rw [at?, get?, Option.map_eq_none_iff, List.find?_eq_none]
        intro other hOther hSameOther
        have hApart := hFirst other hOther
        rw [hName, Value.same_str_iff.mp hSameOther, Value.same_str_iff.mpr rfl] at hApart
        cases hApart
      rw [hNone, hName, at?_set_self]
      rfl
    · rename_i hApart
      rw [at?_set_ne entries fun hName => hApart (Value.same_str_iff.mpr hName)]

theorem at?_map (f : β → γ) (entries : List (Value × β)) (name : String) :
    at? (entries.map fun entry => (entry.1, f entry.2)) name = (at? entries name).map f := by
  rw [at?, get?, at?, get?, List.find?_map, Option.map_map, Option.map_map]
  rfl

theorem at?_zip_map (f : β → γ) (keys : List Value) (parts : List β) (name : String) :
    at? (keys.zip (parts.map f)) name = (at? (keys.zip parts) name).map f := by
  rw [List.zip_map_right]
  exact at?_map f (keys.zip parts) name

end Entries

end Hypertext
