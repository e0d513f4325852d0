import Hypertext.Fault
import Hypertext.Proofs.Number.Amount
import Hypertext.Proofs.Value.Entries

/-! # Keys

Only what cannot change is a key. Among keys equality is symmetric and transitive, so a name picks out at
most one of distinct entries: setting a value under it keeps that entry in its place or adds one at the end,
and erasing the name takes nothing else away.
-/

namespace Hypertext

set_option autoImplicit false

namespace Value

/-- A value that a mapping takes as a key. -/
def IsKey (value : Value) : Prop := value.changeable? = Option.none

def AreKeys (values : List Value) : Prop := firstChangeable? values = Option.none

theorem checkKey_eq_ok_iff {value : Value} : value.checkKey = .ok () ↔ value.IsKey := by
  rw [checkKey, IsKey]
  cases value.changeable? <;> simp

theorem isKey_str (s : String) : (Value.str s).IsKey := rfl

theorem str_same_str (s t : String) : (Value.str s).same (.str t) = decide (s = t) := by
  rw [Bool.eq_iff_iff, same_str_iff, decide_eq_true_iff]
  simp

theorem isKey_seq_iff {kind : SeqKind} {items : List Value} :
    (Value.seq kind items).IsKey ↔ kind.isMutable = false ∧ AreKeys items := by
  rw [IsKey, changeable?]
  cases kind.isMutable <;> simp [AreKeys]

theorem not_isKey_map (kind : MapKind) (entries : List (Value × Value)) :
    ¬(Value.map kind entries).IsKey := by
  rw [IsKey, changeable?]
  exact nofun

theorem areKeys_cons_iff {item : Value} {rest : List Value} :
    AreKeys (item :: rest) ↔ item.IsKey ∧ AreKeys rest := by
  rw [AreKeys, firstChangeable?, Option.or_eq_none_iff]
  rfl

theorem same_seq_iff {kind twin : SeqKind} {items others : List Value} :
    (Value.seq kind items).same (.seq twin others) = true ↔
      kind.isMutable = twin.isMutable ∧ sameItems items others = true := by
  rw [same, Bool.and_eq_true, beq_iff_eq]

theorem sameItems_cons_iff {item other : Value} {rest others : List Value} :
    sameItems (item :: rest) (other :: others) = true ↔
      item.same other = true ∧ sameItems rest others = true := by
  rw [sameItems, Bool.and_eq_true]

mutual

theorem IsKey.same_symm : ∀ {key value : Value}, key.IsKey → value.same key = true →
    key.same value = true
  | .atom _, .atom _, _, h => by
    rw [same] at h ⊢
    exact Atom.same_symm h
  | .seq _ _, .seq _ _, hKey, h => by
    obtain ⟨hKind, hItems⟩ := same_seq_iff.mp h
    exact same_seq_iff.mpr ⟨hKind.symm, AreKeys.same_symm (isKey_seq_iff.mp hKey).2 hItems⟩
  | .map kind entries, _, hKey, _ => absurd hKey (not_isKey_map kind entries)

theorem AreKeys.same_symm : ∀ {keys values : List Value}, AreKeys keys →
    sameItems values keys = true → sameItems keys values = true
  | [], [], _, _ => rfl
  | _ :: _, _ :: _, hKeys, h => by
    obtain ⟨hKey, hRest⟩ := areKeys_cons_iff.mp hKeys
    obtain ⟨hFirst, hOthers⟩ := sameItems_cons_iff.mp h
    exact sameItems_cons_iff.mpr ⟨hKey.same_symm hFirst, AreKeys.same_symm hRest hOthers⟩

end

mutual

theorem IsKey.same_trans : ∀ {key value other : Value}, key.IsKey → value.same key = true →
    key.same other = true → value.same other = true
  | .atom _, .atom _, .atom _, _, hFirst, hSecond => by
    rw [same] at hFirst hSecond ⊢
    exact Atom.same_trans hFirst hSecond
  | .seq _ _, .seq _ _, .seq _ _, hKey, hFirst, hSecond => by
    obtain ⟨hKind, hItems⟩ := same_seq_iff.mp hFirst
    obtain ⟨hTwin, hOthers⟩ := same_seq_iff.mp hSecond
    have hKeys := (isKey_seq_iff.mp hKey).2
    exact same_seq_iff.mpr ⟨hKind.trans hTwin, AreKeys.same_trans hKeys hItems hOthers⟩
  | .map kind entries, _, _, hKey, _, _ => absurd hKey (not_isKey_map kind entries)

theorem AreKeys.same_trans : ∀ {keys values others : List Value}, AreKeys keys →
    sameItems values keys = true → sameItems keys others = true → sameItems values others = true
  | [], [], [], _, _, _ => rfl
  | _ :: _, _ :: _, _ :: _, hKeys, hFirst, hSecond => by
    obtain ⟨hKey, hRest⟩ := areKeys_cons_iff.mp hKeys
    obtain ⟨hHead, hItems⟩ := sameItems_cons_iff.mp hFirst
    obtain ⟨hOther, hOthers⟩ := sameItems_cons_iff.mp hSecond
    exact sameItems_cons_iff.mpr
      ⟨hKey.same_trans hHead hOther, AreKeys.same_trans hRest hItems hOthers⟩

end

mutual

theorem IsKey.of_same : ∀ {key value : Value}, key.IsKey → value.same key = true → value.IsKey
  | .atom _, .atom _, _, _ => rfl
  | .seq _ _, .seq _ _, hKey, h => by
    obtain ⟨hKind, hItems⟩ := same_seq_iff.mp h
    obtain ⟨hTwin, hKeys⟩ := isKey_seq_iff.mp hKey
    exact isKey_seq_iff.mpr ⟨hKind.trans hTwin, AreKeys.of_same hKeys hItems⟩
  | .map kind entries, _, hKey, _ => absurd hKey (not_isKey_map kind entries)

theorem AreKeys.of_same : ∀ {keys values : List Value}, AreKeys keys →
    sameItems values keys = true → AreKeys values
  | [], [], _, _ => rfl
  | _ :: _, _ :: _, hKeys, h => by
    obtain ⟨hKey, hRest⟩ := areKeys_cons_iff.mp hKeys
    obtain ⟨hFirst, hOthers⟩ := sameItems_cons_iff.mp h
    exact areKeys_cons_iff.mpr ⟨hKey.of_same hFirst, AreKeys.of_same hRest hOthers⟩

end

end Value

namespace Entries

variable {β : Type} {entries front back : List (Value × β)} {entry : Value × β} {name : Value}

theorem contains_eq_false_iff :
    contains entries name = false ↔ ∀ entry ∈ entries, entry.1.same name = false := by
  rw [contains, List.any_eq_false]
  simp only [Bool.not_eq_true]

theorem get?_eq_none (h : ∀ entry ∈ entries, entry.1.same name = false) :
    get? entries name = none := by
  rw [get?, Option.map_eq_none_iff, List.find?_eq_none]
  intro entry hEntry hSame
  rw [h entry hEntry] at hSame
  cases hSame

theorem get?_eq_none_of_same {other : Value} (hName : name.IsKey) (hSame : other.same name = true)
    (h : ∀ entry ∈ entries, entry.1.same other = false) : get? entries name = none := by
  refine get?_eq_none fun entry hEntry => ?_
  rw [Bool.eq_false_iff]
  intro hFound
  have hOther := hName.same_trans hFound (hName.same_symm hSame)
  rw [h entry hEntry] at hOther
  cases hOther

theorem exists_of_contains (h : contains entries name = true) :
    ∃ front entry back, entries = front ++ entry :: back ∧ entry.1.same name = true := by
  obtain ⟨entry, hEntry, hSame⟩ := List.any_eq_true.mp h
  obtain ⟨front, back, hParts⟩ := List.append_of_mem hEntry
  exact ⟨front, entry, back, hParts, hSame⟩

theorem Distinct.apart (h : Distinct (front ++ entry :: back)) (hName : name.IsKey)
    (hSame : entry.1.same name = true) : ∀ other ∈ front ++ back, other.1.same name = false := by
  obtain ⟨-, hRest, hFront⟩ := List.pairwise_append.mp h
  obtain ⟨hBack, -⟩ := List.pairwise_cons.mp hRest
  intro other hOther
  rw [Bool.eq_false_iff]
  intro hTwin
  rcases List.mem_append.mp hOther with hMem | hMem
  · have hEntry := hName.same_trans hTwin (hName.same_symm hSame)
    rw [hFront other hMem entry List.mem_cons_self] at hEntry
    cases hEntry
  · have hEntry := hName.same_trans hSame (hName.same_symm hTwin)
    rw [hBack other hMem] at hEntry
    cases hEntry

theorem Distinct.erase (h : Distinct entries) (name : Value) : Distinct (erase entries name) :=
  List.Pairwise.filter _ h

theorem set_of_mem (h : Distinct (front ++ entry :: back)) (hName : name.IsKey)
    (hSame : entry.1.same name = true) (value : β) :
    set (front ++ entry :: back) name value = front ++ (entry.1, value) :: back := by
  have hApart := List.forall_mem_append.mp (h.apart hName hSame)
  have hStays {others : List (Value × β)} (hOthers : ∀ other ∈ others, other.1.same name = false) :
      (others.map fun other => if other.1.same name then (other.1, value) else other) =
        others := by
    refine (List.map_congr_left fun other hOther => ?_).trans (List.map_id others)
    rw [hOthers other hOther]
    rfl
  have hContains : contains (front ++ entry :: back) name = true := by
    rw [contains, List.any_append, List.any_cons, hSame, Bool.true_or, Bool.or_true]
  rw [set, if_pos hContains, List.map_append, List.map_cons, if_pos hSame, hStays hApart.1,
    hStays hApart.2]

theorem forall_key_set {p : Value → Prop} (h : ∀ entry ∈ entries, p entry.1) (hName : p name)
    (value : β) : ∀ entry ∈ set entries name value, p entry.1 := by
  rw [set]
  split
  · intro entry hEntry
    obtain ⟨old, hOld, rfl⟩ := List.mem_map.mp hEntry
    split <;> exact h old hOld
  · exact List.forall_mem_append.mpr ⟨h, List.forall_mem_singleton.mpr hName⟩

theorem isEmpty_set (entries : List (Value × β)) (name : Value) (value : β) :
    (set entries name value).isEmpty = false := by
  rw [set]
  split
  · rename_i hContains
    cases entries with
    | nil => cases hContains
    | cons entry rest => rfl
  · simp

theorem set_of_not_contains (h : contains entries name = false) (value : β) :
    set entries name value = entries ++ [(name, value)] := by
  rw [set, h]
  rfl

theorem erase_of_mem (h : Distinct (front ++ entry :: back)) (hName : name.IsKey)
    (hSame : entry.1.same name = true) : erase (front ++ entry :: back) name = front ++ back := by
  have hApart := h.apart hName hSame
  rw [erase, List.filter_append, List.filter_cons_of_neg (by simp [hSame]), ← List.filter_append,
    List.filter_eq_self]
  intro other hOther
  rw [hApart other hOther]
  rfl

end Entries

end Hypertext
