import Mathlib.Data.List.Nodup
import Mathlib.Data.List.Perm.Subperm
import Hypertext.Proofs.Isolation.Pairing
import Hypertext.Proofs.Value.Entries
import Hypertext.Tree.Rendering

/-! # What counterparts show

Whatever a program can see of an object, it sees the same of the counterpart: its type, whether it
counts as true, its value, its markup, and the counterpart of its options object.
-/

namespace Hypertext

set_option autoImplicit false

namespace Store

theorem viewTo_atom (store : Store) (depth : Nat) (path : List Ref) (a : Atom) :
    store.viewTo depth path (.atom a) = .atom a := by
  cases depth <;> rfl

theorem viewTo_of_mem {store : Store} {depth : Nat} {path : List Ref} {r : Ref}
    (h : r ∈ path) : store.viewTo depth path (.ref r) = store.again r := by
  cases depth <;> rw [Store.viewTo, if_pos h]

theorem length_lt_of_not_mem {store : Store} {path : List Ref} {r : Ref} (hPath : path.Nodup)
    (hBound : ∀ q ∈ path, q.index < store.cells.size) (hr : r.index < store.cells.size)
    (hNew : r ∉ path) : path.length < store.cells.size := by
  have hNodup : ((r :: path).map Ref.index).Nodup := by
    refine List.Nodup.map ?_ (List.nodup_cons.mpr ⟨hNew, hPath⟩)
    rintro ⟨i⟩ ⟨j⟩ hSame
    exact congrArg Ref.mk hSame
  have hSubset : (r :: path).map Ref.index ⊆ List.range store.cells.size := by
    intro i hi
    obtain ⟨q, hq, rfl⟩ := List.mem_map.mp hi
    rw [List.mem_range]
    rcases List.mem_cons.mp hq with rfl | hq
    · exact hr
    · exact hBound q hq
  have hLength := (hNodup.subperm hSubset).length_le
  rw [List.length_map, List.length_range, List.length_cons] at hLength
  exact hLength

end Store

namespace Pairing

variable {β : Pairing} {s t : Store} {slot twin : Slot}

theorem SeqKinds.bare_eq {kind twin : SeqKind} (h : β.SeqKinds kind twin) :
    kind.bare = twin.bare := by
  cases h <;> rfl

theorem MapKinds.bare_eq {kind twin : MapKind} (h : β.MapKinds kind twin) :
    kind.bare = twin.bare := by
  cases h <;> rfl

theorem isEmpty_eq {α : Type} {R : α → α → Prop} {items twins : List α}
    (h : List.Forall₂ R items twins) : items.isEmpty = twins.isEmpty := by
  cases h <;> rfl

inductive Sights (β : Pairing) (s t : Store) : Slot → Slot → Prop where
  | atom (a : Atom) : Sights β s t (.atom a) (.atom a)
  | seq {r q : Ref} {kind twin : SeqKind} {items twins : List Slot} (hPair : (r, q) ∈ β.cells)
    (hHere : s.get? r = some (.seq kind items)) (hThere : t.get? q = some (.seq twin twins))
    (hKind : β.SeqKinds kind twin) (hItems : List.Forall₂ β.Slots items twins) :
    Sights β s t (.ref r) (.ref q)
  | map {r q : Ref} {kind twin : MapKind} {entries twins : List (Value × Slot)}
    (hPair : (r, q) ∈ β.cells) (hHere : s.get? r = some (.map kind entries))
    (hThere : t.get? q = some (.map twin twins)) (hKind : β.MapKinds kind twin)
    (hEntries : List.Forall₂ β.Entries entries twins) : Sights β s t (.ref r) (.ref q)

namespace Stores

theorem sights (h : β.Stores s t) (hSlot : β.Slots slot twin) : β.Sights s t slot twin := by
  cases hSlot with
  | atom a => exact .atom a
  | ref hPair =>
    obtain ⟨cell, other, hHere, hThere, hCells⟩ := h.cells hPair
    cases hCells with
    | seq hKind hItems => exact .seq hPair hHere hThere hKind hItems
    | map hKind hEntries => exact .map hPair hHere hThere hKind hEntries

theorem truthy_eq (h : β.Stores s t) (hSlot : β.Slots slot twin) :
    s.truthy slot = t.truthy twin := by
  cases h.sights hSlot with
  | atom a => rfl
  | seq _ hHere hThere _ hItems =>
    simp only [Store.truthy, Store.cell?, hHere, hThere, isEmpty_eq hItems]
  | map _ hHere hThere _ hEntries =>
    simp only [Store.truthy, Store.cell?, hHere, hThere, isEmpty_eq hEntries]

theorem optionsOf (h : β.Stores s t) (hSlot : β.Slots slot twin) :
    β.Handles (s.optionsOf slot) (t.optionsOf twin) := by
  cases h.sights hSlot with
  | atom a => exact .none
  | seq _ hHere hThere hKind =>
    simp only [Store.optionsOf, Store.cell?, hHere, hThere]
    cases hKind with
    | list | tuple => exact .none
    | tree hHandle => exact hHandle
  | map _ hHere hThere hKind =>
    simp only [Store.optionsOf, Store.cell?, hHere, hThere]
    cases hKind with
    | dict | node => exact .none
    | root hHandle => exact hHandle

theorem identical_eq (h : β.Stores s t) {other otherTwin : Slot} (hSlot : β.Slots slot twin)
    (hOther : β.Slots other otherTwin) : slot.identical other = twin.identical otherTwin := by
  cases hSlot with
  | atom a => cases hOther <;> rfl
  | ref hPair =>
    cases hOther with
    | atom a => rfl
    | ref hOther => exact decide_eq_decide.mpr (h.cellsOnce hPair hOther)

end Stores

theorem Slots.isNone_eq (h : β.Slots slot twin) : slot.isNone = twin.isNone := by
  cases h <;> rfl

/-! ## Values -/

theorem map_eq {α δ : Type} {R : α → α → Prop} {f g : α → δ} {items twins : List α}
    (h : List.Forall₂ R items twins) (hSame : ∀ item twin, R item twin → f item = g twin) :
    items.map f = twins.map g := by
  induction h with
  | nil => rfl
  | cons hHead _ ih => rw [List.map_cons, List.map_cons, hSame _ _ hHead, ih]

namespace Stores

theorem path_lt (h : β.Stores s t) {path : List (Ref × Ref)} (hPath : ∀ pair ∈ path, pair ∈ β.cells) :
    (∀ r ∈ path.map Prod.fst, r.index < s.cells.size) ∧
      ∀ q ∈ path.map Prod.snd, q.index < t.cells.size := by
  constructor
  · intro r hr
    obtain ⟨pair, hMem, rfl⟩ := List.mem_map.mp hr
    exact (h.cells_lt (hPath pair hMem)).1
  · intro q hq
    obtain ⟨pair, hMem, rfl⟩ := List.mem_map.mp hq
    exact (h.cells_lt (hPath pair hMem)).2

theorem mem_path_iff (h : β.Stores s t) {path : List (Ref × Ref)}
    (hPath : ∀ pair ∈ path, pair ∈ β.cells) {r q : Ref} (hPair : (r, q) ∈ β.cells) :
    r ∈ path.map Prod.fst ↔ q ∈ path.map Prod.snd := by
  constructor
  · intro hr
    obtain ⟨pair, hMem, hFst⟩ := List.mem_map.mp hr
    exact List.mem_map.mpr ⟨pair, hMem, ((h.cellsOnce (hPath pair hMem) hPair).mp hFst)⟩
  · intro hq
    obtain ⟨pair, hMem, hSnd⟩ := List.mem_map.mp hq
    exact List.mem_map.mpr ⟨pair, hMem, ((h.cellsOnce (hPath pair hMem) hPair).mpr hSnd)⟩

theorem again_eq (h : β.Stores s t) {r q : Ref} (hPair : (r, q) ∈ β.cells) :
    s.again r = t.again q := by
  cases h.sights (.ref hPair) with
  | seq _ hHere hThere hKind => simp only [Store.again, hHere, hThere, hKind.bare_eq]
  | map _ hHere hThere hKind => simp only [Store.again, hHere, hThere, hKind.bare_eq]

theorem viewTo_ref_eq (h : β.Stores s t) {r q : Ref} (hPair : (r, q) ∈ β.cells)
    {path otherPath : List Ref} (hMem : r ∈ path ↔ q ∈ otherPath) {depth other : Nat}
    (hNext : r ∉ path → ∀ slot twin, β.Slots slot twin →
      s.viewTo depth (r :: path) slot = t.viewTo other (q :: otherPath) twin) :
    s.viewTo (depth + 1) path (.ref r) = t.viewTo (other + 1) otherPath (.ref q) := by
  rw [Store.viewTo, Store.viewTo]
  by_cases hr : r ∈ path
  · rw [if_pos hr, if_pos (hMem.mp hr), h.again_eq hPair]
  · rw [if_neg hr, if_neg (mt hMem.mpr hr)]
    cases h.sights (.ref hPair) with
    | seq _ hHere hThere hKind hItems =>
      simp only [hHere, hThere, hKind.bare_eq, map_eq hItems (hNext hr)]
    | map _ hHere hThere hKind hEntries =>
      simp only [hHere, hThere, hKind.bare_eq]
      refine congrArg _ (map_eq hEntries ?_)
      intro entry twin hEntry
      rw [hEntry.key, hNext hr _ _ hEntry.value]

/-- The induction is on how far the first store is gone into. A path takes up one more cell of either
store with each step, so neither depth is used up before an object is come to again. -/
theorem viewTo_eq (h : β.Stores s t) (depth : Nat) :
    ∀ (other : Nat) (path : List (Ref × Ref)) (slot twin : Slot),
      (∀ pair ∈ path, pair ∈ β.cells) → (path.map Prod.fst).Nodup → (path.map Prod.snd).Nodup →
      s.cells.size ≤ depth + path.length → t.cells.size ≤ other + path.length →
      β.Slots slot twin →
      s.viewTo depth (path.map Prod.fst) slot = t.viewTo other (path.map Prod.snd) twin := by
  induction depth with
  | zero =>
    intro other path slot twin hPath hFst hSnd hHere hThere hSlot
    cases hSlot with
    | atom a => rw [Store.viewTo_atom, Store.viewTo_atom]
    | @ref r q hPair =>
      have hMem := h.mem_path_iff hPath hPair
      by_cases hr : r ∈ path.map Prod.fst
      · rw [Store.viewTo_of_mem hr, Store.viewTo_of_mem (hMem.mp hr), h.again_eq hPair]
      · have hLength := Store.length_lt_of_not_mem hFst (h.path_lt hPath).1 (h.cells_lt hPair).1 hr
        rw [List.length_map] at hLength
        omega
  | succ depth ih =>
    intro other path slot twin hPath hFst hSnd hHere hThere hSlot
    cases hSlot with
    | atom a => rw [Store.viewTo_atom, Store.viewTo_atom]
    | @ref r q hPair =>
      have hMem := h.mem_path_iff hPath hPair
      cases other with
      | zero =>
        by_cases hr : r ∈ path.map Prod.fst
        · rw [Store.viewTo_of_mem hr, Store.viewTo_of_mem (hMem.mp hr), h.again_eq hPair]
        · have hLength :=
            Store.length_lt_of_not_mem hSnd (h.path_lt hPath).2 (h.cells_lt hPair).2 (mt hMem.mpr hr)
          rw [List.length_map] at hLength
          omega
      | succ other =>
        refine h.viewTo_ref_eq hPair hMem fun hr slot twin hSlot => ?_
        refine ih other ((r, q) :: path) slot twin (List.forall_mem_cons.mpr ⟨hPair, hPath⟩)
          (List.nodup_cons.mpr ⟨hr, hFst⟩) (List.nodup_cons.mpr ⟨mt hMem.mpr hr, hSnd⟩) ?_ ?_ hSlot
        · rw [List.length_cons]
          omega
        · rw [List.length_cons]
          omega

theorem view_eq (h : β.Stores s t) (hSlot : β.Slots slot twin) : s.view slot = t.view twin :=
  h.viewTo_eq s.cells.size t.cells.size [] slot twin (List.forall_mem_nil _) List.nodup_nil
    List.nodup_nil (Nat.le_add_right _ _) (Nat.le_add_right _ _) hSlot

theorem getOptions_eq (h : β.Stores s t) {handle twin : OptionsRef}
    (hHandle : (handle, twin) ∈ β.options) : s.getOptions handle = t.getOptions twin := by
  obtain ⟨slots, twins, hHere, hThere, hSlots⟩ := h.options hHandle
  simp only [Store.getOptions, hHere, hThere]
  exact congrArg Options.ofGet (funext fun setting => h.view_eq (hSlots setting))

/-! ## Markup -/

theorem surface_eq (h : β.Stores s t) (hSlot : β.Slots slot twin) :
    s.surface slot = t.surface twin := by
  cases h.sights hSlot with
  | atom a => rfl
  | seq _ hHere hThere hKind hItems =>
    simp only [Store.surface, Store.cell?, hHere, hThere, hKind.bare_eq]
    exact congrArg _ (map_eq hItems fun _ _ hItem => h.view_eq hItem)
  | map _ hHere hThere hKind hEntries =>
    simp only [Store.surface, Store.cell?, hHere, hThere, hKind.bare_eq]
    refine congrArg _ (map_eq hEntries ?_)
    intro entry twin hEntry
    rw [hEntry.key, h.view_eq hEntry.value]

end Stores

theorem slots_fieldSlot {entries twins : List (Value × Slot)}
    (h : List.Forall₂ β.Entries entries twins) (key : String) :
    β.Slots (Store.fieldSlot entries key) (Store.fieldSlot twins key) := by
  induction h with
  | nil => exact .atom .none
  | @cons entry twin _ _ hEntry _ ih =>
    rw [Store.fieldSlot, Store.fieldSlot, Entries.at?_cons, Entries.at?_cons, hEntry.key]
    split
    · exact hEntry.value
    · exact ih

theorem Stores.markup_eq (h : β.Stores s t) (style : RenderStyle) (depth : Nat)
    (hSlot : β.Slots slot twin) : s.markup style depth slot = t.markup style depth twin := by
  induction depth generalizing slot twin with
  | zero => cases hSlot <;> simp only [Store.markup]
  | succ depth ih =>
    cases h.sights hSlot with
    | atom a => simp only [Store.markup]
    | seq _ hHere hThere _ hItems =>
      simp only [Store.markup, hHere, hThere]
      exact congrArg _ (map_eq hItems fun _ _ hItem => ih hItem)
    | map _ hHere hThere _ hEntries =>
      simp only [Store.markup, hHere, hThere, h.view_eq (slots_fieldSlot hEntries "tag"),
        h.surface_eq (slots_fieldSlot hEntries "attrs"), ih (slots_fieldSlot hEntries "content")]

end Pairing

end Hypertext
