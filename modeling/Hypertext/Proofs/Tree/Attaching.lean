import Hypertext.Tree.Store

/-! # Attaching

What is attached to an options object carries its handle from then on. A capable tree is given the
handle in place; of anything else a capable copy is made at its top level, and the object itself stays
as it is. Nothing else changes, and no options object does.
-/

namespace Hypertext

set_option autoImplicit false

namespace Cell

def isCapable : Cell → Bool
  | .seq kind _ => kind.isCapable
  | .map kind _ => kind.isCapable

def bound (handle : OptionsRef) : Cell → Cell
  | .seq _ items => .seq (.tree (some handle)) items
  | .map _ entries => .map (.root (some handle)) entries

def bare : Cell → Cell
  | .seq kind items => .seq kind.bare items
  | .map kind entries => .map kind.bare entries

theorem bare_bound {cell : Cell} (h : cell.isCapable = true) (handle : OptionsRef) :
    (cell.bound handle).bare = cell.bare := by
  cases cell with
  | seq kind items => cases kind <;> first | rfl | cases h
  | map kind entries => cases kind <;> first | rfl | cases h

end Cell

namespace Store

variable {store next : Store} {slot tree : Slot} {handle : OptionsRef} {r : Ref} {cell : Cell}

def KeepsHandle (handle : OptionsRef) (store next : Store) : Prop :=
  ∀ slot, store.optionsOf slot = some handle → next.optionsOf slot = some handle

/-- Options objects hold what they held, and so do all objects, except that trees may have come by
another handle. -/
structure Retains (store next : Store) : Prop where
  options : next.options = store.options
  cells : ∀ (r : Ref) (cell : Cell), store.get? r = some cell →
    ∃ other, next.get? r = some other ∧ other.bare = cell.bare

namespace KeepsHandle

theorem refl (handle : OptionsRef) (store : Store) : KeepsHandle handle store store := fun _ h => h

theorem trans {last : Store} (hFirst : KeepsHandle handle store next)
    (hSecond : KeepsHandle handle next last) : KeepsHandle handle store last :=
  fun slot h => hSecond slot (hFirst slot h)

end KeepsHandle

theorem Retains.refl (store : Store) : store.Retains store := ⟨rfl, fun _ cell h => ⟨cell, h, rfl⟩⟩

theorem isCapable_of_optionsOf (h : store.optionsOf slot = some handle) :
    store.isCapable slot = true := by
  unfold optionsOf at h
  split at h
  · rename_i hCell
    rw [isCapable, hCell]
    rfl
  · rename_i hCell
    rw [isCapable, hCell]
    rfl
  · cases h

/-! ## What is attached -/

theorem optionsOf_bound (h : store.get? r = some (cell.bound handle)) :
    store.optionsOf (.ref r) = some handle := by
  cases cell <;> simp only [optionsOf, cell?, h, Cell.bound]

theorem attach_none (h : store.cell? slot = none) (options : Option OptionsRef) :
    store.attach slot options = (.error (.notTree (store.typeName slot)), store) := by
  rw [attach, h]

theorem attach_capable (hCell : store.get? r = some cell) (hCapable : cell.isCapable = true)
    (handle : OptionsRef) :
    store.attach (.ref r) (some handle) = (.ok (.ref r), store.put r (cell.bound handle)) := by
  cases cell with
  | seq kind items =>
    cases kind with
    | tree options => simp only [attach, cell?, hCell, setOptionsOf, Cell.bound]
    | list | tuple => cases hCapable
  | map kind entries =>
    cases kind with
    | root options => simp only [attach, cell?, hCell, setOptionsOf, Cell.bound]
    | dict | node => cases hCapable

theorem alloc_put (store : Store) (cell other : Cell) :
    (store.alloc cell).2.put ⟨store.cells.size⟩ other = (store.alloc other).2 := by
  simp only [alloc, put, Store.mk.injEq, and_true]
  apply Array.ext_getElem?
  intro index
  rw [Array.getElem?_setIfInBounds, Array.getElem?_push, Array.getElem?_push, Array.size_push]
  by_cases hIndex : store.cells.size = index
  · subst hIndex
    simp
  · simp [hIndex, Ne.symm hIndex]

theorem setOptionsOf_alloc (store : Store) (cell : Cell) (hCapable : cell.isCapable = true)
    (handle : OptionsRef) :
    (store.alloc cell).2.setOptionsOf (.ref ⟨store.cells.size⟩) handle =
      (store.alloc (cell.bound handle)).2 := by
  rw [← alloc_put store cell (cell.bound handle), setOptionsOf, get?_alloc_self]
  cases cell with
  | seq kind items => cases kind <;> first | rfl | cases hCapable
  | map kind entries => cases kind <;> first | rfl | cases hCapable

theorem attach_plain (hCell : store.get? r = some cell) (hPlain : cell.isCapable = false)
    (handle : OptionsRef) :
    store.attach (.ref r) (some handle) =
      (.ok (.ref ⟨store.cells.size⟩), (store.alloc (cell.bound handle)).2) := by
  cases cell with
  | seq kind items =>
    have hCopy := setOptionsOf_alloc store (.seq (.tree none) items) rfl handle
    cases kind with
    | tree options => cases hPlain
    | list | tuple =>
      simp only [attach, cell?, hCell]
      exact congrArg (Prod.mk _) hCopy
  | map kind entries =>
    have hCopy := setOptionsOf_alloc store (.map (.root none) entries) rfl handle
    cases kind with
    | root options => cases hPlain
    | dict | node =>
      simp only [attach, cell?, hCell]
      exact congrArg (Prod.mk _) hCopy

/-! ## What becomes of the store -/

theorem keepsHandle_put_bound (r : Ref) (cell : Cell) (handle : OptionsRef) :
    KeepsHandle handle store (store.put r (cell.bound handle)) := by
  intro slot h
  cases slot with
  | atom a => cases h
  | ref other =>
    by_cases hSame : r = other
    · subst hSame
      obtain ⟨old, hOld⟩ : ∃ old, store.get? r = some old := by
        cases hCell : store.get? r with
        | some old => exact ⟨old, rfl⟩
        | none =>
          simp only [optionsOf, cell?, hCell] at h
          cases h
      exact optionsOf_bound (store.get?_put_self r _ old hOld)
    · simp only [optionsOf, cell?] at h ⊢
      rwa [store.get?_put_ne r other _ hSame]

theorem retains_put_bound (hCell : store.get? r = some cell) (hCapable : cell.isCapable = true)
    (handle : OptionsRef) : store.Retains (store.put r (cell.bound handle)) where
  options := rfl
  cells other old hOld := by
    by_cases hSame : r = other
    · subst hSame
      cases hCell.symm.trans hOld
      exact ⟨_, store.get?_put_self r _ cell hCell, Cell.bare_bound hCapable handle⟩
    · exact ⟨old, (store.get?_put_ne r other _ hSame).trans hOld, rfl⟩

theorem keepsHandle_alloc (cell : Cell) (handle : OptionsRef) :
    KeepsHandle handle store (store.alloc cell).2 := by
  intro slot h
  cases slot with
  | atom a => cases h
  | ref r =>
    simp only [optionsOf, cell?] at h ⊢
    cases hCell : store.get? r with
    | some old => rwa [store.get?_alloc_of_some cell old r hCell, ← hCell]
    | none =>
      rw [hCell] at h
      cases h

theorem retains_alloc (cell : Cell) : store.Retains (store.alloc cell).2 where
  options := rfl
  cells r old hOld := ⟨old, store.get?_alloc_of_some cell old r hOld, rfl⟩

theorem attach_carries (h : store.attach slot (some handle) = (.ok tree, next)) :
    next.optionsOf tree = some handle ∧ KeepsHandle handle store next ∧ store.Retains next := by
  cases hCell : store.cell? slot with
  | none =>
    rw [attach_none hCell] at h
    cases h
  | some cell =>
    cases slot with
    | atom a => cases hCell
    | ref r =>
      cases hCapable : cell.isCapable with
      | true =>
        rw [attach_capable hCell hCapable] at h
        cases h
        exact ⟨optionsOf_bound (store.get?_put_self r _ cell hCell),
          keepsHandle_put_bound r cell handle, retains_put_bound hCell hCapable handle⟩
      | false =>
        rw [attach_plain hCell hCapable] at h
        cases h
        exact ⟨optionsOf_bound (store.get?_alloc_self _), keepsHandle_alloc _ handle,
          retains_alloc _⟩

end Store

end Hypertext
