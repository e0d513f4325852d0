import Mathlib.Data.List.Forall2
import Hypertext.Chain.World

/-! # Counterparts

Two stores may hold the same objects in different places. A pairing says which objects are
counterparts: they hold the same leaves, and counterparts where they hold objects. The objects of
the second store that have no counterpart belong to somebody else, and what goes on with the
counterparts leaves them as they are.
-/

namespace Hypertext

set_option autoImplicit false

def Once {α δ : Type} (pairs : List (α × δ)) : Prop :=
  ∀ ⦃a a' : α⦄ ⦃b b' : δ⦄, (a, b) ∈ pairs → (a', b') ∈ pairs → (a = a' ↔ b = b')

theorem Once.cons {α δ : Type} {pairs : List (α × δ)} (h : Once pairs) {a : α} {b : δ}
    (hFst : ∀ pair ∈ pairs, a ≠ pair.1) (hSnd : ∀ pair ∈ pairs, b ≠ pair.2) :
    Once ((a, b) :: pairs) := by
  intro c c' d d' hPair hPair'
  rcases List.mem_cons.mp hPair with hNew | hOld
  · obtain ⟨rfl, rfl⟩ := Prod.mk.inj hNew
    rcases List.mem_cons.mp hPair' with hNew' | hOld'
    · obtain ⟨rfl, rfl⟩ := Prod.mk.inj hNew'
      exact iff_of_true rfl rfl
    · exact iff_of_false (hFst _ hOld') (hSnd _ hOld')
  · rcases List.mem_cons.mp hPair' with hNew' | hOld'
    · obtain ⟨rfl, rfl⟩ := Prod.mk.inj hNew'
      exact iff_of_false (hFst _ hOld).symm (hSnd _ hOld).symm
    · exact h hOld hOld'

structure Pairing where
  cells : List (Ref × Ref)
  options : List (OptionsRef × OptionsRef)

namespace Pairing

def empty : Pairing := ⟨[], []⟩

instance : LE Pairing := ⟨fun β γ => β.cells ⊆ γ.cells ∧ β.options ⊆ γ.options⟩

theorem le_refl (β : Pairing) : β ≤ β := ⟨fun _ h => h, fun _ h => h⟩

theorem le_trans {β γ δ : Pairing} (h : β ≤ γ) (h' : γ ≤ δ) : β ≤ δ :=
  ⟨List.Subset.trans h.1 h'.1, List.Subset.trans h.2 h'.2⟩

variable {β γ : Pairing}

/-! ## What counterparts hold -/

inductive Slots (β : Pairing) : Slot → Slot → Prop where
  | atom (a : Atom) : Slots β (.atom a) (.atom a)
  | ref {r q : Ref} (h : (r, q) ∈ β.cells) : Slots β (.ref r) (.ref q)

inductive Handles (β : Pairing) : Option OptionsRef → Option OptionsRef → Prop where
  | none : Handles β none none
  | some {o p : OptionsRef} (h : (o, p) ∈ β.options) : Handles β (some o) (some p)

inductive SeqKinds (β : Pairing) : SeqKind → SeqKind → Prop where
  | list : SeqKinds β .list .list
  | tuple : SeqKinds β .tuple .tuple
  | tree {handle twin : Option OptionsRef} (h : β.Handles handle twin) :
    SeqKinds β (.tree handle) (.tree twin)

inductive MapKinds (β : Pairing) : MapKind → MapKind → Prop where
  | dict : MapKinds β .dict .dict
  | node : MapKinds β .node .node
  | root {handle twin : Option OptionsRef} (h : β.Handles handle twin) :
    MapKinds β (.root handle) (.root twin)

structure Entries (β : Pairing) (entry twin : Value × Slot) : Prop where
  key : entry.1 = twin.1
  value : β.Slots entry.2 twin.2

inductive Cells (β : Pairing) : Cell → Cell → Prop where
  | seq {kind twin : SeqKind} {items twins : List Slot} (hKind : β.SeqKinds kind twin)
    (hItems : List.Forall₂ β.Slots items twins) : Cells β (.seq kind items) (.seq twin twins)
  | map {kind twin : MapKind} {entries twins : List (Value × Slot)} (hKind : β.MapKinds kind twin)
    (hEntries : List.Forall₂ β.Entries entries twins) :
    Cells β (.map kind entries) (.map twin twins)

/-- Paired objects are there, are paired once, and hold the same. -/
structure Stores (β : Pairing) (s t : Store) : Prop where
  cells : ∀ {r q : Ref}, (r, q) ∈ β.cells →
    ∃ cell twin, s.get? r = some cell ∧ t.get? q = some twin ∧ β.Cells cell twin
  options : ∀ {o p : OptionsRef}, (o, p) ∈ β.options →
    ∃ slots twins, s.slots? o = some slots ∧ t.slots? p = some twins ∧
      ∀ setting, β.Slots (slots setting) (twins setting)
  cellsOnce : Once β.cells
  optionsOnce : Once β.options

theorem Slots.mono {slot twin : Slot} (h : β.Slots slot twin) (hLe : β ≤ γ) : γ.Slots slot twin := by
  cases h with
  | atom a => exact .atom a
  | ref h => exact .ref (hLe.1 h)

theorem Handles.mono {handle twin : Option OptionsRef} (h : β.Handles handle twin) (hLe : β ≤ γ) :
    γ.Handles handle twin := by
  cases h with
  | none => exact .none
  | some h => exact .some (hLe.2 h)

theorem SeqKinds.mono {kind twin : SeqKind} (h : β.SeqKinds kind twin) (hLe : β ≤ γ) :
    γ.SeqKinds kind twin := by
  cases h with
  | list => exact .list
  | tuple => exact .tuple
  | tree h => exact .tree (h.mono hLe)

theorem MapKinds.mono {kind twin : MapKind} (h : β.MapKinds kind twin) (hLe : β ≤ γ) :
    γ.MapKinds kind twin := by
  cases h with
  | dict => exact .dict
  | node => exact .node
  | root h => exact .root (h.mono hLe)

theorem Cells.mono {cell twin : Cell} (h : β.Cells cell twin) (hLe : β ≤ γ) :
    γ.Cells cell twin := by
  cases h with
  | seq hKind hItems => exact .seq (hKind.mono hLe) (hItems.imp fun _ _ h => h.mono hLe)
  | map hKind hEntries =>
    exact .map (hKind.mono hLe) (hEntries.imp fun _ _ h => ⟨h.key, h.value.mono hLe⟩)

/-! ## What is left alone -/

/-- The second store grows, with new pairs for new objects only, and its objects without a
counterpart stay as they are. -/
structure Grows (β : Pairing) (t : Store) (γ : Pairing) (t' : Store) : Prop where
  le : β ≤ γ
  cellsSize : t.cells.size ≤ t'.cells.size
  optionsSize : t.options.size ≤ t'.options.size
  freshCells : ∀ pair ∈ γ.cells, pair ∈ β.cells ∨ t.cells.size ≤ pair.2.index
  freshOptions : ∀ pair ∈ γ.options, pair ∈ β.options ∨ t.options.size ≤ pair.2.index
  keptCells : ∀ q : Ref, q.index < t.cells.size → (∀ pair ∈ β.cells, pair.2 ≠ q) →
    t'.get? q = t.get? q
  keptOptions : ∀ p : OptionsRef, p.index < t.options.size → (∀ pair ∈ β.options, pair.2 ≠ p) →
    t'.slots? p = t.slots? p

namespace Grows

variable {δ : Pairing} {t t' t'' : Store}

theorem refl (β : Pairing) (t : Store) : β.Grows t β t where
  le := β.le_refl
  cellsSize := Nat.le_refl _
  optionsSize := Nat.le_refl _
  freshCells := fun _ h => Or.inl h
  freshOptions := fun _ h => Or.inl h
  keptCells := fun _ _ _ => rfl
  keptOptions := fun _ _ _ => rfl

theorem trans (h : β.Grows t γ t') (h' : γ.Grows t' δ t'') : β.Grows t δ t'' where
  le := le_trans h.le h'.le
  cellsSize := Nat.le_trans h.cellsSize h'.cellsSize
  optionsSize := Nat.le_trans h.optionsSize h'.optionsSize
  freshCells := by
    intro pair hPair
    rcases h'.freshCells pair hPair with hOld | hNew
    · exact h.freshCells pair hOld
    · exact Or.inr (Nat.le_trans h.cellsSize hNew)
  freshOptions := by
    intro pair hPair
    rcases h'.freshOptions pair hPair with hOld | hNew
    · exact h.freshOptions pair hOld
    · exact Or.inr (Nat.le_trans h.optionsSize hNew)
  keptCells := by
    intro q hq hNone
    rw [h'.keptCells q (Nat.lt_of_lt_of_le hq h.cellsSize), h.keptCells q hq hNone]
    rintro pair hPair rfl
    rcases h.freshCells pair hPair with hOld | hNew
    · exact hNone pair hOld rfl
    · exact absurd hq (Nat.not_lt_of_le hNew)
  keptOptions := by
    intro p hp hNone
    rw [h'.keptOptions p (Nat.lt_of_lt_of_le hp h.optionsSize), h.keptOptions p hp hNone]
    rintro pair hPair rfl
    rcases h.freshOptions pair hPair with hOld | hNew
    · exact hNone pair hOld rfl
    · exact absurd hp (Nat.not_lt_of_le hNew)

end Grows

structure Apart (β γ : Pairing) : Prop where
  cells : ∀ pair ∈ β.cells, ∀ other ∈ γ.cells, pair.2 ≠ other.2
  options : ∀ pair ∈ β.options, ∀ other ∈ γ.options, pair.2 ≠ other.2

theorem Apart.symm (h : β.Apart γ) : γ.Apart β :=
  ⟨fun pair hPair other hOther => (h.cells other hOther pair hPair).symm,
    fun pair hPair other hOther => (h.options other hOther pair hPair).symm⟩

/-! ## What goes on with counterparts -/

/-- Two stores come to be counterparts by a larger pairing, and what has no counterpart in the second
is left alone. -/
structure Leads (β : Pairing) (t : Store) (γ : Pairing) (s' t' : Store) : Prop where
  stores : γ.Stores s' t'
  grows : β.Grows t γ t'

variable {δ : Pairing} {s s' s'' t t' t'' : Store}

theorem Stores.leads (h : β.Stores s t) : β.Leads t β s t := ⟨h, .refl β t⟩

theorem Leads.le (h : β.Leads t γ s' t') : β ≤ γ := h.grows.le

theorem Leads.trans (h : β.Leads t γ s' t') (h' : γ.Leads t' δ s'' t'') : β.Leads t δ s'' t'' :=
  ⟨h'.stores, h.grows.trans h'.grows⟩

end Pairing

theorem Store.index_lt_of_get? {store : Store} {r : Ref} {cell : Cell}
    (h : store.get? r = some cell) : r.index < store.cells.size :=
  (Array.getElem?_eq_some_iff.mp h).1

theorem Store.index_lt_of_slots? {store : Store} {r : OptionsRef} {slots : Setting → Slot}
    (h : store.slots? r = some slots) : r.index < store.options.size :=
  (Array.getElem?_eq_some_iff.mp h).1

namespace Pairing.Stores

variable {β γ δ : Pairing} {s t t' : Store}

theorem cells_lt (h : β.Stores s t) {pair : Ref × Ref} (hPair : pair ∈ β.cells) :
    pair.1.index < s.cells.size ∧ pair.2.index < t.cells.size := by
  obtain ⟨cell, twin, hCell, hTwin, -⟩ := h.cells hPair
  exact ⟨Store.index_lt_of_get? hCell, Store.index_lt_of_get? hTwin⟩

theorem options_lt (h : β.Stores s t) {pair : OptionsRef × OptionsRef} (hPair : pair ∈ β.options) :
    pair.1.index < s.options.size ∧ pair.2.index < t.options.size := by
  obtain ⟨slots, twins, hSlots, hTwins, -⟩ := h.options hPair
  exact ⟨Store.index_lt_of_slots? hSlots, Store.index_lt_of_slots? hTwins⟩

theorem untouched (h : δ.Stores s t) (hApart : δ.Apart β) (hGrows : β.Grows t γ t') :
    δ.Stores s t' where
  cells := by
    intro r q hPair
    obtain ⟨cell, twin, hCell, hTwin, hCells⟩ := h.cells hPair
    refine ⟨cell, twin, hCell, ?_, hCells⟩
    rw [hGrows.keptCells q (Store.index_lt_of_get? hTwin)
      fun other hOther => (hApart.cells _ hPair other hOther).symm, hTwin]
  options := by
    intro o p hPair
    obtain ⟨slots, twins, hSlots, hTwins, hSame⟩ := h.options hPair
    refine ⟨slots, twins, hSlots, ?_, hSame⟩
    rw [hGrows.keptOptions p (Store.index_lt_of_slots? hTwins)
      fun other hOther => (hApart.options _ hPair other hOther).symm, hTwins]
  cellsOnce := h.cellsOnce
  optionsOnce := h.optionsOnce

theorem apart_grows (h : δ.Stores s t) (hApart : δ.Apart β) (hGrows : β.Grows t γ t') :
    δ.Apart γ where
  cells := by
    intro pair hPair other hOther
    rcases hGrows.freshCells other hOther with hOld | hNew
    · exact hApart.cells pair hPair other hOld
    · intro hSame
      rw [← hSame] at hNew
      exact absurd (h.cells_lt hPair).2 (Nat.not_lt_of_le hNew)
  options := by
    intro pair hPair other hOther
    rcases hGrows.freshOptions other hOther with hOld | hNew
    · exact hApart.options pair hPair other hOld
    · intro hSame
      rw [← hSame] at hNew
      exact absurd (h.options_lt hPair).2 (Nat.not_lt_of_le hNew)

end Pairing.Stores

end Hypertext
