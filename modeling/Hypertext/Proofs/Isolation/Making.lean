import Hypertext.Parse
import Hypertext.Proofs.Isolation.Viewing

/-! # Making counterparts

Objects that are made in the same way on both sides, or changed in the same way, become or stay
counterparts. What is made is new on its side, and what is changed has a counterpart, so nothing else
is touched.
-/

namespace Hypertext

set_option autoImplicit false

namespace Store

variable {store : Store}

theorem get?_alloc_of_lt (cell : Cell) {r : Ref} (h : r.index < store.cells.size) :
    (store.alloc cell).2.get? r = store.get? r := by
  simp only [get?, alloc, Array.getElem?_push, Nat.ne_of_lt h, if_false]

theorem slots?_addOptions_self (slots : Setting → Slot) :
    (store.addOptions slots).2.slots? (store.addOptions slots).1 = some slots := by
  simp only [slots?, addOptions, Array.getElem?_push, if_true]

theorem slots?_addOptions_of_lt (slots : Setting → Slot) {r : OptionsRef}
    (h : r.index < store.options.size) : (store.addOptions slots).2.slots? r = store.slots? r := by
  simp only [slots?, addOptions, Array.getElem?_push, Nat.ne_of_lt h, if_false]

theorem slots?_assignSetting_ne (setting : Setting) (slot : Slot) {r other : OptionsRef}
    (h : r ≠ other) : (store.assignSetting r setting slot).slots? other = store.slots? other := by
  have hIndex : r.index ≠ other.index := by
    intro hSame
    cases r
    cases other
    exact h (congrArg OptionsRef.mk hSame)
  unfold assignSetting
  split
  · simp only [slots?, Array.getElem?_setIfInBounds_ne hIndex]
  · rfl

theorem slots?_assignSetting_self {slots : Setting → Slot} {r : OptionsRef}
    (h : store.slots? r = some slots) (setting : Setting) (slot : Slot) :
    (store.assignSetting r setting slot).slots? r =
      some fun other => if other = setting then slot else slots other := by
  obtain ⟨hIndex, _⟩ := Array.getElem?_eq_some_iff.mp h
  simp only [assignSetting, h]
  simp [slots?, hIndex]

end Store

namespace Pairing

variable {β γ : Pairing} {s t : Store} {slot twin : Slot}

/-! ## One object at a time -/

def withCells (β : Pairing) (r q : Ref) : Pairing := ⟨(r, q) :: β.cells, β.options⟩

def withOptions (β : Pairing) (o p : OptionsRef) : Pairing := ⟨β.cells, (o, p) :: β.options⟩

theorem le_withCells (β : Pairing) (r q : Ref) : β ≤ β.withCells r q :=
  ⟨fun _ h => List.mem_cons_of_mem _ h, fun _ h => h⟩

theorem le_withOptions (β : Pairing) (o p : OptionsRef) : β ≤ β.withOptions o p :=
  ⟨fun _ h => h, fun _ h => List.mem_cons_of_mem _ h⟩

namespace Stores

theorem alloc (h : β.Stores s t) {cell twin : Cell} (hCells : β.Cells cell twin) :
    ∃ γ, β.Leads t γ (s.alloc cell).2 (t.alloc twin).2 ∧
      γ.Slots (s.alloc cell).1 (t.alloc twin).1 := by
  have hLe := β.le_withCells ⟨s.cells.size⟩ ⟨t.cells.size⟩
  refine ⟨β.withCells ⟨s.cells.size⟩ ⟨t.cells.size⟩, ⟨?_, ?_⟩, .ref List.mem_cons_self⟩
  · constructor
    · intro r q hPair
      rcases List.mem_cons.mp hPair with hNew | hPair
      · obtain ⟨rfl, rfl⟩ := Prod.mk.inj hNew
        exact ⟨cell, twin, s.get?_alloc_self cell, t.get?_alloc_self twin, hCells.mono hLe⟩
      · obtain ⟨old, other, hHere, hThere, hSame⟩ := h.cells hPair
        exact ⟨old, other, s.get?_alloc_of_some cell old r hHere,
          t.get?_alloc_of_some twin other q hThere, hSame.mono hLe⟩
    · intro o p hPair
      obtain ⟨slots, twins, hHere, hThere, hSlots⟩ := h.options hPair
      exact ⟨slots, twins, hHere, hThere, fun setting => (hSlots setting).mono hLe⟩
    · refine h.cellsOnce.cons ?_ ?_
      · rintro ⟨r, q⟩ hPair rfl
        exact absurd (h.cells_lt hPair).1 (Nat.lt_irrefl _)
      · rintro ⟨r, q⟩ hPair rfl
        exact absurd (h.cells_lt hPair).2 (Nat.lt_irrefl _)
    · exact h.optionsOnce
  · constructor
    · exact hLe
    · exact Nat.le_of_lt (by simp [Store.alloc])
    · exact Nat.le_refl _
    · intro pair hPair
      rcases List.mem_cons.mp hPair with rfl | hPair
      · exact Or.inr (Nat.le_refl _)
      · exact Or.inl hPair
    · exact fun _ hPair => Or.inl hPair
    · exact fun q hq _ => Store.get?_alloc_of_lt twin hq
    · exact fun _ _ _ => rfl

theorem addOptions (h : β.Stores s t) {slots twins : Setting → Slot}
    (hSlots : ∀ setting, β.Slots (slots setting) (twins setting)) :
    ∃ γ, β.Leads t γ (s.addOptions slots).2 (t.addOptions twins).2 ∧
      ((s.addOptions slots).1, (t.addOptions twins).1) ∈ γ.options := by
  have hLe := β.le_withOptions ⟨s.options.size⟩ ⟨t.options.size⟩
  refine ⟨β.withOptions ⟨s.options.size⟩ ⟨t.options.size⟩, ⟨?_, ?_⟩, List.mem_cons_self⟩
  · constructor
    · intro r q hPair
      obtain ⟨cell, twin, hHere, hThere, hCells⟩ := h.cells hPair
      exact ⟨cell, twin, hHere, hThere, hCells.mono hLe⟩
    · intro o p hPair
      rcases List.mem_cons.mp hPair with hNew | hPair
      · obtain ⟨rfl, rfl⟩ := Prod.mk.inj hNew
        exact ⟨slots, twins, Store.slots?_addOptions_self slots, Store.slots?_addOptions_self twins,
          fun setting => (hSlots setting).mono hLe⟩
      · obtain ⟨old, other, hHere, hThere, hSame⟩ := h.options hPair
        obtain ⟨ho, hp⟩ := h.options_lt hPair
        exact ⟨old, other, (Store.slots?_addOptions_of_lt slots ho).trans hHere,
          (Store.slots?_addOptions_of_lt twins hp).trans hThere,
          fun setting => (hSame setting).mono hLe⟩
    · exact h.cellsOnce
    · refine h.optionsOnce.cons ?_ ?_
      · rintro ⟨o, p⟩ hPair rfl
        exact absurd (h.options_lt hPair).1 (Nat.lt_irrefl _)
      · rintro ⟨o, p⟩ hPair rfl
        exact absurd (h.options_lt hPair).2 (Nat.lt_irrefl _)
  · constructor
    · exact hLe
    · exact Nat.le_refl _
    · exact Nat.le_of_lt (by simp [Store.addOptions])
    · exact fun _ hPair => Or.inl hPair
    · intro pair hPair
      rcases List.mem_cons.mp hPair with rfl | hPair
      · exact Or.inr (Nat.le_refl _)
      · exact Or.inl hPair
    · exact fun _ _ _ => rfl
    · exact fun p hp _ => Store.slots?_addOptions_of_lt twins hp

theorem put (h : β.Stores s t) {r q : Ref} (hPair : (r, q) ∈ β.cells) {cell twin : Cell}
    (hCells : β.Cells cell twin) : β.Leads t β (s.put r cell) (t.put q twin) := by
  obtain ⟨old, other, hHere, hThere, -⟩ := h.cells hPair
  constructor
  · constructor
    · intro r' q' hPair'
      by_cases hr : r = r'
      · obtain rfl := (h.cellsOnce hPair hPair').mp hr
        subst hr
        exact ⟨cell, twin, s.get?_put_self r cell old hHere, t.get?_put_self q twin other hThere,
          hCells⟩
      · have hq : q ≠ q' := mt (h.cellsOnce hPair hPair').mpr hr
        rw [s.get?_put_ne r r' cell hr, t.get?_put_ne q q' twin hq]
        exact h.cells hPair'
    · exact h.options
    · exact h.cellsOnce
    · exact h.optionsOnce
  · refine { Grows.refl β t with cellsSize := ?_, keptCells := ?_ }
    · simp [Store.put]
    · exact fun q' _ hNone => t.get?_put_ne q q' twin (hNone _ hPair)

theorem assignSetting (h : β.Stores s t) {o p : OptionsRef} (hPair : (o, p) ∈ β.options)
    (setting : Setting) (hSlot : β.Slots slot twin) :
    β.Leads t β (s.assignSetting o setting slot) (t.assignSetting p setting twin) := by
  obtain ⟨slots, twins, hHere, hThere, hSlots⟩ := h.options hPair
  have hCells (store : Store) (r : OptionsRef) (slot : Slot) :
      (store.assignSetting r setting slot).cells = store.cells := by
    unfold Store.assignSetting
    split <;> rfl
  have hGet (store : Store) (r : OptionsRef) (slot : Slot) (q : Ref) :
      (store.assignSetting r setting slot).get? q = store.get? q := by
    simp only [Store.get?, hCells]
  constructor
  · constructor
    · intro r q hPair'
      rw [hGet, hGet]
      exact h.cells hPair'
    · intro o' p' hPair'
      by_cases ho : o = o'
      · obtain rfl := (h.optionsOnce hPair hPair').mp ho
        subst ho
        refine ⟨_, _, Store.slots?_assignSetting_self hHere setting slot,
          Store.slots?_assignSetting_self hThere setting twin, fun other => ?_⟩
        by_cases hOther : other = setting
        · simp only [hOther, if_true]
          exact hSlot
        · simp only [hOther, if_false]
          exact hSlots other
      · have hp : p ≠ p' := mt (h.optionsOnce hPair hPair').mpr ho
        rw [Store.slots?_assignSetting_ne setting slot ho,
          Store.slots?_assignSetting_ne setting twin hp]
        exact h.options hPair'
    · exact h.cellsOnce
    · exact h.optionsOnce
  · refine { Grows.refl β t with cellsSize := ?_, optionsSize := ?_, keptCells := ?_,
                                 keptOptions := ?_ }
    · exact Nat.le_of_eq (congrArg Array.size (hCells t p twin)).symm
    · unfold Store.assignSetting
      split
      · simp
      · exact Nat.le_refl _
    · exact fun q _ _ => hGet t p twin q
    · exact fun p' _ hNone => Store.slots?_assignSetting_ne setting twin (hNone _ hPair)

end Stores

end Pairing

/-! ## Values without handles -/

namespace Value

mutual

def IsBare : Value → Prop
  | atom _ => True
  | seq kind items => kind.bare = kind ∧ AreBare items
  | map kind entries => kind.bare = kind ∧ EntriesBare entries

def AreBare : List Value → Prop
  | [] => True
  | item :: rest => IsBare item ∧ AreBare rest

def EntriesBare : List (Value × Value) → Prop
  | [] => True
  | (_, value) :: rest => IsBare value ∧ EntriesBare rest

end

theorem areBare_of_forall {items : List Value} (h : ∀ item ∈ items, item.IsBare) :
    AreBare items := by
  induction items with
  | nil => trivial
  | cons item items ih =>
    rw [List.forall_mem_cons] at h
    exact ⟨h.1, ih h.2⟩

theorem entriesBare_of_forall {entries : List (Value × Value)}
    (h : ∀ entry ∈ entries, entry.2.IsBare) : EntriesBare entries := by
  induction entries with
  | nil => trivial
  | cons entry entries ih =>
    rw [List.forall_mem_cons] at h
    exact ⟨h.1, ih h.2⟩

end Value

theorem SeqKind.bare_bare (kind : SeqKind) : kind.bare.bare = kind.bare := by
  cases kind <;> rfl

theorem MapKind.bare_bare (kind : MapKind) : kind.bare.bare = kind.bare := by
  cases kind <;> rfl

theorem Store.isBare_again (store : Store) (r : Ref) : (store.again r).IsBare := by
  unfold Store.again
  split <;> trivial

theorem Store.isBare_viewTo (store : Store) (depth : Nat) :
    ∀ (path : List Ref) (slot : Slot), (store.viewTo depth path slot).IsBare := by
  induction depth with
  | zero =>
    rintro path (a | r)
    · trivial
    · rw [Store.viewTo]
      split
      · exact store.isBare_again r
      · trivial
  | succ depth ih =>
    rintro path (a | r)
    · trivial
    · rw [Store.viewTo]
      split
      · exact store.isBare_again r
      · split
        · refine ⟨SeqKind.bare_bare _, Value.areBare_of_forall ?_⟩
          intro value hValue
          obtain ⟨item, -, rfl⟩ := List.mem_map.mp hValue
          exact ih _ item
        · refine ⟨MapKind.bare_bare _, Value.entriesBare_of_forall ?_⟩
          intro value hValue
          obtain ⟨entry, -, rfl⟩ := List.mem_map.mp hValue
          exact ih _ entry.2
        · trivial

theorem Store.isBare_view (store : Store) (slot : Slot) : (store.view slot).IsBare :=
  store.isBare_viewTo _ _ slot

namespace Item

mutual

theorem isBare_toValue : ∀ item : Item, item.toValue.IsBare
  | text s => trivial
  | element tag attributes content => by
    have hContent := areBare_toValues content
    refine ⟨rfl, Value.entriesBare_of_forall ?_⟩
    intro entry hEntry
    simp only [nodeEntries, List.mem_cons, List.mem_append] at hEntry
    rcases hEntry with rfl | hEntry | hEntry
    · trivial
    · split at hEntry
      · cases hEntry
      · obtain rfl := List.mem_singleton.mp hEntry
        refine ⟨rfl, Value.entriesBare_of_forall ?_⟩
        intro entry hEntry
        obtain ⟨given, -, rfl⟩ := List.mem_map.mp hEntry
        trivial
    · split at hEntry
      · cases hEntry
      · obtain rfl := List.mem_singleton.mp hEntry
        exact ⟨rfl, hContent⟩

theorem areBare_toValues : ∀ items : List Item, Value.AreBare (toValues items)
  | [] => trivial
  | item :: rest => ⟨isBare_toValue item, areBare_toValues rest⟩

end

end Item

namespace Options

def IsBare (options : Options) : Prop := ∀ setting, (options.get setting).IsBare

theorem isBare_default : default.IsBare := by
  intro setting
  cases setting with
  | singleTags => exact ⟨rfl, trivial⟩
  | _ => trivial

theorem isBare_assign {options : Options} (h : options.IsBare) {changes : List (String × Value)}
    (hChanges : ∀ change ∈ changes, change.2.IsBare) : (options.assign changes).IsBare := by
  induction changes generalizing options with
  | nil => exact h
  | cons change changes ih =>
    rw [List.forall_mem_cons] at hChanges
    rw [assign, List.foldl_cons]
    refine ih ?_ hChanges.2
    split
    · intro other
      rw [get_set]
      split
      · exact hChanges.1
      · exact h other
    · exact h

theorem isBare_override {options result : Options} (h : options.IsBare)
    {changes : List (String × Value)} (hChanges : ∀ change ∈ changes, change.2.IsBare)
    (hResult : options.override changes = .ok result) : result.IsBare := by
  unfold override at hResult
  split at hResult
  · cases hResult
  · obtain ⟨_, -, hAssigned⟩ := Outcome.bind_eq_ok.mp hResult
    cases hAssigned
    exact isBare_assign h hChanges

end Options

theorem Store.isBare_getOptions (store : Store) (handle : OptionsRef) :
    (store.getOptions handle).IsBare := by
  unfold Store.getOptions
  split
  · intro setting
    rw [Options.get_ofGet]
    exact store.isBare_view _
  · exact Options.isBare_default

/-! ## New objects -/

namespace Pairing

variable {β : Pairing} {s t : Store} {slot twin : Slot}

theorem SeqKinds.of_bare {kind : SeqKind} (h : kind.bare = kind) : β.SeqKinds kind kind := by
  cases kind with
  | list => exact .list
  | tuple => exact .tuple
  | tree handle =>
    obtain rfl := SeqKind.tree.inj h
    exact .tree .none

theorem MapKinds.of_bare {kind : MapKind} (h : kind.bare = kind) : β.MapKinds kind kind := by
  cases kind with
  | dict => exact .dict
  | node => exact .node
  | root handle =>
    obtain rfl := MapKind.root.inj h
    exact .root .none

namespace Stores

mutual

theorem new : ∀ (value : Value), value.IsBare → ∀ {β : Pairing} {s t : Store}, β.Stores s t →
    ∃ γ, β.Leads t γ (s.new value).2 (t.new value).2 ∧ γ.Slots (s.new value).1 (t.new value).1
  | .atom a, _, β, _, _, h => ⟨β, h.leads, .atom a⟩
  | .seq kind items, hBare, β, s, t, h => by
    obtain ⟨γ, hLeads, hItems⟩ := newItems items hBare.2 h
    obtain ⟨δ, hNext, hSlot⟩ := hLeads.stores.alloc (.seq (.of_bare hBare.1) hItems)
    exact ⟨δ, hLeads.trans hNext, hSlot⟩
  | .map kind entries, hBare, β, s, t, h => by
    obtain ⟨γ, hLeads, hEntries⟩ := newEntries entries hBare.2 h
    obtain ⟨δ, hNext, hSlot⟩ := hLeads.stores.alloc (.map (.of_bare hBare.1) hEntries)
    exact ⟨δ, hLeads.trans hNext, hSlot⟩

theorem newItems : ∀ (items : List Value), Value.AreBare items → ∀ {β : Pairing} {s t : Store},
    β.Stores s t → ∃ γ, β.Leads t γ (s.newItems items).2 (t.newItems items).2 ∧
      List.Forall₂ γ.Slots (s.newItems items).1 (t.newItems items).1
  | [], _, β, _, _, h => ⟨β, h.leads, .nil⟩
  | item :: rest, hBare, β, s, t, h => by
    obtain ⟨γ, hLeads, hSlot⟩ := new item hBare.1 h
    obtain ⟨δ, hNext, hSlots⟩ := newItems rest hBare.2 hLeads.stores
    exact ⟨δ, hLeads.trans hNext, .cons (hSlot.mono hNext.le) hSlots⟩

theorem newEntries : ∀ (entries : List (Value × Value)), Value.EntriesBare entries →
    ∀ {β : Pairing} {s t : Store}, β.Stores s t →
    ∃ γ, β.Leads t γ (s.newEntries entries).2 (t.newEntries entries).2 ∧
      List.Forall₂ γ.Entries (s.newEntries entries).1 (t.newEntries entries).1
  | [], _, β, _, _, h => ⟨β, h.leads, .nil⟩
  | (key, value) :: rest, hBare, β, s, t, h => by
    obtain ⟨γ, hLeads, hSlot⟩ := new value hBare.1 h
    obtain ⟨δ, hNext, hEntries⟩ := newEntries rest hBare.2 hLeads.stores
    exact ⟨δ, hLeads.trans hNext, .cons ⟨rfl, hSlot.mono hNext.le⟩ hEntries⟩

end

end Stores

theorem lookup_zip {slots twins : List Slot} (h : List.Forall₂ β.Slots slots twins)
    (settings : List Setting) (setting : Setting) :
    β.Slots (((settings.zip slots).lookup setting).getD .none)
      (((settings.zip twins).lookup setting).getD .none) := by
  induction h generalizing settings with
  | nil =>
    rw [List.zip_nil_right]
    exact .atom .none
  | cons hHead _ ih =>
    cases settings with
    | nil => exact .atom .none
    | cons first settings =>
      rw [List.zip_cons_cons, List.zip_cons_cons, List.lookup_cons, List.lookup_cons]
      split
      · exact hHead
      · exact ih settings

namespace Stores

theorem newOptions (h : β.Stores s t) {options : Options} (hBare : options.IsBare) :
    ∃ γ, β.Leads t γ (s.newOptions options).2 (t.newOptions options).2 ∧
      ((s.newOptions options).1, (t.newOptions options).1) ∈ γ.options := by
  have hValues : Value.AreBare (Setting.all.map options.get) := by
    apply Value.areBare_of_forall
    intro value hValue
    obtain ⟨setting, -, rfl⟩ := List.mem_map.mp hValue
    exact hBare setting
  obtain ⟨γ, hLeads, hSlots⟩ := Stores.newItems _ hValues h
  obtain ⟨δ, hNext, hPair⟩ := hLeads.stores.addOptions (lookup_zip hSlots Setting.all)
  exact ⟨δ, hLeads.trans hNext, hPair⟩

/-! ## Capable trees -/

theorem setOptionsOf (h : β.Stores s t) (hSlot : β.Slots slot twin) {o p : OptionsRef}
    (hPair : (o, p) ∈ β.options) :
    β.Leads t β (s.setOptionsOf slot o) (t.setOptionsOf twin p) := by
  cases h.sights hSlot with
  | atom a => exact h.leads
  | seq hCell hHere hThere hKind hItems =>
    simp only [Store.setOptionsOf, hHere, hThere]
    cases hKind with
    | list | tuple => exact h.leads
    | tree => exact h.put hCell (.seq (.tree (.some hPair)) hItems)
  | map hCell hHere hThere hKind hEntries =>
    simp only [Store.setOptionsOf, hHere, hThere]
    cases hKind with
    | dict | node => exact h.leads
    | root => exact h.put hCell (.map (.root (.some hPair)) hEntries)

end Stores

/-- Faults are the same on both sides, down to their texts. -/
inductive Outcomes (β : Pairing) : Outcome Slot → Outcome Slot → Prop where
  | ok {slot twin : Slot} (h : β.Slots slot twin) : Outcomes β (.ok slot) (.ok twin)
  | error (fault : Fault) : Outcomes β (.error fault) (.error fault)

theorem Outcomes.mono {γ : Pairing} {outcome twin : Outcome Slot} (h : β.Outcomes outcome twin)
    (hLe : β ≤ γ) : γ.Outcomes outcome twin := by
  cases h with
  | ok h => exact .ok (h.mono hLe)
  | error fault => exact .error fault

theorem Stores.attach (h : β.Stores s t) (hSlot : β.Slots slot twin) {o p : OptionsRef}
    (hPair : (o, p) ∈ β.options) :
    ∃ γ, β.Leads t γ (s.attach slot (some o)).2 (t.attach twin (some p)).2 ∧
      γ.Outcomes (s.attach slot (some o)).1 (t.attach twin (some p)).1 := by
  -- What is no capable tree is copied first.
  have hCopy {cell other : Cell} (hCells : β.Cells cell other) :
      ∃ γ, β.Leads t γ ((s.alloc cell).2.setOptionsOf (s.alloc cell).1 o)
          ((t.alloc other).2.setOptionsOf (t.alloc other).1 p) ∧
        γ.Outcomes (.ok (s.alloc cell).1) (.ok (t.alloc other).1) := by
    obtain ⟨γ, hLeads, hNew⟩ := h.alloc hCells
    exact ⟨γ, hLeads.trans (hLeads.stores.setOptionsOf hNew (hLeads.le.2 hPair)), .ok hNew⟩
  cases h.sights hSlot with
  | atom a => exact ⟨β, h.leads, .error _⟩
  | seq _ hHere hThere hKind hItems =>
    simp only [Store.attach, Store.cell?, hHere, hThere]
    cases hKind with
    | list => exact hCopy (.seq (.tree .none) hItems)
    | tuple => exact hCopy (.seq (.tree .none) hItems)
    | tree => exact ⟨β, h.setOptionsOf hSlot hPair, .ok hSlot⟩
  | map _ hHere hThere hKind hEntries =>
    simp only [Store.attach, Store.cell?, hHere, hThere]
    cases hKind with
    | dict => exact hCopy (.map (.root .none) hEntries)
    | node => exact hCopy (.map (.root .none) hEntries)
    | root => exact ⟨β, h.setOptionsOf hSlot hPair, .ok hSlot⟩

end Pairing

end Hypertext
