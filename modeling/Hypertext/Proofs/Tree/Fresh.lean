import Hypertext.Proofs.Isolation.Making
import Hypertext.Proofs.Tree.Located

/-! # What is seen of fresh objects

Objects that are made of a value are seen as that value, and the objects that are there keep what they
hold. So fresh options are seen as the options that they were made of.
-/

namespace Hypertext

set_option autoImplicit false

namespace Store

/-- Whatever an object or an options object holds, it still holds it. -/
structure Keeps (store next : Store) : Prop where
  cells : ∀ r cell, store.get? r = some cell → next.get? r = some cell
  options : ∀ handle slots, store.slots? handle = some slots → next.slots? handle = some slots

variable {store next last : Store}

theorem Keeps.refl (store : Store) : store.Keeps store := ⟨fun _ _ h => h, fun _ _ h => h⟩

theorem Keeps.trans (hFirst : store.Keeps next) (hSecond : next.Keeps last) : store.Keeps last :=
  ⟨fun r cell h => hSecond.cells r cell (hFirst.cells r cell h),
    fun handle slots h => hSecond.options handle slots (hFirst.options handle slots h)⟩

theorem keeps_alloc (store : Store) (cell : Cell) : store.Keeps (store.alloc cell).2 :=
  ⟨fun r other h => store.get?_alloc_of_some cell other r h, fun _ _ h => h⟩

theorem keeps_addOptions (store : Store) (slots : Setting → Slot) :
    store.Keeps (store.addOptions slots).2 := by
  refine ⟨fun _ _ h => h, fun handle others h => ?_⟩
  obtain ⟨hIndex, _⟩ := Array.getElem?_eq_some_iff.mp h
  rw [slots?_addOptions_of_lt slots hIndex, h]

end Store

theorem Located.In.keep {store next : Store} {tree : Located} (h : tree.In store)
    (hKeeps : store.Keeps next) : tree.In next := by
  induction h with
  | atom a => exact .atom a
  | object hCell hFits _ ih => exact .object (hKeeps.cells _ _ hCell) hFits ih

namespace Store

def Holds (store : Store) (slot : Slot) (value : Value) : Prop :=
  ∃ tree : Located, tree.In store ∧ tree.slot = slot ∧ tree.value = value

variable {store next : Store} {slot : Slot} {value : Value}

theorem Holds.keep (h : store.Holds slot value) (hKeeps : store.Keeps next) :
    next.Holds slot value := by
  obtain ⟨tree, hTree, hSlot, hValue⟩ := h
  exact ⟨tree, hTree.keep hKeeps, hSlot, hValue⟩

theorem Holds.view_eq (h : store.Holds slot value) : store.view slot = value := by
  obtain ⟨tree, hTree, rfl, rfl⟩ := h
  exact hTree.view_eq

theorem exists_parts {slots : List Slot} {values : List Value}
    (h : List.Forall₂ store.Holds slots values) :
    ∃ parts : List Located, (∀ part ∈ parts, part.In store) ∧ parts.map Located.slot = slots ∧
      parts.map Located.value = values := by
  induction h with
  | nil => exact ⟨[], List.forall_mem_nil _, rfl, rfl⟩
  | cons hHead _ ih =>
    obtain ⟨part, hPart, rfl, rfl⟩ := hHead
    obtain ⟨parts, hParts, rfl, rfl⟩ := ih
    exact ⟨part :: parts, List.forall_mem_cons.mpr ⟨hPart, hParts⟩, rfl, rfl⟩

def HoldsEntry (store : Store) (entry : Value × Slot) (given : Value × Value) : Prop :=
  entry.1 = given.1 ∧ store.Holds entry.2 given.2

theorem exists_entryParts {entries : List (Value × Slot)} {given : List (Value × Value)}
    (h : List.Forall₂ store.HoldsEntry entries given) :
    ∃ parts : List Located, (∀ part ∈ parts, part.In store) ∧
      (given.map (·.1)).length = parts.length ∧
      (given.map (·.1)).zip (parts.map Located.slot) = entries ∧
      (given.map (·.1)).zip (parts.map Located.value) = given := by
  induction h with
  | nil => exact ⟨[], List.forall_mem_nil _, rfl, rfl, rfl⟩
  | @cons entry value _ _ hHead _ ih =>
    obtain ⟨key, slot⟩ := entry
    obtain ⟨rfl, part, hPart, rfl, hValue⟩ := hHead
    obtain ⟨parts, hParts, hLength, hEntries, hGiven⟩ := ih
    have hAll := List.forall_mem_cons.mpr ⟨hPart, hParts⟩
    refine ⟨part :: parts, hAll, congrArg Nat.succ hLength, ?_, ?_⟩
    · exact congrArg (List.cons _) hEntries
    · rw [List.map_cons, List.map_cons, List.zip_cons_cons, hGiven, hValue]

theorem holds_alloc_seq {kind : SeqKind} (hKind : kind.bare = kind) {slots : List Slot}
    {items : List Value} (h : List.Forall₂ store.Holds slots items) :
    (store.alloc (.seq kind slots)).2.Holds (store.alloc (.seq kind slots)).1 (.seq kind items) := by
  obtain ⟨parts, hParts, rfl, rfl⟩ := exists_parts h
  refine ⟨.object ⟨store.cells.size⟩ (.seq kind) parts, .object ?_ trivial ?_, rfl, ?_⟩
  · exact store.get?_alloc_self _
  · exact fun part hPart => (hParts part hPart).keep (store.keeps_alloc _)
  · rw [Located.value_object, Shape.value, hKind]

theorem holds_alloc_map {kind : MapKind} (hKind : kind.bare = kind) {entries : List (Value × Slot)}
    {given : List (Value × Value)} (h : List.Forall₂ store.HoldsEntry entries given) :
    (store.alloc (.map kind entries)).2.Holds (store.alloc (.map kind entries)).1 (.map kind given) := by
  obtain ⟨parts, hParts, hLength, hEntries, hGiven⟩ := exists_entryParts h
  let shape : Shape := .map kind (given.map (·.1))
  have hCell : (store.alloc (.map kind entries)).2.get? ⟨store.cells.size⟩ =
      some (shape.cell (parts.map Located.slot)) := by
    rw [Shape.cell, hEntries]
    exact store.get?_alloc_self _
  refine ⟨.object ⟨store.cells.size⟩ shape parts, .object hCell hLength ?_, rfl, ?_⟩
  · exact fun part hPart => (hParts part hPart).keep (store.keeps_alloc _)
  · rw [Located.value_object, Shape.value, hKind, hGiven]

mutual

/-- What is made of a value is seen as the value, and nothing that is there is changed. -/
theorem holds_new (store : Store) : ∀ value : Value, value.IsBare →
    (store.new value).2.Holds (store.new value).1 value ∧ store.Keeps (store.new value).2
  | .atom a, _ => ⟨⟨.atom a, .atom a, rfl, rfl⟩, .refl store⟩
  | .seq kind items, hBare => by
    obtain ⟨hItems, hKeeps⟩ := holds_newItems store items hBare.2
    exact ⟨holds_alloc_seq hBare.1 hItems, hKeeps.trans (keeps_alloc _ _)⟩
  | .map kind entries, hBare => by
    obtain ⟨hEntries, hKeeps⟩ := holds_newEntries store entries hBare.2
    exact ⟨holds_alloc_map hBare.1 hEntries, hKeeps.trans (keeps_alloc _ _)⟩

theorem holds_newItems (store : Store) : ∀ items : List Value, Value.AreBare items →
    List.Forall₂ (store.newItems items).2.Holds (store.newItems items).1 items ∧
      store.Keeps (store.newItems items).2
  | [], _ => ⟨.nil, .refl store⟩
  | item :: rest, hBare => by
    obtain ⟨hItem, hKeeps⟩ := holds_new store item hBare.1
    obtain ⟨hRest, hMore⟩ := holds_newItems (store.new item).2 rest hBare.2
    exact ⟨.cons (hItem.keep hMore) hRest, hKeeps.trans hMore⟩

theorem holds_newEntries (store : Store) : ∀ entries : List (Value × Value),
    Value.EntriesBare entries →
    List.Forall₂ (store.newEntries entries).2.HoldsEntry (store.newEntries entries).1 entries ∧
      store.Keeps (store.newEntries entries).2
  | [], _ => ⟨.nil, .refl store⟩
  | (key, value) :: rest, hBare => by
    obtain ⟨hValue, hKeeps⟩ := holds_new store value hBare.1
    obtain ⟨hRest, hMore⟩ := holds_newEntries (store.new value).2 rest hBare.2
    exact ⟨.cons ⟨rfl, hValue.keep hMore⟩ hRest, hKeeps.trans hMore⟩

end

/-! ## Options -/

theorem holds_lookup {settings : List Setting} {slots : List Slot} {see : Setting → Value}
    (h : List.Forall₂ store.Holds slots (settings.map see)) {setting : Setting}
    (hSetting : setting ∈ settings) :
    store.Holds (((settings.zip slots).lookup setting).getD .none) (see setting) := by
  induction settings generalizing slots with
  | nil => cases hSetting
  | cons first settings ih =>
    cases h with
    | @cons slot _ slots _ hHead hRest =>
      rw [List.zip_cons_cons, List.lookup_cons]
      cases hSame : setting == first with
      | true =>
        rw [eq_of_beq hSame]
        exact hHead
      | false =>
        refine ih hRest ((List.mem_cons.mp hSetting).resolve_left ?_)
        rintro rfl
        rw [beq_self_eq_true] at hSame
        cases hSame

theorem getOptions_newOptions (store : Store) {options : Options} (hBare : options.IsBare) :
    (store.newOptions options).2.getOptions (store.newOptions options).1 = options ∧
      store.Keeps (store.newOptions options).2 := by
  have hValues : Value.AreBare (Setting.all.map options.get) := by
    refine Value.areBare_of_forall fun value hValue => ?_
    obtain ⟨setting, -, rfl⟩ := List.mem_map.mp hValue
    exact hBare setting
  obtain ⟨hHolds, hKeeps⟩ := store.holds_newItems _ hValues
  refine ⟨Options.ext_get fun setting => ?_, hKeeps.trans (keeps_addOptions _ _)⟩
  have hSetting :=
    (holds_lookup hHolds setting.mem_all).keep (keeps_addOptions _ (store.newSettings options).1)
  rw [newOptions, getOptions, slots?_addOptions_self, Options.get_ofGet]
  exact hSetting.view_eq

theorem truthy_view (store : Store) (slot : Slot) : (store.view slot).truthy = store.truthy slot := by
  cases slot with
  | atom a =>
    rw [view, viewTo_atom]
    rfl
  | ref r =>
    have hSeen (depth : Nat) (hDepth : ∀ cell, store.get? r = some cell → 0 < depth) :
        (store.viewTo depth [] (.ref r)).truthy = store.truthy (.ref r) := by
      cases hCell : store.get? r with
      | none => cases depth <;> simp [viewTo, truthy, cell?, hCell, Value.truthy, Atom.truthy]
      | some cell =>
        obtain ⟨depth, rfl⟩ := Nat.exists_eq_add_of_lt (hDepth cell hCell)
        cases cell <;> simp [viewTo, truthy, cell?, hCell, Value.truthy]
    exact hSeen _ fun cell hCell => Nat.lt_of_le_of_lt (Nat.zero_le _) (index_lt_of_get? hCell)

end Store

end Hypertext
