import Mathlib.Data.List.Perm.Basic
import Hypertext.Proofs.Isolation.Viewing

/-! # Located values

A finite value that stands in a store is described together with the objects that it is made of: a
located value says which object every sequence and every mapping in it is, and what each of them holds.
There is at most one located value at a place, and it is what is seen of that place. It can be taken
apart at any of its parts, and it tells which writes leave it as it is.
-/

namespace Hypertext

set_option autoImplicit false

/-- An object without the parts that it holds. -/
inductive Shape where
  | seq (kind : SeqKind)
  | map (kind : MapKind) (keys : List Value)

namespace Shape

def cell : Shape → List Slot → Cell
  | seq kind, slots => .seq kind slots
  | map kind keys, slots => .map kind (keys.zip slots)

def value : Shape → List Value → Value
  | seq kind, items => .seq kind.bare items
  | map kind keys, values => .map kind.bare (keys.zip values)

/-- A mapping holds one part under each key. -/
def Fits : Shape → Nat → Prop
  | seq _, _ => True
  | map _ keys, count => keys.length = count

def isChangeable : Shape → Bool
  | seq kind => kind.isMutable
  | map _ _ => true

theorem cell_injective {shape other : Shape} {slots others : List Slot}
    (hFits : shape.Fits slots.length) (hOther : other.Fits others.length)
    (h : shape.cell slots = other.cell others) : shape = other ∧ slots = others := by
  cases shape with
  | seq kind =>
    cases other with
    | seq twin =>
      cases h
      exact ⟨rfl, rfl⟩
    | map twin keys => cases h
  | map kind keys =>
    cases other with
    | seq twin => cases h
    | map twin others' =>
      injection h with hKind hZip
      have hKeys := congrArg (List.map Prod.fst) hZip
      rw [List.map_fst_zip (Nat.le_of_eq hFits), List.map_fst_zip (Nat.le_of_eq hOther)] at hKeys
      have hSlots := congrArg (List.map Prod.snd) hZip
      rw [List.map_snd_zip (Nat.le_of_eq hFits.symm), List.map_snd_zip (Nat.le_of_eq hOther.symm)] at hSlots
      rw [hKind, hKeys, hSlots]
      exact ⟨rfl, rfl⟩

theorem value_map (shape : Shape) (slots : List Slot) (see : Slot → Value) :
    (match shape.cell slots with
      | .seq kind items => .seq kind.bare (items.map see)
      | .map kind entries => .map kind.bare (entries.map fun entry => (entry.1, see entry.2))) =
      shape.value (slots.map see) := by
  cases shape with
  | seq kind => rfl
  | map kind keys =>
    rw [value, List.zip_map_right]
    rfl

end Shape

/-- A value with the objects that it is made of. -/
inductive Located where
  | atom (a : Atom)
  | object (r : Ref) (shape : Shape) (parts : List Located)

namespace Located

variable {store : Store} {tree part : Located} {r : Ref} {shape : Shape} {parts : List Located}

def slot : Located → Slot
  | atom a => .atom a
  | object r _ _ => .ref r

mutual

def value : Located → Value
  | atom a => .atom a
  | object _ shape parts => shape.value (values parts)

def values : List Located → List Value
  | [] => []
  | part :: rest => part.value :: values rest

end

mutual

/-- The objects of some shapes that a value is made of, each as often as it occurs. -/
def objectsOf (counts : Shape → Bool) : Located → List Ref
  | atom _ => []
  | object r shape parts => (if counts shape then [r] else []) ++ allObjectsOf counts parts

def allObjectsOf (counts : Shape → Bool) : List Located → List Ref
  | [] => []
  | part :: rest => part.objectsOf counts ++ allObjectsOf counts rest

end

def objects (tree : Located) : List Ref := tree.objectsOf fun _ => true

def changeable (tree : Located) : List Ref := tree.objectsOf Shape.isChangeable

theorem values_eq (parts : List Located) : values parts = parts.map value := by
  induction parts with
  | nil => rfl
  | cons part rest ih => rw [values, ih, List.map_cons]

theorem allObjectsOf_eq (counts : Shape → Bool) (parts : List Located) :
    allObjectsOf counts parts = parts.flatMap (objectsOf counts) := by
  induction parts with
  | nil => rfl
  | cons part rest ih => rw [allObjectsOf, ih, List.flatMap_cons]

theorem value_object (r : Ref) (shape : Shape) (parts : List Located) :
    (object r shape parts).value = shape.value (parts.map value) := by
  rw [value, values_eq]

theorem objectsOf_object (counts : Shape → Bool) (r : Ref) (shape : Shape) (parts : List Located) :
    (object r shape parts).objectsOf counts =
      (if counts shape then [r] else []) ++ parts.flatMap (objectsOf counts) := by
  rw [objectsOf, allObjectsOf_eq]

theorem objectsOf_part {counts : Shape → Bool} {q : Ref} (hPart : part ∈ parts)
    (h : q ∈ part.objectsOf counts) : q ∈ (object r shape parts).objectsOf counts := by
  rw [objectsOf_object]
  exact List.mem_append_right _ (List.mem_flatMap.mpr ⟨part, hPart, h⟩)

theorem mem_objects : r ∈ (object r shape parts).objects := by
  rw [objects, objectsOf_object, if_pos rfl]
  exact List.mem_cons_self

theorem mem_changeable (h : shape.isChangeable = true) : r ∈ (object r shape parts).changeable := by
  rw [changeable, objectsOf_object, if_pos h]
  exact List.mem_cons_self

/-! ## Standing in a store -/

/-- The store holds the value at its place. -/
inductive In (store : Store) : Located → Prop where
  | atom (a : Atom) : In store (.atom a)
  | object {r : Ref} {shape : Shape} {parts : List Located}
    (hCell : store.get? r = some (shape.cell (parts.map slot))) (hFits : shape.Fits parts.length)
    (hParts : ∀ part ∈ parts, In store part) : In store (.object r shape parts)

theorem In.of_mem (h : (Located.object r shape parts).In store) (hPart : part ∈ parts) : part.In store := by
  cases h with
  | object _ _ hParts => exact hParts part hPart

theorem In.get?_eq (h : (Located.object r shape parts).In store) :
    store.get? r = some (shape.cell (parts.map slot)) := by
  cases h with
  | object hCell => exact hCell

theorem eq_of_slots {others : List Located} (hOthers : ∀ other ∈ others, other.In store)
    (hUnique : ∀ part ∈ parts, ∀ other, other.In store → part.slot = other.slot → part = other)
    (h : parts.map slot = others.map slot) : parts = others := by
  induction parts generalizing others with
  | nil => exact (List.map_eq_nil_iff.mp h.symm).symm
  | cons part rest ih =>
    cases others with
    | nil => cases h
    | cons other others =>
      obtain ⟨hOther, hOthers⟩ := List.forall_mem_cons.mp hOthers
      obtain ⟨hPart, hRest⟩ := List.forall_mem_cons.mp hUnique
      injection h with hSlot hSlots
      rw [hPart other hOther hSlot, ih hOthers hRest hSlots]

/-- There is at most one value at a place. -/
theorem In.unique (h : tree.In store) :
    ∀ other, other.In store → tree.slot = other.slot → tree = other := by
  induction h with
  | atom a =>
    intro other hOther hSlot
    cases hOther with
    | atom b =>
      cases hSlot
      rfl
    | object => cases hSlot
  | object hCell hFits _ ih =>
    intro other hOther hSlot
    cases hOther with
    | atom b => cases hSlot
    | object hTwin hTwinFits hTwins =>
      cases hSlot
      obtain ⟨rfl, hSlots⟩ := Shape.cell_injective (by rwa [List.length_map])
        (by rwa [List.length_map]) (Option.some.inj (hCell.symm.trans hTwin))
      rw [eq_of_slots hTwins ih hSlots]

theorem get?_put_apart {slots items : List Slot} {kind : SeqKind} {q : Ref}
    (hHere : store.get? r = some (shape.cell slots)) (hCell : store.get? q = some (.seq kind items))
    (hKind : kind.isMutable = true) (hApart : shape.isChangeable = true → q ≠ r) (cell : Cell) :
    (store.put q cell).get? r = some (shape.cell slots) := by
  have hNe : q ≠ r := by
    rintro rfl
    refine hApart ?_ rfl
    cases shape with
    | seq twin =>
      cases hCell.symm.trans hHere
      exact hKind
    | map twin keys => rfl
  exact (store.get?_put_ne q r cell hNe).trans hHere

theorem In.put (h : tree.In store) {kind : SeqKind} {items : List Slot} {q : Ref}
    (hCell : store.get? q = some (.seq kind items)) (hKind : kind.isMutable = true)
    (hApart : q ∉ tree.changeable) (cell : Cell) : tree.In (store.put q cell) := by
  induction h with
  | atom a => exact .atom a
  | @object r shape parts hHere hFits _ ih =>
    refine .object (get?_put_apart hHere hCell hKind ?_ cell) hFits fun part hPart =>
      ih part hPart fun hMem => hApart (objectsOf_part hPart hMem)
    rintro hShape rfl
    exact hApart (mem_changeable hShape)

/-! ## What is seen of a located value -/

theorem sizeOf_part (hPart : part ∈ parts) : sizeOf part < sizeOf (object r shape parts) := by
  have hLt := List.sizeOf_lt_of_mem hPart
  simp only [object.sizeOf_spec]
  omega

theorem In.exists_at (h : tree.In store) {q : Ref} (hMem : q ∈ tree.objects) :
    ∃ inner : Located, inner.In store ∧ inner.slot = .ref q ∧ sizeOf inner ≤ sizeOf tree := by
  induction h with
  | atom a => cases hMem
  | @object r shape parts hCell hFits hParts ih =>
    rw [objects, objectsOf_object, if_pos rfl, List.singleton_append] at hMem
    rcases List.mem_cons.mp hMem with rfl | hMem
    · exact ⟨_, .object hCell hFits hParts, rfl, Nat.le_refl _⟩
    · obtain ⟨part, hPart, hMem⟩ := List.mem_flatMap.mp hMem
      obtain ⟨inner, hInner, hSlot, hSize⟩ := ih part hPart hMem
      exact ⟨inner, hInner, hSlot, Nat.le_trans hSize (Nat.le_of_lt (sizeOf_part hPart))⟩

/-- No object is part of itself: what stands at one place is of one size. -/
theorem In.not_mem_objects (h : (Located.object r shape parts).In store) (hPart : part ∈ parts) :
    r ∉ part.objects := by
  intro hMem
  obtain ⟨inner, hInner, hSlot, hSize⟩ := (h.of_mem hPart).exists_at hMem
  cases h.unique inner hInner hSlot.symm
  exact absurd hSize (Nat.not_le.mpr (sizeOf_part hPart))

theorem In.index_lt (h : (Located.object r shape parts).In store) : r.index < store.cells.size :=
  Store.index_lt_of_get? h.get?_eq

/-- The objects of a value are nested no deeper than a number. -/
inductive Within : Nat → Located → Prop where
  | atom (depth : Nat) (a : Atom) : Within depth (.atom a)
  | object {depth : Nat} {r : Ref} {shape : Shape} {parts : List Located}
    (hParts : ∀ part ∈ parts, Within depth part) : Within (depth + 1) (.object r shape parts)

/-- The path to a part has no repetitions, so it has no more objects than there are cells. -/
theorem In.within_of_path (h : tree.In store) : ∀ (depth : Nat) (path : List Ref), path.Nodup →
    (∀ q ∈ path, q.index < store.cells.size) → (∀ q ∈ path, q ∉ tree.objects) →
    store.cells.size ≤ depth + path.length → tree.Within depth := by
  induction h with
  | atom a => exact fun depth path _ _ _ _ => .atom depth a
  | @object r shape parts hCell hFits hParts ih =>
    intro depth path hPath hBound hApart hDepth
    have hTree : (Located.object r shape parts).In store := .object hCell hFits hParts
    have hNew : r ∉ path := fun hr => hApart r hr mem_objects
    cases depth with
    | zero =>
      have hLength := Store.length_lt_of_not_mem hPath hBound hTree.index_lt hNew
      omega
    | succ depth =>
      refine .object fun part hPart => ?_
      refine ih part hPart depth (r :: path) (List.nodup_cons.mpr ⟨hNew, hPath⟩)
        (List.forall_mem_cons.mpr ⟨hTree.index_lt, hBound⟩) ?_ (by rw [List.length_cons]; omega)
      exact List.forall_mem_cons.mpr ⟨hTree.not_mem_objects hPart,
        fun q hq hMem => hApart q hq (objectsOf_part hPart hMem)⟩

theorem In.within (h : tree.In store) {depth : Nat} (hDepth : store.cells.size ≤ depth) :
    tree.Within depth :=
  h.within_of_path depth [] List.nodup_nil (List.forall_mem_nil _) (List.forall_mem_nil _) hDepth

/-- On a path that has not come by any object of a value, the value is seen whole. -/
theorem In.viewTo_eq (h : tree.In store) {depth : Nat} (hWithin : tree.Within depth) :
    ∀ path : List Ref, (∀ q ∈ path, q ∉ tree.objects) →
      store.viewTo depth path tree.slot = tree.value := by
  induction hWithin with
  | atom depth a => exact fun path _ => store.viewTo_atom depth path a
  | @object depth r shape parts _ ih =>
    intro path hApart
    have hNew : r ∉ path := fun hr => hApart r hr mem_objects
    have hSeen : (parts.map slot).map (store.viewTo depth (r :: path)) = parts.map value := by
      rw [List.map_map]
      refine List.map_congr_left fun part hPart => ?_
      refine ih part hPart (h.of_mem hPart) (r :: path) ?_
      exact List.forall_mem_cons.mpr ⟨h.not_mem_objects hPart,
        fun q hq hMem => hApart q hq (objectsOf_part hPart hMem)⟩
    rw [value_object, ← hSeen, ← shape.value_map, slot, Store.viewTo, if_neg hNew, h.get?_eq]
    cases shape <;> rfl

theorem In.view_eq (h : tree.In store) : store.view tree.slot = tree.value :=
  h.viewTo_eq (h.within (Nat.le_refl _)) [] (List.forall_mem_nil _)

/-! ## Taking a value apart -/

/-- An object around one of its parts. -/
structure Frame where
  r : Ref
  shape : Shape
  before : List Located
  after : List Located

namespace Frame

def fill (frame : Frame) (part : Located) : Located :=
  .object frame.r frame.shape (frame.before ++ part :: frame.after)

def changeable (frame : Frame) : List Ref :=
  (if frame.shape.isChangeable then [frame.r] else []) ++
    (frame.before.flatMap Located.changeable ++ frame.after.flatMap Located.changeable)

structure In (store : Store) (frame : Frame) (slot : Slot) : Prop where
  cell : store.get? frame.r = some (frame.shape.cell
    (frame.before.map Located.slot ++ slot :: frame.after.map Located.slot))
  fits : frame.shape.Fits (frame.before.length + (frame.after.length + 1))
  before : ∀ part ∈ frame.before, part.In store
  after : ∀ part ∈ frame.after, part.In store

theorem changeable_fill (frame : Frame) (part : Located) :
    (frame.fill part).changeable.Perm (part.changeable ++ frame.changeable) := by
  rw [fill, Located.changeable, objectsOf_object, List.flatMap_append, List.flatMap_cons, changeable]
  exact ((List.perm_append_comm_assoc _ _ _).append_left _).trans
    (List.perm_append_comm_assoc _ _ _)

theorem in_fill_iff {frame : Frame} :
    (frame.fill part).In store ↔ part.In store ∧ frame.In store part.slot := by
  constructor
  · intro h
    have hParts : ∀ other ∈ frame.before ++ part :: frame.after, other.In store :=
      fun other hOther => h.of_mem hOther
    obtain ⟨hBefore, hRest⟩ := List.forall_mem_append.mp hParts
    obtain ⟨hPart, hAfter⟩ := List.forall_mem_cons.mp hRest
    cases h with
    | object hCell hFits =>
      rw [List.map_append, List.map_cons] at hCell
      rw [List.length_append, List.length_cons] at hFits
      exact ⟨hPart, hCell, hFits, hBefore, hAfter⟩
  · rintro ⟨hPart, hCell, hFits, hBefore, hAfter⟩
    refine .object ?_ ?_ ?_
    · rw [List.map_append, List.map_cons]
      exact hCell
    · rw [List.length_append, List.length_cons]
      exact hFits
    · exact List.forall_mem_append.mpr ⟨hBefore, List.forall_mem_cons.mpr ⟨hPart, hAfter⟩⟩

theorem In.put {frame : Frame} {slot : Slot} (h : frame.In store slot) {kind : SeqKind}
    {items : List Slot} {q : Ref} (hCell : store.get? q = some (.seq kind items))
    (hKind : kind.isMutable = true) (hApart : q ∉ frame.changeable) (cell : Cell) :
    frame.In (store.put q cell) slot := by
  rw [changeable, List.mem_append, List.mem_append, List.mem_flatMap, List.mem_flatMap] at hApart
  refine ⟨get?_put_apart h.cell hCell hKind ?_ cell, h.fits, fun part hPart => ?_, fun part hPart => ?_⟩
  · rintro hShape rfl
    exact hApart (.inl (by rw [if_pos hShape]; exact List.mem_cons_self))
  · exact (h.before part hPart).put hCell hKind (fun hMem => hApart (.inr (.inl ⟨part, hPart, hMem⟩)))
      cell
  · exact (h.after part hPart).put hCell hKind (fun hMem => hApart (.inr (.inr ⟨part, hPart, hMem⟩)))
      cell

end Frame

/-- A value around one of its parts, up through the objects that the part is in. -/
def plug (context : List Frame) (part : Located) : Located :=
  context.foldl (fun tree frame => frame.fill tree) part

def Surrounds (store : Store) : List Frame → Slot → Prop
  | [], _ => True
  | frame :: context, slot => frame.In store slot ∧ Surrounds store context (.ref frame.r)

variable {context : List Frame} {root : Slot}

theorem plug_cons (frame : Frame) (context : List Frame) (part : Located) :
    plug (frame :: context) part = plug context (frame.fill part) := rfl

theorem slot_plug {other : Located} (h : part.slot = other.slot) :
    (plug context part).slot = (plug context other).slot := by
  induction context generalizing part other with
  | nil => exact h
  | cons frame context ih => exact ih rfl

theorem slot_plug_cons (frame : Frame) (context : List Frame) (part other : Located) :
    (plug (frame :: context) part).slot = (plug (frame :: context) other).slot := by
  rw [plug_cons, plug_cons]
  exact slot_plug rfl

theorem in_plug_iff :
    (plug context part).In store ↔ part.In store ∧ Surrounds store context part.slot := by
  induction context generalizing part with
  | nil => exact (and_iff_left trivial).symm
  | cons frame context ih =>
    exact ih.trans ((and_congr_left' Frame.in_fill_iff).trans and_assoc)

theorem changeable_plug (context : List Frame) (part : Located) :
    (plug context part).changeable.Perm
      (part.changeable ++ context.flatMap Frame.changeable) := by
  induction context generalizing part with
  | nil =>
    rw [List.flatMap_nil, List.append_nil]
    exact .refl _
  | cons frame context ih =>
    refine (ih (frame.fill part)).trans ?_
    rw [List.flatMap_cons, ← List.append_assoc]
    exact (frame.changeable_fill part).append_right _

theorem Surrounds.put {slot : Slot} (h : Surrounds store context slot) {kind : SeqKind}
    {items : List Slot} {q : Ref} (hCell : store.get? q = some (.seq kind items))
    (hKind : kind.isMutable = true) (hApart : q ∉ context.flatMap Frame.changeable) (cell : Cell) :
    Surrounds (store.put q cell) context slot := by
  induction context generalizing slot with
  | nil => trivial
  | cons frame context ih =>
    rw [List.flatMap_cons, List.mem_append, not_or] at hApart
    obtain ⟨hFrame, hContext⟩ := hApart
    exact ⟨h.1.put hCell hKind hFrame cell, ih h.2 hContext⟩

/-- A finite value stands at a root, and nothing in it that can change occurs in it twice. -/
structure Stands (root : Slot) (store : Store) (tree : Located) : Prop where
  slot : tree.slot = root
  holds : tree.In store
  nodup : tree.changeable.Nodup

/-- A value stays one when an item of a list in it is replaced, if nothing but that item has a list or
mapping in common with what comes in its place. -/
theorem Stands.replace {item given : Located} {frame : Frame} {kind : SeqKind}
    (hTree : (plug (frame :: context) item).Stands root store) (hShape : frame.shape = .seq kind)
    (hKind : kind.isMutable = true) (hGiven : given.In store) (hNodup : given.changeable.Nodup)
    (hFresh : ∀ q ∈ given.changeable,
      q ∈ (plug (frame :: context) item).changeable → q ∈ item.changeable) :
    (plug (frame :: context) given).Stands root
      (store.put frame.r (.seq kind (frame.before.map Located.slot ++
        given.slot :: frame.after.map Located.slot))) := by
  obtain ⟨-, hFrame, hContext⟩ := in_plug_iff.mp hTree.holds
  have hPerm := changeable_plug (frame :: context) item
  obtain ⟨-, hAround, hDisjoint⟩ := List.nodup_append'.mp (hPerm.nodup_iff.mp hTree.nodup)
  have hApart : given.changeable.Disjoint ((frame :: context).flatMap Frame.changeable) :=
    fun q hq hOther =>
      hDisjoint (hFresh q hq (hPerm.mem_iff.mpr (List.mem_append_right _ hOther))) hOther
  have hOwn : (frame :: context).flatMap Frame.changeable =
      frame.r :: (frame.before.flatMap changeable ++ frame.after.flatMap changeable ++
        context.flatMap Frame.changeable) := by
    rw [List.flatMap_cons, Frame.changeable, hShape, Shape.isChangeable, if_pos hKind]
    rfl
  have hOnce := (List.nodup_cons.mp (hOwn ▸ hAround)).1
  simp only [List.mem_append, List.mem_flatMap, not_or, not_exists, not_and] at hOnce
  obtain ⟨⟨hBefore, hAfter⟩, hUp⟩ := hOnce
  have hCell : store.get? frame.r = some (.seq kind (frame.before.map Located.slot ++
      item.slot :: frame.after.map Located.slot)) := by
    rw [hFrame.cell, hShape]
    rfl
  have hStill : frame.In (store.put frame.r (.seq kind (frame.before.map Located.slot ++
      given.slot :: frame.after.map Located.slot))) given.slot := by
    refine ⟨?_, hFrame.fits, fun part hPart => ?_, fun part hPart => ?_⟩
    · rw [store.get?_put_self frame.r _ _ hCell, hShape]
      rfl
    · exact (hFrame.before part hPart).put hCell hKind (hBefore part hPart) _
    · exact (hFrame.after part hPart).put hCell hKind (hAfter part hPart) _
  refine ⟨(slot_plug_cons frame context given item).trans hTree.slot,
    in_plug_iff.mpr ⟨?_, hStill, ?_⟩, ?_⟩
  · exact hGiven.put hCell hKind (fun hMem => hApart hMem (hOwn ▸ List.mem_cons_self)) _
  · refine hContext.put hCell hKind ?_ _
    simpa only [List.mem_flatMap, not_exists, not_and] using hUp
  · exact (changeable_plug _ given).nodup_iff.mpr
      (List.nodup_append'.mpr ⟨hNodup, hAround, hApart⟩)

end Located

end Hypertext
