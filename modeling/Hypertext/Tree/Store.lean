import Hypertext.Options

/-! # The store

Sequences and mappings have identity: plugins keep hold of parts of a tree, put them elsewhere
and change them in place, and every holder sees the change. A store keeps one cell for each of
them, and for each options object what it holds under its settings. Leaves have no identity and
stand in the cells.
-/

namespace Hypertext

set_option autoImplicit false

structure Ref where
  index : Nat
  deriving DecidableEq, Repr

inductive Slot where
  | atom (a : Atom)
  | ref (r : Ref)
  deriving DecidableEq, Repr

namespace Slot

def none : Slot := .atom .none

def isNone : Slot → Bool
  | .atom .none => true
  | _ => false

end Slot

inductive Cell where
  | seq (kind : SeqKind) (items : List Slot)
  | map (kind : MapKind) (entries : List (Value × Slot))
  deriving Repr

structure Store where
  cells : Array Cell
  options : Array (Setting → Slot)

namespace Store

def empty : Store := ⟨#[], #[]⟩

def get? (store : Store) (r : Ref) : Option Cell := store.cells[r.index]?

def put (store : Store) (r : Ref) (cell : Cell) : Store :=
  { store with cells := store.cells.setIfInBounds r.index cell }

def alloc (store : Store) (cell : Cell) : Slot × Store :=
  (.ref ⟨store.cells.size⟩, { store with cells := store.cells.push cell })

theorem get?_alloc_self (store : Store) (cell : Cell) :
    (store.alloc cell).2.get? ⟨store.cells.size⟩ = some cell := by
  simp [alloc, get?]

theorem get?_alloc_of_some (store : Store) (cell other : Cell) (r : Ref)
    (h : store.get? r = some other) : (store.alloc cell).2.get? r = some other := by
  unfold get? alloc at *
  obtain ⟨hIndex, hCell⟩ := Array.getElem?_eq_some_iff.mp h
  simp [Array.getElem?_push, Nat.ne_of_lt hIndex, h]

theorem get?_put_ne (store : Store) (r other : Ref) (cell : Cell) (h : r ≠ other) :
    (store.put r cell).get? other = store.get? other := by
  have hIndex : r.index ≠ other.index := by
    intro hSame
    cases r
    cases other
    exact h (congrArg Ref.mk hSame)
  simp [get?, put, Array.getElem?_setIfInBounds_ne hIndex]

theorem get?_put_self (store : Store) (r : Ref) (cell old : Cell) (h : store.get? r = some old) :
    (store.put r cell).get? r = some cell := by
  obtain ⟨hIndex, _⟩ := Array.getElem?_eq_some_iff.mp h
  simp [get?, put, hIndex]

/-! ## Values in and out of the store -/

mutual

def new (store : Store) : Value → Slot × Store
  | .atom a => (.atom a, store)
  | .seq kind items =>
    let (slots, store) := newItems store items
    store.alloc (.seq kind slots)
  | .map kind entries =>
    let (slots, store) := newEntries store entries
    store.alloc (.map kind slots)

def newItems (store : Store) : List Value → List Slot × Store
  | [] => ([], store)
  | item :: rest =>
    let (slot, store) := store.new item
    let (slots, store) := store.newItems rest
    (slot :: slots, store)

def newEntries (store : Store) : List (Value × Value) → List (Value × Slot) × Store
  | [] => ([], store)
  | (key, value) :: rest =>
    let (slot, store) := store.new value
    let (slots, store) := store.newEntries rest
    ((key, slot) :: slots, store)

end

/-- An object seen again inside itself. -/
def again (store : Store) (r : Ref) : Value :=
  match store.get? r with
  | some (.seq kind _) => .atom (.again (.inl kind.bare))
  | some (.map kind _) => .atom (.again (.inr kind.bare))
  | none => .none

/-- The value at a slot that was reached through the objects of a path. An object that holds itself
is not gone into again. Handles are places in the store and no part of the value. -/
def viewTo (store : Store) : Nat → List Ref → Slot → Value
  | _, _, .atom a => .atom a
  | 0, path, .ref r => if r ∈ path then store.again r else .none
  | depth + 1, path, .ref r =>
    if r ∈ path then store.again r
    else
      match store.get? r with
      | some (.seq kind items) => .seq kind.bare (items.map (store.viewTo depth (r :: path)))
      | some (.map kind entries) =>
        .map kind.bare (entries.map fun entry => (entry.1, store.viewTo depth (r :: path) entry.2))
      | none => .none

/-- The value at a slot. No path without repetitions is longer than the number of cells. -/
def view (store : Store) (slot : Slot) : Value := store.viewTo store.cells.size [] slot

/-! ## Options objects -/

def newSettings (store : Store) (options : Options) : (Setting → Slot) × Store :=
  let (slots, store) := store.newItems (Setting.all.map options.get)
  (fun setting => ((Setting.all.zip slots).lookup setting).getD .none, store)

def addOptions (store : Store) (slots : Setting → Slot) : OptionsRef × Store :=
  (⟨store.options.size⟩, { store with options := store.options.push slots })

/-- Makes an options object, which shares no object with anything else. -/
def newOptions (store : Store) (options : Options) : OptionsRef × Store :=
  let (slots, store) := store.newSettings options
  store.addOptions slots

def slots? (store : Store) (r : OptionsRef) : Option (Setting → Slot) := store.options[r.index]?

def getOptions (store : Store) (r : OptionsRef) : Options :=
  match store.slots? r with
  | some slots => .ofGet fun setting => store.view (slots setting)
  | none => .default

def setOptions (store : Store) (r : OptionsRef) (options : Options) : Store :=
  let (slots, store) := store.newSettings options
  { store with options := store.options.setIfInBounds r.index slots }

def settingAt (store : Store) (r : OptionsRef) (setting : Setting) : Slot :=
  match store.slots? r with
  | some slots => slots setting
  | none => .none

def assignSetting (store : Store) (r : OptionsRef) (setting : Setting) (slot : Slot) : Store :=
  match store.slots? r with
  | some slots =>
    { store with
      options := store.options.setIfInBounds r.index fun other =>
        if other = setting then slot else slots other }
  | none => store

/-- Assigns settings by name. Assignment to a name that is no setting has no effect. -/
def assignSettings (store : Store) (r : OptionsRef) (changes : List (String × Value)) : Store :=
  changes.foldl (fun store change =>
    match Setting.ofName? change.1 with
    | some setting =>
      let (slot, store) := store.new change.2
      store.assignSetting r setting slot
    | none => store) store

/-! ## What a slot holds, at its top level -/

def cell? (store : Store) : Slot → Option Cell
  | .atom _ => none
  | .ref r => store.get? r

def typeName (store : Store) (slot : Slot) : String :=
  match slot, store.cell? slot with
  | .atom a, _ => a.typeName
  | .ref _, some (.seq kind _) => kind.typeName
  | .ref _, some (.map kind _) => kind.typeName
  | .ref _, none => Atom.none.typeName

def truthy (store : Store) (slot : Slot) : Bool :=
  match slot, store.cell? slot with
  | .atom a, _ => a.truthy
  | .ref _, some (.seq _ items) => !items.isEmpty
  | .ref _, some (.map _ entries) => !entries.isEmpty
  | .ref _, none => false

def isTreeShaped (store : Store) (slot : Slot) : Bool := (store.cell? slot).isSome

def isCapable (store : Store) (slot : Slot) : Bool :=
  match store.cell? slot with
  | some (.seq kind _) => kind.isCapable
  | some (.map kind _) => kind.isCapable
  | none => false

def optionsOf (store : Store) (slot : Slot) : Option OptionsRef :=
  match store.cell? slot with
  | some (.seq (.tree options) _) => options
  | some (.map (.root options) _) => options
  | _ => none

def setOptionsOf (store : Store) (slot : Slot) (options : OptionsRef) : Store :=
  match slot with
  | .atom _ => store
  | .ref r =>
    match store.get? r with
    | some (.seq (.tree _) items) => store.put r (.seq (.tree (some options)) items)
    | some (.map (.root _) entries) => store.put r (.map (.root (some options)) entries)
    | _ => store

/-- Makes a capable tree of what a slot holds. A capable tree stays the same object; anything
else is copied at its top level. Given options replace those of the tree; without any, the tree
keeps its own or gets fresh ones. -/
def attach (store : Store) (slot : Slot) (options : Option OptionsRef) :
    Outcome Slot × Store :=
  match store.cell? slot with
  | none => (.error (.notTree (store.typeName slot)), store)
  | some cell =>
    let (capable, store) : Slot × Store :=
      match cell with
      | .seq (.tree _) _ | .map (.root _) _ => (slot, store)
      | .seq _ items => store.alloc (.seq (.tree none) items)
      | .map _ entries => store.alloc (.map (.root none) entries)
    match options, store.optionsOf capable with
    | some options, _ => (.ok capable, store.setOptionsOf capable options)
    | none, some _ => (.ok capable, store)
    | none, none =>
      let (options, store) := store.newOptions .default
      (.ok capable, store.setOptionsOf capable options)

def members (store : Store) (slot : Slot) : Outcome (List Slot) × Store :=
  match slot, store.cell? slot with
  | _, some (.seq _ items) => (.ok items, store)
  | _, some (.map _ entries) =>
    let (slots, store) := store.newItems (entries.map (·.1))
    (.ok slots, store)
  | .atom a, _ =>
    match Options.members? (.atom a) with
    | some values =>
      let (slots, store) := store.newItems values
      (.ok slots, store)
    | none => (.error (.wrongType ("'" ++ a.typeName ++ "' object is not iterable")), store)
  | .ref _, none => (.ok [], store)

/-! ## Changes in place -/

def fieldAt? (store : Store) (slot : Slot) (key : String) : Option Slot :=
  match store.cell? slot with
  | some (.map _ entries) => Entries.at? entries key
  | _ => none

def setField (store : Store) (slot : Slot) (key : Value) (value : Slot) : Store :=
  match slot with
  | .atom _ => store
  | .ref r =>
    match store.get? r with
    | some (.map kind entries) => store.put r (.map kind (Entries.set entries key value))
    | _ => store

def assignField (store : Store) (slot : Slot) (key : Value) (value : Slot) : Outcome Store := do
  key.checkKey
  return store.setField slot key value

def lacksMember (store : Store) (slot : Slot) (member : String) : Fault :=
  .missingMember ("'" ++ store.typeName slot ++ "' object has no attribute '" ++ member ++ "'")

def refusesItem (store : Store) (slot : Slot) (key : Value) : Fault :=
  match store.cell? slot with
  | some (.seq kind _) =>
    if kind.isMutable then
      .wrongType ("list indices must be integers or slices, not " ++ key.typeName)
    else .wrongType ("'" ++ kind.typeName ++ "' object does not support item assignment")
  | _ => .wrongType ("'" ++ store.typeName slot ++ "' object does not support item assignment")

def indexOf? : Value → Option Int
  | .int n => some n
  | .bool b => some (if b then 1 else 0)
  | _ => none

/-- The position of an index in a sequence; negative indices count from the end. -/
def positionOf? (length : Nat) (index : Int) : Option Nat :=
  let position := if index < 0 then index + length else index
  if 0 ≤ position && position < length then some position.toNat else none

/-- Assigns an item under a key: an entry of a mapping, or an item of a mutable sequence. -/
def assignItem (store : Store) (slot : Slot) (key : Value) (value : Slot) : Outcome Store :=
  match slot, store.cell? slot with
  | slot, some (.map _ _) => store.assignField slot key value
  | .ref r, some (.seq kind items) =>
    match indexOf? key, kind.isMutable with
    | some index, true =>
      match positionOf? items.length index with
      | some position => .ok (store.put r (.seq kind (items.set position value)))
      | none => .error (.badIndex true)
    | _, _ => .error (store.refusesItem slot key)
  | slot, _ => .error (store.refusesItem slot key)

/-- Appends to what a slot holds: to a mutable sequence, or to the content of an element, which
is made when the key is missing. The content of an element may itself be an element, and so on
down to a depth. -/
def appendTo (store : Store) : Nat → Slot → Slot → Outcome Store
  | 0, _, _ => .error .exhausted
  | depth + 1, slot, item =>
    match slot, store.cell? slot with
    | .ref r, some (.seq kind items) =>
      if kind.isMutable then .ok (store.put r (.seq kind (items ++ [item])))
      else .error (store.lacksMember slot "append")
    | slot, some (.map kind entries) =>
      if kind = .dict then .error (store.lacksMember slot "append")
      else
        match Entries.at? entries "content" with
        | some content => store.appendTo depth content item
        | none =>
          let (content, store) := store.alloc (.seq .list [item])
          .ok (store.setField slot (.str "content") content)
    | slot, _ => .error (store.lacksMember slot "append")

/-- Appends to a sequence or an element. A path without repetitions is no longer than the number
of cells. -/
def append (store : Store) (slot item : Slot) : Outcome Store :=
  store.appendTo (store.cells.size + 1) slot item

def appendChild (store : Store) (slot child : Slot) : Outcome Store :=
  match store.fieldAt? slot "content" with
  | some content => store.append content child
  | none =>
    let (content, store) := store.alloc (.seq .list [child])
    .ok (store.setField slot (.str "content") content)

end Store

end Hypertext
