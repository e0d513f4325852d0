import Hypertext.Tree.Store
import Hypertext.Value.Matching

/-! # Walking a tree

A walk offers every item of every content sequence to a visitor, in document order and from the
top down. The answer may put something else in the item's place; the walk then goes on inside
what stands there now. The sequence under way is read anew at every position, so a visitor that
makes it longer or shorter is followed.
-/

namespace Hypertext

set_option autoImplicit false

inductive Answer where
  | pass
  | same
  | put (slot : Slot)
  deriving DecidableEq, Repr

namespace Atom

/-- Leaves of which there is only one specimen. -/
def isShared : Atom → Bool
  | none | bool _ => true
  | int n => -5 ≤ n && n ≤ 256
  | str s => s.toList.length ≤ 1 && s.toList.all (·.toNat < 256)
  | bytes data => data.length ≤ 1
  | _ => false

end Atom

namespace Slot

def identical : Slot → Slot → Bool
  | .ref r, .ref s => r = s
  | .atom a, .atom b => a.isShared && a = b
  | _, _ => false

end Slot

/-- Steps of a walk act on the store and on the visitor's memory; both outlive a fault. -/
abbrev Walking (σ : Type) := ExceptT Fault (StateM (Store × σ))

abbrev Visitor (σ : Type) := Slot → Walking σ Answer

namespace Walk

variable {σ : Type}

def getStore : Walking σ Store := return (← get).1

def setStore (store : Store) : Walking σ Unit := modify fun state => (store, state.2)

def liftStore {α : Type} (f : Store → α × Store) : Walking σ α := do
  let (a, store) := f (← getStore)
  setStore store
  return a

/-- What the answer puts in the item's place, if anything. -/
def replacement? (item : Slot) : Answer → Option Slot
  | .pass | .same => none
  | .put slot => if slot.isNone || slot.identical item then none else some slot

def replaceAt (r : Ref) (index : Nat) (slot : Slot) : Walking σ Unit := do
  let store ← getStore
  match store.get? r with
  | some (.seq kind items) =>
    if !kind.isMutable then throw .immutableContent
    else if index < items.length then setStore (store.put r (.seq kind (items.set index slot)))
    else throw (.badIndex true)
  | _ => throw (.badIndex true)

def itemAt? (store : Store) (r : Ref) (index : Nat) : Option Slot :=
  match store.get? r with
  | some (.seq _ items) => items[index]?
  | _ => none

/-- Offers the items of a sequence from a position on, and enters each place after it. -/
def sweep (visitor : Visitor σ) (enter : Slot → Walking σ Unit) (r : Ref) :
    Nat → Nat → Walking σ Unit
  | 0, _ => throw .exhausted
  | fuel + 1, index => do
    match itemAt? (← getStore) r index with
    | none => return
    | some item =>
      match replacement? item (← visitor item) with
      | none => enter item
      | some slot =>
        replaceAt r index slot
        enter slot
      sweep visitor enter r fuel (index + 1)

structure Bounds where
  /-- How deep it may enter. -/
  depth : Nat
  /-- How many positions of one sequence it may pass. -/
  length : Nat

def enter (visitor : Visitor σ) (length : Nat) : Nat → Slot → Walking σ Unit
  | 0, _ => throw .exhausted
  | depth + 1, slot => do
    let store ← getStore
    match slot, store.cell? slot with
    | .ref r, some (.seq _ _) => sweep visitor (enter visitor length depth) r length 0
    | _, some (.map _ entries) =>
      match Entries.at? entries "content" with
      | some content => if content.isNone then return else enter visitor length depth content
      | none => return
    | _, _ => return

end Walk

/-- Walks the tree at a slot. The root itself is not offered to the visitor. -/
def walk {σ : Type} (bounds : Walk.Bounds) (visitor : Visitor σ) (root : Slot) : Walking σ Unit :=
  Walk.enter visitor bounds.length bounds.depth root

/-- The expressions of which any may match: the members of a sequence, or the value alone. -/
def alternatives : Value → List Value
  | .seq _ items => items
  | other => [other]

def matching {σ : Type} (expression : Value) (visitor : Visitor σ) : Visitor σ := fun item => do
  let store ← Walk.getStore
  if (alternatives expression).any (·.isMatch (store.view item)) then visitor item
  else return .pass

def walkMatching {σ : Type} (bounds : Walk.Bounds) (expression : Value) (visitor : Visitor σ)
    (root : Slot) : Walking σ Unit :=
  walk bounds (matching expression visitor) root

end Hypertext
