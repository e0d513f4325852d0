import Hypertext.Tree.Walk

/-! # Scripted visitors

A visitor written as data: what it does to the item it is offered, and what it answers.
-/

namespace Hypertext

set_option autoImplicit false

inductive Alteration where
  | pass
  | same
  | replace (value : Value)
  /-- A text item with something behind it. -/
  | suffix (s : String)
  /-- A copy of a mapping item with another tag. -/
  | withTag (tag : Value)
  | setTag (tag : Value)
  | setAttribute (name value : Value)
  | unwrap
  | wrap (tag : Value)
  | appendChild (child : Value)
  | pushRoot (item : Value)
  | popRoot
  /-- Acts only the first `count` times it is reached. -/
  | first (counter count : Nat) (body : Alteration)
  | when (expression : Value) (body : Alteration)
  /-- Does all; the last answer that is not empty counts. -/
  | all (bodies : List Alteration)
  | raise (className message : String)

/-- How far scripted walks and renderings may go. -/
def Script.bounds : Walk.Bounds := ⟨2000, 1000000⟩

structure AlterationMemory where
  counts : List (Nat × Nat)
  /-- The labels of the items offered so far. -/
  seen : List Value

namespace AlterationMemory

def empty : AlterationMemory := ⟨[], []⟩

def count (memory : AlterationMemory) (counter : Nat) : Nat :=
  ((memory.counts.find? (·.1 = counter)).map (·.2)).getD 0

def tick (memory : AlterationMemory) (counter : Nat) : AlterationMemory :=
  { memory with
    counts :=
      (counter, memory.count counter + 1) :: memory.counts.filter (·.1 ≠ counter) }

end AlterationMemory

/-- How an item is shown: a mapping by its tag, a sequence by its length, a leaf by itself. -/
def Value.label : Value → Value
  | .map _ entries => .list [.str "node", Value.field entries "tag"]
  | .seq _ items => .list [.str "list", .int items.length]
  | leaf => leaf

namespace Alteration

open Walk

def newValue (value : Value) : Walking AlterationMemory Slot := liftStore (·.new value)

def change (f : Store → Outcome Store) : Walking AlterationMemory Unit := do
  match f (← getStore) with
  | .ok store => setStore store
  | .error fault => throw fault

def entriesOf? (store : Store) (item : Slot) : Option (List (Value × Slot)) :=
  match store.cell? item with
  | some (.map _ entries) => some entries
  | _ => none

/-- Sets an attribute of a mapping in place, making the attributes when the key is missing. -/
def assignAttribute (item : Slot) (name : Value) (value : Slot) :
    Walking AlterationMemory Unit := do
  match (← getStore).fieldAt? item "attrs" with
  | none =>
    let attributes ← liftStore (·.alloc (.map .dict []))
    setStore ((← getStore).setField item (.str "attrs") attributes)
    change (·.assignItem attributes name value)
  | some attributes => change (·.assignItem attributes name value)

def later (item : Slot) (first second : Answer) : Answer :=
  match second with
  | .pass => first
  | .same => if item.isNone then first else .same
  | .put slot => if slot.isNone then first else .put slot

mutual

def act (root item : Slot) : Alteration → Walking AlterationMemory Answer
  | pass => return .pass
  | same => return .same
  | replace value => return .put (← newValue value)
  | suffix s =>
    match item with
    | .atom (.str t) => if s = "" then return .same else return .put (.atom (.str (t ++ s)))
    | _ => return .pass
  | withTag tag => do
    match entriesOf? (← getStore) item with
    | some entries =>
      let tag ← newValue tag
      return .put (← liftStore (·.alloc (.map .dict (Entries.set entries (.str "tag") tag))))
    | none => return .pass
  | setTag tag => do
    match entriesOf? (← getStore) item with
    | some _ =>
      let tag ← newValue tag
      setStore ((← getStore).setField item (.str "tag") tag)
      return .pass
    | none => return .pass
  | setAttribute name value => do
    match entriesOf? (← getStore) item with
    | some _ =>
      assignAttribute item name (← newValue value)
      return .pass
    | none => return .pass
  | unwrap => do
    match (← getStore).fieldAt? item "content" with
    | some content => return .put content
    | none => return .pass
  | wrap tag => do
    let tag ← newValue tag
    let content ← liftStore (·.alloc (.seq .list [item]))
    return .put (← liftStore (·.alloc (.map .dict [(.str "tag", tag), (.str "content", content)])))
  | appendChild child => do
    match entriesOf? (← getStore) item with
    | some _ =>
      let child ← newValue child
      change (·.appendChild item child)
      return .pass
    | none => return .pass
  | pushRoot value => do
    match (← getStore).cell? root with
    | some (.seq kind _) =>
      if kind.isMutable then
        let slot ← newValue value
        change (·.append root slot)
      return .pass
    | _ => return .pass
  | popRoot => do
    let store ← getStore
    match root, store.cell? root with
    | .ref r, some (.seq kind items) =>
      if kind.isMutable then setStore (store.put r (.seq kind items.dropLast))
      return .pass
    | _, _ => return .pass
  | first counter count body => do
    let memory := (← get).2
    if memory.count counter < count then
      modify fun state => (state.1, state.2.tick counter)
      act root item body
    else return .pass
  | when expression body => do
    if expression.isMatch ((← getStore).view item) then act root item body else return .pass
  | all bodies => actAll root item .pass bodies
  | raise className message => throw (.raised (.ofName className message))

def actAll (root item : Slot) (answer : Answer) : List Alteration → Walking AlterationMemory Answer
  | [] => return answer
  | body :: rest => do
    let next ← act root item body
    actAll root item (later item answer next) rest

end

/-- The visitor of a walk over the tree at `root`. It notes each item before acting on it. -/
def visitor (root : Slot) (alteration : Alteration) : Visitor AlterationMemory := fun item => do
  let store ← getStore
  modify fun state => (state.1, { state.2 with seen := state.2.seen ++ [(store.view item).label] })
  alteration.act root item

end Alteration

end Hypertext
