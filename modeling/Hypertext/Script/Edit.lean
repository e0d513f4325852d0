import Hypertext.Script.Plugin

/-! # Edits of a tree

Edits are carried out on one tree, one after another. Each shows something of what it met; one
that fails leaves behind what it did before.
-/

namespace Hypertext

set_option autoImplicit false

inductive Edit where
  | walk (alteration : Alteration)
  | walkMatching (expression : Value) (alteration : Alteration)
  | findAll (tag : Value)
  | nodes
  | render (options : Option OptionsRef)
  | setOption (field : String) (v : Value)
  | append (v : Value)
  | setKey (key v : Value)

inductive Sight where
  /-- The labels of the items that were visited, also when the walk failed. -/
  | walked (seen : List Value) (outcome : Outcome Unit)
  | found (nodes : List Value)
  | labels (labels : List Value)
  | html (markup : String)
  | options (options : Options)
  | changed

namespace Edit

variable {σ : Type}

open Act

def require (tree : Slot) (member : String) : Act σ Unit := do
  let store ← store
  if store.isCapable tree then return else throw (store.lacksMember tree member)

def playWalk (walk : Walking AlterationMemory Unit) : Act σ Sight := do
  let (outcome, (store, memory)) := walk.run (← store, AlterationMemory.empty)
  setStore store
  return .walked memory.seen outcome

/-- Carries out an edit. Walks need no capable tree when they are `raw`. -/
def play (raw : Bool) (tree : Slot) : Edit → Act σ Sight
  | walk alteration => do
    if !raw then require tree "walk"
    playWalk (Hypertext.walk Script.bounds (alteration.visitor tree) tree)
  | walkMatching expression alteration => do
    if !raw then require tree "match"
    playWalk (Hypertext.walkMatching Script.bounds expression (alteration.visitor tree) tree)
  | findAll tag => do
    require tree "find_all"
    return .found (((← store).view tree).nodesTagged tag)
  | nodes => do
    require tree "iter_nodes"
    return .labels (((← store).view tree).nodes.map Value.label)
  | render given => do
    let store ← store
    let options :=
      match given.or (store.optionsOf tree) with
      | some options => store.getOptions options
      | none => .default
    return .html (← liftOutcome (renderWith options (store.markup · Script.bounds.depth tree)))
  | setOption field v => do
    let store ← store
    match store.optionsOf tree with
    | some r =>
      let store := store.assignSettings r [(field, v)]
      setStore store
      return .options (store.getOptions r)
    | none => throw (store.lacksMember tree "options")
  | append v => do
    let item ← onStore (·.new v)
    setStore (← liftOutcome ((← store).append tree item))
    return .changed
  | setKey key v => do
    let item ← onStore (·.new v)
    setStore (← liftOutcome ((← store).assignItem tree key item))
    return .changed

end Edit

end Hypertext
