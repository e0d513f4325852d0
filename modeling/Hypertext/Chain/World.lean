import Hypertext.Log
import Hypertext.Tree.Walk

/-! # The world of a run

Plugins act on a world: the store with all trees, the log, the pipeline they are part of, and a
scene of their own about which nothing is known here.
-/

namespace Hypertext

set_option autoImplicit false

structure Pipeline where
  roster : List Callable
  defaults : OptionsRef
  correlationId : Option String
  runs : Nat
  successes : Nat
  deriving Repr

structure World (σ : Type) where
  store : Store
  log : List LogRecord
  pipeline : Pipeline
  scene : σ

/-- Actions on the world; what they did before a fault remains. -/
abbrev Act (σ : Type) := ExceptT Fault (StateM (World σ))

namespace World

variable {σ : Type}

def write (world : World σ) (logger : Logger) (level : LogLevel) (message : String)
    (extra : Fields) (failure : Option String) : World σ :=
  { world with log := world.log ++ [logger.record level message extra failure] }

def withStore (world : World σ) (store : Store) : World σ := { world with store }

end World

namespace Act

variable {σ : Type} {α : Type}

def run (act : Act σ α) (world : World σ) : Outcome α × World σ := ExceptT.run act world

def store : Act σ Store := return (← get).store

def setStore (store : Store) : Act σ Unit := modify (·.withStore store)

def onStore (f : Store → α × Store) : Act σ α := do
  let (a, store) := f (← Act.store)
  setStore store
  return a

def liftOutcome (outcome : Outcome α) : Act σ α :=
  match outcome with
  | .ok a => return a
  | .error fault => throw fault

end Act

/-- What identifies one run: its options object and the id in its log records. -/
structure Context where
  options : OptionsRef
  correlationId : Value

namespace Context

def logger (context : Context) : Logger :=
  .make "markup_pipeline.engine.executor" context.correlationId "chain_executor" []

def pluginLogger (context : Context) (name : String) (index : Nat) : Logger :=
  context.logger.bind [("plugin", .str name), ("index", .int index)]

end Context

/-- Turns what a plugin produced into the tree for the next step. Nothing, the same tree and
values that are no tree keep the previous tree; any other tree becomes the new root and is given
the options of the run. -/
def normalize {σ : Type} (world : World σ) (candidate previous : Slot) (options : OptionsRef)
    (logger : Option Logger) : Slot × World σ :=
  if candidate.isNone || candidate.identical previous then (previous, world)
  else
    match world.store.attach candidate (some options) with
    | (.ok tree, store) => (tree, world.withStore store)
    | (.error _, _) =>
      match logger with
      | none => (previous, world)
      | some logger =>
        (previous, world.write logger .debug "Ignoring non-tree plugin result"
          [("result_type", .str (world.store.typeName candidate))] none)

end Hypertext
