import Hypertext.Chain.World
import Hypertext.Source

/-! # Conduct of plugins

What plugins and collaborators do when they are called. A plugin may hand back a tree, or
something that yields one later; a plugin that was given a completion callback may call it, from
the call itself or from a coroutine.
-/

namespace Hypertext

set_option autoImplicit false

variable {σ : Type}

structure Completion where
  failure : Slot
  result : Slot
  deriving DecidableEq, Repr

/-- One stretch of a coroutine, up to its end or its next suspension: what it does to the world,
the completion callbacks it calls, and the outcome if it ends there. -/
abbrev Stretch (σ : Type) := World σ → World σ × List Completion × Option (Outcome Slot)

abbrev Body (σ : Type) := List (Stretch σ)

inductive FutureState where
  | settled (outcome : Outcome Slot)
  | pending

/-- What a call hands back. Something that yields its result later comes with what it takes to
let go of it unused. -/
inductive Returned (σ : Type) where
  | value (slot : Slot)
  | coroutine (body : Body σ) (close : World σ → World σ)
  | awaitable (body : Body σ)
  | loopFuture (state : FutureState) (cancel : World σ → World σ)
  | poolFuture (state : FutureState) (cancel : World σ → World σ)

namespace Returned

def isThenable : Returned σ → Bool
  | value _ => false
  | _ => true

/-- The convention of a call, judged by what it handed back. -/
def kind (returned : Returned σ) : PluginKind := if returned.isThenable then .thenable else .sync

def discard (world : World σ) : Returned σ → World σ
  | value _ => world
  | coroutine _ close => close world
  | awaitable _ => world
  | loopFuture _ cancel => cancel world
  | poolFuture _ cancel => cancel world

end Returned

structure PluginCall (σ : Type) where
  world : World σ
  completions : List Completion
  outcome : Outcome (Returned σ)

/-- The surroundings of runs: how plugins and collaborators behave, the files that can be read,
the ids given to runs that have none, and how deep a tree can be rendered. -/
structure Conduct (σ : Type) where
  plugin : Callable → Slot → World σ → PluginCall σ
  collaborator : Callable → Slot → OptionsRef → World σ → Outcome Slot × World σ
  files : FileSystem
  freshId : Nat → String
  depth : Nat

/-- A completion with a failure fails: with the very exception, or with a report of anything else
that counts as true. The end of an iteration is refused by the future that is to be settled, and has
no outcome. -/
def Completion.outcome? (completion : Completion) (store : Store) (plugin : String) :
    Option (Outcome Slot) :=
  if store.truthy completion.failure then
    match completion.failure with
    | .atom (.failure failure) =>
      if failure.kind = .stop then none else some (.error (.raised failure))
    | other => some (.error (.reported plugin (store.view other)))
  else some (.ok completion.result)

namespace Outcome

/-- What a coroutine gets that waits for a future: the outcome, except that the end of an iteration
hands over its message as a result. -/
def awaited : Outcome Slot → Outcome Slot
  | .error (.raised failure) =>
    if failure.kind.isStop then .ok (.atom (.str failure.message)) else .error (.raised failure)
  | outcome => outcome

theorem awaited_cases (outcome : Outcome Slot) : outcome.awaited = outcome ∨
    ∃ failure, outcome = .error (.raised failure) ∧ failure.kind.isStop = true ∧
      outcome.awaited = .ok (.atom (.str failure.message)) := by
  unfold awaited
  split
  · rename_i failure
    cases hStop : failure.kind.isStop with
    | false => exact Or.inl rfl
    | true => exact Or.inr ⟨failure, rfl, hStop, rfl⟩
  · exact Or.inl rfl

def transferred? : Outcome Slot → Option (Outcome Slot)
  | .error (.raised failure) => failure.transferred?.map fun taken => .error (.raised taken)
  | outcome => some outcome

end Outcome

end Hypertext
