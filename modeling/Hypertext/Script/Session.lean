import Hypertext.Script.Plugin

/-! # Sessions with a pipeline

Documents are processed one after another on one event loop. What a call of `process` does not
do at once is done when it is waited for; some turns pass afterwards, so that what comes late is
still seen.
-/

namespace Hypertext

set_option autoImplicit false

/-- A loop with the runs of one pipeline. -/
abbrev Session := Loop Scene (Outcome ProcessResult)

/-- What a call of `process` came to: a result at once, or a run to be waited for. -/
inductive Started where
  | result (outcome : Outcome ProcessResult)
  | deferred (run : Nat)

namespace Started

def isDeferred : Started → Bool
  | deferred _ => true
  | result _ => false

def fault? : Started → Option Fault
  | result (.error fault) => some fault
  | _ => none

end Started

namespace Session

/-- More jobs than a run can need that waits for anything but itself. -/
def jobLimit : Nat := 100000

def settlingTurns : Nat := 8

def world (session : Session) : World Scene := session.shared.world

def setWorld (session : Session) (world : World Scene) : Session :=
  { session with shared := session.shared.withWorld world }

def start (conduct : Conduct Scene) (session : Session) (request : Request) : Started × Session :=
  let (request, store) := request.held session.world.store
  match Processing.process conduct request (session.world.withStore store) with
  | (world, .inl outcome) => (.result outcome, session.setWorld world)
  | (world, .inr routine) =>
    let (run, loop) := (session.setWorld world).add routine
    (.deferred run, loop)

def finish (conduct : Conduct Scene) (session : Session) :
    Started → Outcome ProcessResult × Session
  | .result outcome => (outcome, session)
  | .deferred run =>
    let session := (Loop.await conduct jobLimit run session).turns conduct settlingTurns
    ((session.result? run).getD (.error .exhausted), session)

end Session

namespace Chain

/-- Runs a chain in place, or as the only run of a loop. -/
def play (conduct : Conduct Scene) (context : Context) (plugins : List Callable)
    (blocking : Bool) (tree : Slot) (metrics : Metrics) (world : World Scene) : ChainEnd Scene :=
  if blocking then Blocking.run conduct context plugins tree metrics world
  else
    let launch : Launch Scene (ChainEnd Scene) :=
      ⟨context, tree, metrics, fun chain => (chain.world, chain)⟩
    let (run, loop) := (Loop.ofWorld world).add ⟨plugins, fun world => (world, .inr launch)⟩
    let loop := (Loop.await conduct Session.jobLimit run loop).turns conduct Session.settlingTurns
    match loop.result? run with
    | some chain => { chain with world := loop.shared.world }
    | none => ⟨loop.shared.world, metrics, .error .exhausted⟩

end Chain

end Hypertext
