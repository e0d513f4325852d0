import Hypertext.Chain.Blocking

/-! # Runs on an event loop

One queue of jobs is worked off in order. A run calls its plugins one after another and, where a
result comes later, waits: a completion callback only queues the settling of a promise, a promise
that is settled queues the run that waits for it, a coroutine that is suspended queues the rest of
itself. Coroutines that callback plugins hand back run as tasks of their own. The end of an iteration
is the one failure that is not passed on: no coroutine lets it out, and no future takes it.
-/

namespace Hypertext

set_option autoImplicit false

variable {σ ρ : Type}

/-- The result of a callback plugin, once there is one. -/
structure Promise where
  run : Nat
  plugin : String
  logger : Logger
  outcome : Option (Outcome Slot)
  /-- Whether the run waits for it; a run that failed in the call does not. -/
  awaited : Bool

inductive Task (σ : Type) where
  | body (rest : Body σ)
  | relayed (outcome : Outcome Slot)
  | ready (outcome : Outcome Slot)

inductive Waiter where
  | run (id : Nat)
  | task (promise : Nat)
  deriving DecidableEq, Repr

inductive Job (σ : Type) where
  | start (run : Nat)
  /-- Goes on with a run, with what it waited for unless it was only suspended. -/
  | resume (run : Nat) (outcome : Option (Outcome Slot))
  | settle (promise : Nat) (completion : Completion)
  | task (promise : Nat) (task : Task σ)
  | taskEnded (promise : Nat) (outcome : Outcome Slot)
  /-- Takes over the state of a future of a thread pool. -/
  | relay (waiter : Waiter) (outcome : Outcome Slot)

structure Shared (σ : Type) where
  world : World σ
  queue : List (Job σ)
  promises : List Promise

inductive Wait (σ : Type) where
  | body (rest : Body σ)
  | promise
  | relay
  /-- For a future that had no outcome yet when it was handed back. -/
  | pending

/-- A run between two jobs: the plugin under way and what comes after it. -/
structure Paused (σ : Type) where
  plugin : Callable
  rest : List Callable
  index : Nat
  tree : Slot
  metrics : Metrics
  kind : PluginKind
  wait : Wait σ

inductive Standing (σ : Type) where
  | paused (paused : Paused σ)
  | finished (metrics : Metrics) (outcome : Outcome Slot)

namespace Shared

def post (shared : Shared σ) (job : Job σ) : Shared σ :=
  { shared with queue := shared.queue ++ [job] }

def postAll (shared : Shared σ) (jobs : List (Job σ)) : Shared σ :=
  { shared with queue := shared.queue ++ jobs }

def withWorld (shared : Shared σ) (world : World σ) : Shared σ := { shared with world }

/-- Settles a promise that is pending, and wakes the run that waits for it. -/
def fulfil (shared : Shared σ) (id : Nat) (promise : Promise) (outcome : Outcome Slot) :
    Shared σ :=
  let shared :=
    { shared with promises := shared.promises.set id { promise with outcome := some outcome } }
  if promise.awaited then shared.post (.resume promise.run (some outcome)) else shared

/-- A completion callback was called. Only the first call counts that settles the promise. -/
def settle (shared : Shared σ) (id : Nat) (completion : Completion) : Shared σ :=
  match shared.promises[id]? with
  | none => shared
  | some promise =>
    if promise.outcome.isSome then
      shared.withWorld (shared.world.write promise.logger .warning
        "Plugin completion callback called more than once" [] none)
    else
      match completion.outcome? shared.world.store promise.plugin with
      | some outcome => shared.fulfil id promise outcome
      | none => shared

/-- The task of a callback plugin ended. Its result does not count, only its failure. -/
def endTask (shared : Shared σ) (id : Nat) (outcome : Outcome Slot) : Shared σ :=
  match outcome, shared.promises[id]? with
  | .error fault, some promise =>
    if fault.isCancellation then shared
    else if promise.outcome.isSome then
      shared.withWorld (shared.world.write promise.logger .warning
        "Plugin failed after calling its completion callback"
        [("error", .str fault.written)] none)
    else shared.fulfil id promise (.error fault)
  | _, _ => shared

def stepTask (shared : Shared σ) (id : Nat) : Task σ → Shared σ
  | .body [] => shared.post (.taskEnded id (.ok .none))
  | .body (stretch :: rest) =>
    let (world, completions, ending) := stretch shared.world
    let shared := (shared.withWorld world).postAll (completions.map (.settle id))
    match ending with
    | none => shared.post (.task id (.body rest))
    | some outcome => shared.post (.taskEnded id (outcome.mapError Fault.leaving))
  | .relayed outcome => shared.post (.relay (.task id) outcome)
  | .ready outcome => shared.post (.taskEnded id outcome.awaited)

def postTask (shared : Shared σ) (id : Nat) : Returned σ → Shared σ
  | .value _ => shared
  | .coroutine body _ => shared.post (.task id (.body body))
  | .awaitable body => shared.post (.task id (.body body))
  | .loopFuture (.settled outcome) _ => shared.post (.task id (.ready outcome))
  | .poolFuture (.settled outcome) _ => shared.post (.task id (.relayed outcome))
  | .loopFuture .pending _ | .poolFuture .pending _ => shared

end Shared

namespace Chain

def stepBody (world : World σ) : Body σ → World σ × (Outcome Slot ⊕ Body σ)
  | [] => (world, .inl (.ok .none))
  | stretch :: rest =>
    let (world, _, ending) := stretch world
    match ending with
    | some outcome => (world, .inl outcome)
    | none => (world, .inr rest)

def complete (context : Context) (shared : Shared σ) (plugin : Callable) (index : Nat)
    (tree : Slot) (metrics : Metrics) (kind : PluginKind) (result : Slot) :
    Shared σ × Slot × Metrics :=
  let logger := context.pluginLogger plugin.displayName index
  let (next, world) := normalize shared.world result tree context.options (some logger)
  let (world, metrics) := recordPlugin world metrics logger plugin.displayName index kind
  (shared.withWorld world, next, metrics)

/-- Calls the plugins from a position on, until one of them keeps the run waiting. -/
def advance (conduct : Conduct σ) (run : Nat) (context : Context) :
    List Callable → Nat → Slot → Metrics → Shared σ → Shared σ × Standing σ
  | [], _, tree, metrics, shared => (shared, .finished metrics (.ok tree))
  | plugin :: rest, index, tree, metrics, shared =>
    let name := plugin.displayName
    let call := conduct.plugin plugin tree shared.world
    let paused (kind : PluginKind) (wait : Wait σ) : Standing σ :=
      .paused ⟨plugin, rest, index, tree, metrics, kind, wait⟩
    if plugin.declaredKind = .callback then
      let id := shared.promises.length
      let promise (awaited : Bool) : Promise :=
        ⟨run, name, context.pluginLogger name index, none, awaited⟩
      let made (awaited : Bool) : Shared σ :=
        { shared with
          world := call.world
          promises := shared.promises ++ [promise awaited]
          queue := shared.queue ++ call.completions.map (.settle id) }
      match call.outcome with
      | .error fault => (made false, .finished metrics (.error fault.leaving))
      | .ok returned => ((made true).postTask id returned, paused .callback .promise)
    else
      let shared := shared.withWorld call.world
      let goOn (shared : Shared σ) (kind : PluginKind) (outcome : Outcome Slot) :
          Shared σ × Standing σ :=
        match outcome with
        | .error fault => (shared, .finished metrics (.error fault.leaving))
        | .ok result =>
          let (shared, next, metrics) :=
            complete context shared plugin index tree metrics kind result
          advance conduct run context rest (index + 1) next metrics shared
      match call.outcome with
      | .error fault => (shared, .finished metrics (.error fault.leaving))
      | .ok (.value result) => goOn shared .sync (.ok result)
      | .ok (.coroutine body _) | .ok (.awaitable body) =>
        match stepBody shared.world body with
        | (world, .inl outcome) => goOn (shared.withWorld world) .thenable outcome
        | (world, .inr rest) =>
          ((shared.withWorld world).post (.resume run none), paused .thenable (.body rest))
      | .ok (.loopFuture (.settled outcome) _) => goOn shared .thenable outcome.awaited
      | .ok (.poolFuture (.settled outcome) _) =>
        (shared.post (.relay (.run run) outcome), paused .thenable .relay)
      | .ok (.loopFuture .pending _) | .ok (.poolFuture .pending _) =>
        (shared, paused .thenable .pending)

def finishStep (conduct : Conduct σ) (run : Nat) (context : Context) (shared : Shared σ)
    (paused : Paused σ) (outcome : Outcome Slot) : Shared σ × Standing σ :=
  match outcome with
  | .error fault => (shared, .finished paused.metrics (.error fault.leaving))
  | .ok result =>
    let (shared, next, metrics) :=
      complete context shared paused.plugin paused.index paused.tree paused.metrics paused.kind
        result
    advance conduct run context paused.rest (paused.index + 1) next metrics shared

def wake (conduct : Conduct σ) (run : Nat) (context : Context) (shared : Shared σ)
    (paused : Paused σ) (outcome : Option (Outcome Slot)) : Shared σ × Standing σ :=
  match paused.wait, outcome with
  | .body body, none =>
    match stepBody shared.world body with
    | (world, .inl outcome) =>
      finishStep conduct run context (shared.withWorld world) paused outcome
    | (world, .inr rest) =>
      ((shared.withWorld world).post (.resume run none),
        .paused { paused with wait := .body rest })
  | .promise, some outcome | .relay, some outcome | .pending, some outcome =>
    finishStep conduct run context shared paused outcome.awaited
  | _, _ => (shared, .paused paused)

end Chain

/-! ## Routines -/

/-- A chain that is ready to run, and what is to be done at its end. -/
structure Launch (σ ρ : Type) where
  context : Context
  tree : Slot
  metrics : Metrics
  conclude : ChainEnd σ → World σ × ρ

/-- A run that has not begun. It takes the plugins with it that were registered when it was made;
preparing it may already end it. -/
structure Routine (σ ρ : Type) where
  plugins : List Callable
  prepare : World σ → World σ × (ρ ⊕ Launch σ ρ)

inductive RunState (σ ρ : Type) where
  | fresh (routine : Routine σ ρ)
  | active (launch : Launch σ ρ) (paused : Paused σ)
  | ended (result : ρ)

structure Loop (σ ρ : Type) where
  shared : Shared σ
  runs : List (RunState σ ρ)

namespace Loop

def ofWorld (world : World σ) : Loop σ ρ := ⟨⟨world, [], []⟩, []⟩

/-- Puts down where a run stands; a finished chain is concluded at once. -/
def stand (loop : Loop σ ρ) (run : Nat) (launch : Launch σ ρ) (step : Shared σ × Standing σ) :
    Loop σ ρ :=
  match step with
  | (shared, .paused paused) => ⟨shared, loop.runs.set run (.active launch paused)⟩
  | (shared, .finished metrics outcome) =>
    let (world, result) := launch.conclude ⟨shared.world, metrics, outcome⟩
    ⟨shared.withWorld world, loop.runs.set run (.ended result)⟩

def startRun (conduct : Conduct σ) (loop : Loop σ ρ) (run : Nat) (routine : Routine σ ρ) :
    Loop σ ρ :=
  match routine.prepare loop.shared.world with
  | (world, .inl result) => ⟨loop.shared.withWorld world, loop.runs.set run (.ended result)⟩
  | (world, .inr launch) =>
    match world.store.attach launch.tree (some launch.context.options) with
    | (.error fault, _) =>
      loop.stand run launch (loop.shared.withWorld world, .finished launch.metrics (.error fault))
    | (.ok tree, store) =>
      loop.stand run launch
        (Chain.advance conduct run launch.context routine.plugins 0 tree launch.metrics
          (loop.shared.withWorld (world.withStore store)))

def perform (conduct : Conduct σ) (loop : Loop σ ρ) : Job σ → Loop σ ρ
  | .start run =>
    match loop.runs[run]? with
    | some (.fresh routine) => loop.startRun conduct run routine
    | _ => loop
  | .resume run outcome =>
    match loop.runs[run]? with
    | some (.active launch paused) =>
      loop.stand run launch (Chain.wake conduct run launch.context loop.shared paused outcome)
    | _ => loop
  | .settle id completion => { loop with shared := loop.shared.settle id completion }
  | .task id task => { loop with shared := loop.shared.stepTask id task }
  | .taskEnded id outcome => { loop with shared := loop.shared.endTask id outcome }
  | .relay waiter outcome =>
    match waiter, outcome.transferred? with
    | .run run, some taken => { loop with shared := loop.shared.post (.resume run (some taken)) }
    | .task id, some taken => { loop with shared := loop.shared.post (.task id (.ready taken)) }
    | _, none => loop

def step (conduct : Conduct σ) (loop : Loop σ ρ) : Loop σ ρ :=
  match loop.shared.queue with
  | [] => loop
  | job :: queue =>
    perform conduct { loop with shared := { loop.shared with queue } } job

def steps (conduct : Conduct σ) : Nat → Loop σ ρ → Loop σ ρ
  | 0, loop => loop
  | count + 1, loop => steps conduct count (loop.step conduct)

def add (loop : Loop σ ρ) (routine : Routine σ ρ) : Nat × Loop σ ρ :=
  (loop.runs.length, { loop with runs := loop.runs ++ [.fresh routine] })

def result? (loop : Loop σ ρ) (run : Nat) : Option ρ :=
  match loop.runs[run]? with
  | some (.ended result) => some result
  | _ => none

def workUntil (conduct : Conduct σ) (run : Nat) : Nat → Loop σ ρ → Loop σ ρ
  | 0, loop => loop
  | fuel + 1, loop =>
    if (loop.result? run).isSome || loop.shared.queue.isEmpty then loop
    else workUntil conduct run fuel (loop.step conduct)

def await (conduct : Conduct σ) (fuel run : Nat) (loop : Loop σ ρ) : Loop σ ρ :=
  match loop.runs[run]? with
  | some (.fresh routine) => workUntil conduct run fuel (loop.startRun conduct run routine)
  | _ => workUntil conduct run fuel loop

/-- One turn does the jobs that are queued when it begins. -/
def turn (conduct : Conduct σ) (loop : Loop σ ρ) : Loop σ ρ :=
  loop.steps conduct loop.shared.queue.length

def turns (conduct : Conduct σ) : Nat → Loop σ ρ → Loop σ ρ
  | 0, loop => loop
  | count + 1, loop => turns conduct count (loop.turn conduct)

end Loop

end Hypertext
