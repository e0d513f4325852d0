import Hypertext.Proofs.Chain.Course
import Mathlib.Logic.Relation

/-! # Chains on every schedule

A chain on a loop is driven by jobs and by threads that call completion callbacks at times of their
own. The end of the chain does not depend on the times: at every moment one job, or one thread,
carries the chain on, and all other jobs are left over from plugins that have completed and change
nothing.
-/

namespace Hypertext

set_option autoImplicit false

variable {σ : Type}

namespace Chain

variable {conduct : Conduct σ} {threads : Threads σ} {context : Context} {run : Nat}

/-! ## Jobs left over -/

inductive LeftOver : Job σ → Prop where
  | task {id : Nat} {rest : Body σ} (hRest : ∀ stretch ∈ rest, Rests stretch) :
    LeftOver (.task id (.body rest))
  | taskEnded {id : Nat} {slot : Slot} : LeftOver (.taskEnded id (.ok slot))

/-- The promise of a callback plugin that has not completed. It is the last that was made. -/
def Pending (promises : List Promise) (run : Nat) (plugin : Callable) (id : Nat) : Prop :=
  promises.length = id + 1 ∧
    ∃ logger, promises[id]? = some ⟨run, plugin.displayName, logger, none, true⟩

/-- What carries a chain on: the job, if it is one, and the outcome that the plugin under way will
come to by it, with the world in which it will and with a bound on the jobs until then. -/
inductive Due (threads : Threads σ) (run : Nat) (world : World σ) (promises : List Promise)
    (paused : Paused σ) : List (Job σ) → World σ → Outcome Slot → Nat → Prop where
  | body {rest : Body σ} {final : World σ} {outcome : Outcome Slot}
    (hWait : paused.wait = .body rest) (hRest : Yields rest world final outcome) :
    Due threads run world promises paused [.resume run none] final outcome rest.length
  | relay {outcome taken : Outcome Slot} (hWait : paused.wait = .relay)
    (hTaken : outcome.transferred? = some taken) :
    Due threads run world promises paused [.relay (.run run) outcome] world taken.awaited 2
  | relayed {outcome : Outcome Slot} (hWait : paused.wait = .relay) :
    Due threads run world promises paused [.resume run (some outcome)] world outcome.awaited 1
  | settled {id : Nat} {promise : Promise} {outcome : Outcome Slot}
    (hWait : paused.wait = .promise) (hLast : promises.length = id + 1)
    (hPromise : promises[id]? = some promise) (hSettled : promise.outcome ≠ none) :
    Due threads run world promises paused [.resume run (some outcome)] world outcome.awaited 1
  | settle {id : Nat} {completion : Completion} {outcome : Outcome Slot}
    (hWait : paused.wait = .promise) (hPending : Pending promises run paused.plugin id)
    (hOutcome : completion.outcome? world.store paused.plugin.displayName = some outcome) :
    Due threads run world promises paused [.settle id completion] world outcome.awaited 2
  | task {id : Nat} {rest : Body σ} {final : World σ} {completion : Completion}
    {outcome : Outcome Slot} (hWait : paused.wait = .promise)
    (hPending : Pending promises run paused.plugin id) (hThread : threads paused.plugin = none)
    (hRest : Delivers rest world final completion)
    (hOutcome : completion.outcome? final.store paused.plugin.displayName = some outcome) :
    Due threads run world promises paused [.task id (.body rest)] final outcome.awaited
      (rest.length + 2)
  | thread {id : Nat} {thread : Slot → World σ → World σ × Completion} {final : World σ}
    {completion : Completion} {outcome : Outcome Slot} (hWait : paused.wait = .promise)
    (hPending : Pending promises run paused.plugin id)
    (hThread : threads paused.plugin = some thread)
    (hRun : thread paused.tree world = (final, completion))
    (hOutcome : completion.outcome? final.store paused.plugin.displayName = some outcome) :
    Due threads run world promises paused [] final outcome.awaited 3

/-- A chain that will end, or has ended, in a given way. The rank counts the plugins that have not
completed and, for the one under way, the jobs until it does. -/
inductive Holds (conduct : Conduct σ) (threads : Threads σ) (context : Context) (run : Nat)
    (chain : ChainEnd σ) : Shared σ → Standing σ → Nat × Nat → Prop where
  | finished {shared : Shared σ} (hWorld : shared.world = chain.world)
    (hQueue : ∀ job ∈ shared.queue, LeftOver job) :
    Holds conduct threads context run chain shared (.finished chain.metrics chain.outcome) (0, 0)
  | paused {shared : Shared σ} {paused : Paused σ} {before due after : List (Job σ)}
    {final : World σ} {outcome : Outcome Slot} {phase : Nat}
    (hQueue : shared.queue = before ++ due ++ after) (hBefore : ∀ job ∈ before, LeftOver job)
    (hAfter : ∀ job ∈ after, LeftOver job)
    (hDue : Due threads run shared.world shared.promises paused due final outcome phase)
    (hFollows : Follows conduct threads context paused final chain outcome) :
    Holds conduct threads context run chain shared (.paused paused) (paused.rest.length + 1, phase)

/-! ## Calling plugins -/

end Chain

namespace Loop

open Chain

/-! ## Moves of a loop -/

/-- One move: the loop does its first job, or a thread that has not yet done so calls the completion
callback of the plugin under way. The callback only queues a job. -/
inductive Moves {ρ : Type} (conduct : Conduct σ) (threads : Threads σ) : Loop σ ρ → Loop σ ρ → Prop
  where
  | job {loop : Loop σ ρ} (hQueue : loop.shared.queue ≠ []) :
    Moves conduct threads loop (loop.step conduct)
  | delivery {loop : Loop σ ρ} {run id : Nat} {launch : Launch σ ρ} {paused : Paused σ}
    {promise : Promise} {thread : Slot → World σ → World σ × Completion} {world : World σ}
    {completion : Completion} (hRun : loop.runs[run]? = some (.active launch paused))
    (hWait : paused.wait = .promise) (hLast : loop.shared.promises.length = id + 1)
    (hPromise : loop.shared.promises[id]? = some promise) (hOpen : promise.outcome = none)
    (hSilent : ∀ other, .settle id other ∉ loop.shared.queue)
    (hThread : threads paused.plugin = some thread)
    (hDelivers : thread paused.tree loop.shared.world = (world, completion)) :
    Moves conduct threads loop
      { loop with shared := (loop.shared.withWorld world).post (.settle id completion) }

variable {conduct : Conduct σ} {threads : Threads σ} {context : Context} {chain : ChainEnd σ}

inductive Stands (conduct : Conduct σ) (threads : Threads σ) (context : Context)
    (chain : ChainEnd σ) : Loop σ (ChainEnd σ) → Nat × Nat → Prop where
  | ended {shared : Shared σ} (hWorld : shared.world = chain.world)
    (hQueue : ∀ job ∈ shared.queue, LeftOver job) :
    Stands conduct threads context chain ⟨shared, [.ended chain]⟩ (0, 0)
  | active {shared : Shared σ} {tree : Slot} {metrics : Metrics} {paused : Paused σ}
    {rank : Nat × Nat}
    (hHolds : Holds conduct threads context 0 chain shared (.paused paused) rank) :
    Stands conduct threads context chain
      ⟨shared, [.active ⟨context, tree, metrics, fun chain => (chain.world, chain)⟩ paused]⟩ rank

theorem Stands.progress {loop : Loop σ (ChainEnd σ)} {rank : Nat × Nat}
    (h : Stands conduct threads context chain loop rank) (hRunning : loop.result? 0 = none) :
    ∃ next, Moves conduct threads loop next := by
  cases h with
  | ended => cases hRunning
  | @active shared tree metrics paused _ hHolds =>
    by_cases hQueue : shared.queue = []
    · cases hHolds with
      | paused hShared hBefore hAfter hDue hFollows =>
        rw [hQueue, eq_comm, List.append_eq_nil_iff, List.append_eq_nil_iff] at hShared
        obtain ⟨⟨-, rfl⟩, -⟩ := hShared
        cases hDue with
        | thread hWait hPending hThread hRun =>
          obtain ⟨hLast, logger, hPromise⟩ := hPending
          refine ⟨_, @Moves.delivery _ _ _ _ _ 0 _ _ _ _ _ _ _ rfl hWait hLast hPromise rfl ?_ hThread
            hRun⟩
          intro other hOther
          rw [hQueue] at hOther
          cases hOther
    · exact ⟨_, .job hQueue⟩

end Loop

end Hypertext
