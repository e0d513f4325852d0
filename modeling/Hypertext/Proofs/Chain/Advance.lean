import Hypertext.Proofs.Chain.Course

/-! # How far a chain goes at a time

A chain passes the plugins that come to their outcomes in their calls, or in the first stretch of a
coroutine. It comes to rest where a plugin fails, where the plugins are all passed, or where one of
them keeps it waiting for a job or for something outside the loop.
-/

namespace Hypertext

set_option autoImplicit false

variable {σ : Type}

/-- The coroutine that is run in place when a result is waited for. -/
def Returned.body? : Returned σ → Option (Body σ)
  | coroutine body _ | awaitable body => some body
  | _ => none

inductive Returned.IsPending : Returned σ → Prop where
  | loop (cancel : World σ → World σ) : IsPending (.loopFuture .pending cancel)
  | pool (cancel : World σ → World σ) : IsPending (.poolFuture .pending cancel)

/-- What the call of a callback plugin leaves: a promise, and a job for every completion callback
that was called. -/
def Shared.promised (shared : Shared σ) (promise : Promise) (call : PluginCall σ) : Shared σ :=
  { shared with
    world := call.world
    promises := shared.promises ++ [promise]
    queue := shared.queue ++ call.completions.map (.settle shared.promises.length) }

namespace Context

def promise (context : Context) (run : Nat) (plugin : Callable) (index : Nat) (awaited : Bool) :
    Promise :=
  ⟨run, plugin.displayName, context.pluginLogger plugin.displayName index, none, awaited⟩

end Context

namespace Chain

/-- A plugin comes to its outcome before its run has to wait. -/
inductive Answers (conduct : Conduct σ) (plugin : Callable) (tree : Slot) (world : World σ) :
    World σ → PluginKind → Outcome Slot → Prop where
  | raised {fault : Fault} (hOutcome : (conduct.plugin plugin tree world).outcome = .error fault) :
    Answers conduct plugin tree world (conduct.plugin plugin tree world).world .sync (.error fault)
  | value {result : Slot}
    (hOutcome : (conduct.plugin plugin tree world).outcome = .ok (.value result)) :
    Answers conduct plugin tree world (conduct.plugin plugin tree world).world .sync (.ok result)
  | body {returned : Returned σ} {body : Body σ} {final : World σ} {outcome : Outcome Slot}
    (hOutcome : (conduct.plugin plugin tree world).outcome = .ok returned)
    (hBody : returned.body? = some body)
    (hStep : stepBody (conduct.plugin plugin tree world).world body = (final, .inl outcome)) :
    Answers conduct plugin tree world final .thenable outcome
  | future {outcome : Outcome Slot} {cancel : World σ → World σ}
    (hOutcome : (conduct.plugin plugin tree world).outcome =
      .ok (.loopFuture (.settled outcome) cancel)) :
    Answers conduct plugin tree world (conduct.plugin plugin tree world).world .thenable
      outcome.awaited

/-- A plugin keeps its run waiting. -/
inductive Defers (conduct : Conduct σ) (run : Nat) (context : Context) (plugin : Callable)
    (index : Nat) (tree : Slot) (shared : Shared σ) : Shared σ → PluginKind → Wait σ → Prop where
  | body {returned : Returned σ} {body rest : Body σ} {world : World σ}
    (hDeclared : plugin.declaredKind ≠ .callback)
    (hOutcome : (conduct.plugin plugin tree shared.world).outcome = .ok returned)
    (hBody : returned.body? = some body)
    (hStep : stepBody (conduct.plugin plugin tree shared.world).world body = (world, .inr rest)) :
    Defers conduct run context plugin index tree shared
      ((shared.withWorld world).post (.resume run none)) .thenable (.body rest)
  | relay {outcome : Outcome Slot} {cancel : World σ → World σ}
    (hDeclared : plugin.declaredKind ≠ .callback)
    (hOutcome : (conduct.plugin plugin tree shared.world).outcome =
      .ok (.poolFuture (.settled outcome) cancel)) :
    Defers conduct run context plugin index tree shared
      ((shared.withWorld (conduct.plugin plugin tree shared.world).world).post
        (.relay (.run run) outcome)) .thenable .relay
  | pending {returned : Returned σ} (hDeclared : plugin.declaredKind ≠ .callback)
    (hOutcome : (conduct.plugin plugin tree shared.world).outcome = .ok returned)
    (hPending : returned.IsPending) :
    Defers conduct run context plugin index tree shared
      (shared.withWorld (conduct.plugin plugin tree shared.world).world) .thenable .pending
  | callback {returned : Returned σ} (hDeclared : plugin.declaredKind = .callback)
    (hOutcome : (conduct.plugin plugin tree shared.world).outcome = .ok returned) :
    Defers conduct run context plugin index tree shared
      ((shared.promised (context.promise run plugin index true)
        (conduct.plugin plugin tree shared.world)).postTask shared.promises.length returned)
      .callback .promise

inductive Advances (conduct : Conduct σ) (run : Nat) (context : Context) :
    List Callable → Nat → Slot → Metrics → Shared σ → Shared σ × Standing σ → Prop where
  | ended {index : Nat} {tree : Slot} {metrics : Metrics} {shared : Shared σ} :
    Advances conduct run context [] index tree metrics shared
      (shared, .finished metrics (.ok tree))
  | failed {plugin : Callable} {rest : List Callable} {index : Nat} {tree : Slot}
    {metrics : Metrics} {shared : Shared σ} {final : World σ} {kind : PluginKind} {fault : Fault}
    (hDeclared : plugin.declaredKind ≠ .callback)
    (hAnswers : Answers conduct plugin tree shared.world final kind (.error fault)) :
    Advances conduct run context (plugin :: rest) index tree metrics shared
      (shared.withWorld final, .finished metrics (.error fault.leaving))
  | refused {plugin : Callable} {rest : List Callable} {index : Nat} {tree : Slot}
    {metrics : Metrics} {shared : Shared σ} {fault : Fault}
    (hDeclared : plugin.declaredKind = .callback)
    (hOutcome : (conduct.plugin plugin tree shared.world).outcome = .error fault) :
    Advances conduct run context (plugin :: rest) index tree metrics shared
      (shared.promised (context.promise run plugin index false)
        (conduct.plugin plugin tree shared.world), .finished metrics (.error fault.leaving))
  | deferred {plugin : Callable} {rest : List Callable} {index : Nat} {tree : Slot}
    {metrics : Metrics} {shared next : Shared σ} {kind : PluginKind} {wait : Wait σ}
    (hDefers : Defers conduct run context plugin index tree shared next kind wait) :
    Advances conduct run context (plugin :: rest) index tree metrics shared
      (next, .paused ⟨plugin, rest, index, tree, metrics, kind, wait⟩)
  | answered {plugin : Callable} {rest : List Callable} {index : Nat} {tree result : Slot}
    {metrics : Metrics} {shared : Shared σ} {final : World σ} {kind : PluginKind}
    {step : Shared σ × Standing σ} (hDeclared : plugin.declaredKind ≠ .callback)
    (hAnswers : Answers conduct plugin tree shared.world final kind (.ok result))
    (hRest : Advances conduct run context rest (index + 1)
      (completed context plugin index tree metrics kind result final).1
      (completed context plugin index tree metrics kind result final).2.1
      (shared.withWorld (completed context plugin index tree metrics kind result final).2.2)
      step) :
    Advances conduct run context (plugin :: rest) index tree metrics shared step

variable {conduct : Conduct σ} {run : Nat} {context : Context}

theorem Advances.of_answers {plugin : Callable} {rest : List Callable} {index : Nat} {tree : Slot}
    {metrics : Metrics} {shared : Shared σ} {final : World σ} {kind : PluginKind}
    {outcome : Outcome Slot} (wait : Wait σ) (hDeclared : plugin.declaredKind ≠ .callback)
    (hAnswers : Answers conduct plugin tree shared.world final kind outcome)
    (hRest : ∀ index tree metrics (shared : Shared σ),
      Advances conduct run context rest index tree metrics shared
        (advance conduct run context rest index tree metrics shared)) :
    Advances conduct run context (plugin :: rest) index tree metrics shared
      (finishStep conduct run context (shared.withWorld final)
        ⟨plugin, rest, index, tree, metrics, kind, wait⟩ outcome) := by
  cases outcome with
  | error fault => exact .failed hDeclared hAnswers
  | ok result => exact .answered hDeclared hAnswers (hRest _ _ _ _)

theorem advance_advances (plugins : List Callable) (index : Nat) (tree : Slot) (metrics : Metrics)
    (shared : Shared σ) :
    Advances conduct run context plugins index tree metrics shared
      (advance conduct run context plugins index tree metrics shared) := by
  induction plugins generalizing index tree metrics shared with
  | nil => exact .ended
  | cons plugin rest ih =>
    rw [advance]
    by_cases hDeclared : plugin.declaredKind = .callback
    · simp only [hDeclared, if_true]
      cases hOutcome : (conduct.plugin plugin tree shared.world).outcome with
      | error fault => exact .refused hDeclared hOutcome
      | ok returned => exact .deferred (.callback hDeclared hOutcome)
    · simp only [hDeclared, if_false]
      -- A coroutine is run in place, whichever way it was handed back.
      have hInPlace (returned : Returned σ) (body : Body σ) {world : World σ}
          {left : Outcome Slot ⊕ Body σ}
          (hOutcome : (conduct.plugin plugin tree shared.world).outcome = .ok returned)
          (hBody : returned.body? = some body)
          (hStep : stepBody (conduct.plugin plugin tree shared.world).world body = (world, left)) :
          Advances conduct run context (plugin :: rest) index tree metrics shared
            (left.elim
              (fun outcome =>
                finishStep conduct run context (shared.withWorld world)
                  ⟨plugin, rest, index, tree, metrics, .thenable, .pending⟩ outcome)
              fun left =>
                ((shared.withWorld world).post (.resume run none),
                  .paused ⟨plugin, rest, index, tree, metrics, .thenable, .body left⟩)) := by
        cases left with
        | inl outcome => exact .of_answers .pending hDeclared (.body hOutcome hBody hStep) ih
        | inr left => exact .deferred (.body hDeclared hOutcome hBody hStep)
      cases hOutcome : (conduct.plugin plugin tree shared.world).outcome with
      | error fault => exact .failed hDeclared (.raised hOutcome)
      | ok returned =>
        cases returned with
        | value result => exact .answered hDeclared (.value hOutcome) (ih _ _ _ _)
        | coroutine body close =>
          obtain ⟨world, left, hStep⟩ : ∃ world left,
              stepBody (shared.withWorld (conduct.plugin plugin tree shared.world).world).world body =
                (world, left) := ⟨_, _, rfl⟩
          have hAdvances := hInPlace _ body hOutcome rfl hStep
          dsimp only
          rw [hStep]
          cases left with
          | inl outcome => exact hAdvances
          | inr left => exact hAdvances
        | awaitable body =>
          obtain ⟨world, left, hStep⟩ : ∃ world left,
              stepBody (shared.withWorld (conduct.plugin plugin tree shared.world).world).world body =
                (world, left) := ⟨_, _, rfl⟩
          have hAdvances := hInPlace _ body hOutcome rfl hStep
          dsimp only
          rw [hStep]
          cases left with
          | inl outcome => exact hAdvances
          | inr left => exact hAdvances
        | loopFuture state cancel =>
          cases state with
          | settled outcome => exact .of_answers .pending hDeclared (.future hOutcome) ih
          | pending => exact .deferred (.pending hDeclared hOutcome (.loop cancel))
        | poolFuture state cancel =>
          cases state with
          | settled outcome => exact .deferred (.relay hDeclared hOutcome)
          | pending => exact .deferred (.pending hDeclared hOutcome (.pool cancel))

end Chain

end Hypertext
