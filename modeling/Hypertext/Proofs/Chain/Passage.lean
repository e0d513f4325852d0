import Hypertext.Proofs.Chain.Steady
import Hypertext.Proofs.Chain.Trace

/-! # How far a chain has come

A chain has passed the plugins whose outcomes it has observed as successes. Each of them was called
with the tree to which the result of the one before was normalized, and in the world that this left.
Of the others the chain has called at most the next, whose outcome it waits for or has failed with.
-/

namespace Hypertext

set_option autoImplicit false

open Chain Shared

variable {σ : Type}

def Job.Brings (run : Nat) (outcome : Outcome Slot) (job : Job σ) : Prop :=
  job = .relay (.run run) outcome ∨
    ∃ taken, outcome.transferred? = some taken ∧ job = .resume run (some taken)

namespace Chain

/-- A coroutine was run in place up to a suspension, whatever happened between its stretches. -/
inductive Leaves : Body σ → Body σ → Prop where
  | first {body left : Body σ} {world next : World σ}
    (hStep : stepBody world body = (next, .inr left)) : Leaves body left
  | later {body middle left : Body σ} {world next : World σ} (hLeaves : Leaves body middle)
    (hStep : stepBody world middle = (next, .inr left)) : Leaves body left

/-- What the call of a plugin came to: the world in which its outcome was observed, and the outcome.
That of a callback plugin is what a coroutine gets that waits for its promise. -/
inductive Came (conduct : Conduct σ) (run : Nat) (context : Context) (promises : List Promise)
    (plugin : Callable) (index : Nat) (tree : Slot) (world : World σ) :
    World σ → PluginKind → Outcome Slot → Prop where
  | answered {observed : World σ} {kind : PluginKind} {outcome : Outcome Slot}
    (hDeclared : plugin.declaredKind ≠ .callback)
    (hAnswers : Answers conduct plugin tree world observed kind outcome) :
    Came conduct run context promises plugin index tree world observed kind outcome
  | body {returned : Returned σ} {body left : Body σ} {before observed : World σ}
    {outcome : Outcome Slot} (hDeclared : plugin.declaredKind ≠ .callback)
    (hOutcome : (conduct.plugin plugin tree world).outcome = .ok returned)
    (hBody : returned.body? = some body) (hLeaves : Leaves body left)
    (hStep : stepBody before left = (observed, .inl outcome)) :
    Came conduct run context promises plugin index tree world observed .thenable outcome
  | relay {observed : World σ} {outcome taken : Outcome Slot} {cancel : World σ → World σ}
    (hDeclared : plugin.declaredKind ≠ .callback)
    (hOutcome : (conduct.plugin plugin tree world).outcome =
      .ok (.poolFuture (.settled outcome) cancel))
    (hTaken : outcome.transferred? = some taken) :
    Came conduct run context promises plugin index tree world observed .thenable taken.awaited
  | pending {returned : Returned σ} {observed : World σ} {outcome : Outcome Slot}
    (hDeclared : plugin.declaredKind ≠ .callback)
    (hOutcome : (conduct.plugin plugin tree world).outcome = .ok returned)
    (hPending : returned.IsPending) :
    Came conduct run context promises plugin index tree world observed .thenable outcome.awaited
  | refused {fault : Fault} (hDeclared : plugin.declaredKind = .callback)
    (hOutcome : (conduct.plugin plugin tree world).outcome = .error fault) :
    Came conduct run context promises plugin index tree world
      (conduct.plugin plugin tree world).world .callback (.error fault)
  | callback {returned : Returned σ} {id : Nat} {observed : World σ} {outcome : Outcome Slot}
    (hDeclared : plugin.declaredKind = .callback)
    (hOutcome : (conduct.plugin plugin tree world).outcome = .ok returned)
    (hPromise : promises[id]? =
      some { context.promise run plugin index true with outcome := some outcome }) :
    Came conduct run context promises plugin index tree world observed .callback outcome.awaited

inductive Passes (conduct : Conduct σ) (run : Nat) (context : Context) (promises : List Promise)
    (first : Slot) (metrics : Metrics) (begun : World σ) :
    List (Called σ) → Slot → Metrics → World σ → Prop where
  | nil : Passes conduct run context promises first metrics begun [] first metrics begun
  | snoc {passed : List (Called σ)} {plugin : Callable} {tree result : Slot} {counted : Metrics}
    {world observed : World σ} {kind : PluginKind}
    (hPasses : Passes conduct run context promises first metrics begun passed tree counted world)
    (hCame : Came conduct run context promises plugin passed.length tree world observed kind
      (.ok result)) :
    Passes conduct run context promises first metrics begun (passed ++ [⟨plugin, tree, world⟩])
      (completed context plugin passed.length tree counted kind result observed).1
      (completed context plugin passed.length tree counted kind result observed).2.1
      (completed context plugin passed.length tree counted kind result observed).2.2

inductive Pends (conduct : Conduct σ) (run : Nat) (carriers : List (Job (Recorded σ)))
    (paused : Paused (Recorded σ)) (world : World σ) : Prop where
  | body {returned : Returned σ} {body left : Body σ}
    (hDeclared : paused.plugin.declaredKind ≠ .callback)
    (hOutcome : (conduct.plugin paused.plugin paused.tree world).outcome = .ok returned)
    (hBody : returned.body? = some body) (hLeaves : Leaves body left)
    (hWait : paused.wait = .body (left.map (Stretch.recorded paused.plugin)))
    (hKind : paused.kind = .thenable)
  | relay {outcome : Outcome Slot} {cancel : World σ → World σ}
    (hDeclared : paused.plugin.declaredKind ≠ .callback)
    (hOutcome : (conduct.plugin paused.plugin paused.tree world).outcome =
      .ok (.poolFuture (.settled outcome) cancel))
    (hWait : paused.wait = .relay) (hKind : paused.kind = .thenable)
    (hCarriers : ∀ job ∈ carriers, job.Brings run outcome)
  | pending {returned : Returned σ} (hDeclared : paused.plugin.declaredKind ≠ .callback)
    (hOutcome : (conduct.plugin paused.plugin paused.tree world).outcome = .ok returned)
    (hPending : returned.IsPending) (hWait : paused.wait = .pending)
    (hKind : paused.kind = .thenable)
  | callback {returned : Returned σ} (hDeclared : paused.plugin.declaredKind = .callback)
    (hOutcome : (conduct.plugin paused.plugin paused.tree world).outcome = .ok returned)
    (hWait : paused.wait = .promise) (hKind : paused.kind = .callback)

/-- Where a chain stands, and the calls on record: the plugins it has passed, and behind them the one
that it waits for or has failed with. A failure leaves the coroutine of the chain. -/
inductive Orderly (conduct : Conduct σ) (run : Nat) (context : Context) (plugins : List Callable)
    (first : Slot) (metrics : Metrics) (begun : World σ) (shared : Shared (Recorded σ)) :
    Standing (Recorded σ) → Prop where
  | paused {waiting : Paused (Recorded σ)} {passed : List (Called σ)} {before : World σ}
    (hPlugins : plugins = passed.map (·.plugin) ++ waiting.plugin :: waiting.rest)
    (hIndex : waiting.index = passed.length)
    (hPasses : Passes conduct run context shared.promises first metrics begun passed waiting.tree
      waiting.metrics before)
    (hCalls : shared.world.calls = passed ++ [⟨waiting.plugin, waiting.tree, before⟩])
    (hPends : Pends conduct run (shared.carriers run) waiting before) :
    Orderly conduct run context plugins first metrics begun shared (.paused waiting)
  | passed {passed : List (Called σ)} {last : Slot} {counted : Metrics}
    (hPlugins : plugins = passed.map (·.plugin))
    (hPasses : Passes conduct run context shared.promises first metrics begun passed last counted
      shared.world.bare)
    (hCalls : shared.world.calls = passed) :
    Orderly conduct run context plugins first metrics begun shared (.finished counted (.ok last))
  | failed {passed : List (Called σ)} {plugin : Callable} {later : List Callable} {last : Slot}
    {counted : Metrics} {before : World σ} {kind : PluginKind} {fault : Fault}
    (hPlugins : plugins = passed.map (·.plugin) ++ plugin :: later)
    (hPasses : Passes conduct run context shared.promises first metrics begun passed last counted
      before)
    (hCalls : shared.world.calls = passed ++ [⟨plugin, last, before⟩])
    (hCame : Came conduct run context shared.promises plugin passed.length last before
      shared.world.bare kind (.error fault)) :
    Orderly conduct run context plugins first metrics begun shared
      (.finished counted (.error fault.leaving))

variable {conduct : Conduct σ} {run : Nat} {context : Context} {promises next : List Promise}
  {plugins : List Callable} {first : Slot} {metrics : Metrics} {begun : World σ}
  {shared : Shared (Recorded σ)} {passed : List (Called σ)}

/-! ## Promises that have an outcome keep it -/

def Lasting (promises next : List Promise) : Prop :=
  ∀ (id : Nat) (promise : Promise), promises[id]? = some promise → promise.outcome ≠ none →
    next[id]? = some promise

theorem Lasting.append (promises more : List Promise) : Lasting promises (promises ++ more) := by
  intro id promise hPromise _
  rw [List.getElem?_append_left (List.getElem?_eq_some_iff.mp hPromise).1]
  exact hPromise

theorem Came.lasting {plugin : Callable} {index : Nat} {tree : Slot} {world observed : World σ}
    {kind : PluginKind} {outcome : Outcome Slot} (hLasting : Lasting promises next)
    (h : Came conduct run context promises plugin index tree world observed kind outcome) :
    Came conduct run context next plugin index tree world observed kind outcome := by
  cases h with
  | answered hDeclared hAnswers => exact .answered hDeclared hAnswers
  | body hDeclared hOutcome hBody hLeaves hStep =>
    exact .body hDeclared hOutcome hBody hLeaves hStep
  | relay hDeclared hOutcome hTaken => exact .relay hDeclared hOutcome hTaken
  | pending hDeclared hOutcome hPending => exact .pending hDeclared hOutcome hPending
  | refused hDeclared hOutcome => exact .refused hDeclared hOutcome
  | callback hDeclared hOutcome hPromise =>
    exact .callback hDeclared hOutcome (hLasting _ _ hPromise (Option.some_ne_none _))

theorem Passes.lasting {last : Slot} {counted : Metrics} {world : World σ}
    (hLasting : Lasting promises next)
    (h : Passes conduct run context promises first metrics begun passed last counted world) :
    Passes conduct run context next first metrics begun passed last counted world := by
  induction h with
  | nil => exact .nil
  | snoc hPasses hCame ih => exact .snoc ih (hCame.lasting hLasting)

theorem Orderly.passive {waiting : Paused (Recorded σ)} {after : Shared (Recorded σ)}
    (h : Orderly conduct run context plugins first metrics begun shared (.paused waiting))
    (hCalls : after.world.calls = shared.world.calls)
    (hLasting : Lasting shared.promises after.promises)
    (hBrings : waiting.wait = .relay → ∀ outcome,
      (∀ job ∈ shared.carriers run, job.Brings run outcome) →
        ∀ job ∈ after.carriers run, job.Brings run outcome) :
    Orderly conduct run context plugins first metrics begun after (.paused waiting) := by
  cases h with
  | paused hPlugins hIndex hPasses hCalled hPends =>
    refine .paused hPlugins hIndex (hPasses.lasting hLasting) (hCalls.trans hCalled) ?_
    cases hPends with
    | body hDeclared hOutcome hBody hLeaves hWait hKind =>
      exact .body hDeclared hOutcome hBody hLeaves hWait hKind
    | relay hDeclared hOutcome hWait hKind hCarriers =>
      exact .relay hDeclared hOutcome hWait hKind (hBrings hWait _ hCarriers)
    | pending hDeclared hOutcome hPending hWait hKind =>
      exact .pending hDeclared hOutcome hPending hWait hKind
    | callback hDeclared hOutcome hWait hKind => exact .callback hDeclared hOutcome hWait hKind

/-! ## Timings -/

theorem Passes.snoc_bare {plugin : Callable} {tree result : Slot} {counted : Metrics}
    {world : World σ} {observed : World (Recorded σ)} {kind : PluginKind}
    (hPasses : Passes conduct run context promises first metrics begun passed tree counted world)
    (hCame : Came conduct run context promises plugin passed.length tree world observed.bare kind
      (.ok result)) :
    Passes conduct run context promises first metrics begun (passed ++ [⟨plugin, tree, world⟩])
      (completed context plugin passed.length tree counted kind result observed).1
      (completed context plugin passed.length tree counted kind result observed).2.1
      (completed context plugin passed.length tree counted kind result observed).2.2.bare := by
  rw [completed_bare]
  exact .snoc hPasses hCame

theorem calls_completed (context : Context) (plugin : Callable) (index : Nat) (tree : Slot)
    (metrics : Metrics) (kind : PluginKind) (result : Slot) (world : World (Recorded σ)) :
    (completed context plugin index tree metrics kind result world).2.2.calls = world.calls := by
  rw [completed_bare]
  rfl

theorem Defers.orderly {plugin : Callable} {rest : List Callable} {tree : Slot} {counted : Metrics}
    {next : Shared (Recorded σ)} {kind : PluginKind} {wait : Wait (Recorded σ)}
    (h : Defers conduct.recorded run context plugin passed.length tree shared next kind wait)
    (hIdle : Idle run shared) (hPlugins : plugins = passed.map (·.plugin) ++ plugin :: rest)
    (hPasses : Passes conduct run context shared.promises first metrics begun passed tree counted
      shared.world.bare)
    (hCalls : shared.world.calls = passed) :
    Orderly conduct run context plugins first metrics begun next
      (.paused ⟨plugin, rest, passed.length, tree, counted, kind, wait⟩) := by
  have hCalled := calls_plugin conduct plugin tree shared.world
  rw [hCalls] at hCalled
  cases h with
  | @body returned body left world hDeclared hOutcome hBody hStep =>
    obtain ⟨original, hOriginal, rfl⟩ := outcome_of_recorded_ok hOutcome
    obtain ⟨body, hReturned, rfl⟩ := body?_recorded hBody
    obtain ⟨left, rfl, hSuspended, hSilent⟩ := stepBody_suspended hStep
    exact .paused hPlugins rfl hPasses (hSilent.trans hCalled)
      (.body hDeclared hOriginal hReturned (.first hSuspended) rfl rfl)
  | @relay outcome cancel hDeclared hOutcome =>
    obtain ⟨original, hOriginal, hSame⟩ := outcome_of_recorded_ok hOutcome
    cases original <;> cases hSame
    refine .paused hPlugins rfl hPasses hCalled (.relay hDeclared hOriginal rfl rfl ?_)
    intro job hJob
    rw [(hIdle.withWorld _).carriers_post rfl] at hJob
    exact Or.inl (List.mem_singleton.mp hJob)
  | pending hDeclared hOutcome hPending =>
    obtain ⟨original, hOriginal, rfl⟩ := outcome_of_recorded_ok hOutcome
    exact .paused hPlugins rfl hPasses hCalled
      (.pending hDeclared hOriginal (isPending_of_recorded hPending) rfl rfl)
  | @callback returned hDeclared hOutcome =>
    obtain ⟨original, hOriginal, -⟩ := outcome_of_recorded_ok hOutcome
    refine .paused hPlugins rfl (hPasses.lasting ?_) ?_ (.callback hDeclared hOriginal rfl rfl)
    · rw [promises_postTask]
      exact .append _ _
    · rw [world_postTask]
      exact hCalled

theorem Advances.orderly {rest : List Callable} {index : Nat} {tree : Slot} {counted : Metrics}
    {step : Shared (Recorded σ) × Standing (Recorded σ)}
    (h : Advances conduct.recorded run context rest index tree counted shared step)
    (hIdle : Idle run shared) (hPlugins : plugins = passed.map (·.plugin) ++ rest)
    (hIndex : index = passed.length)
    (hPasses : Passes conduct run context shared.promises first metrics begun passed tree counted
      shared.world.bare)
    (hCalls : shared.world.calls = passed) :
    Orderly conduct run context plugins first metrics begun step.1 step.2 := by
  induction h generalizing passed with
  | ended => exact .passed (hPlugins.trans (List.append_nil _)) hPasses hCalls
  | failed hDeclared hAnswers =>
    obtain ⟨hBare, hCalled⟩ := hAnswers.of_recorded
    rw [hCalls] at hCalled
    exact .failed hPlugins hPasses hCalled (.answered hDeclared hBare)
  | @refused plugin rest index tree metrics shared fault hDeclared hOutcome =>
    have hCalled := calls_plugin conduct plugin tree shared.world
    rw [hCalls] at hCalled
    exact .failed hPlugins (hPasses.lasting (.append _ _)) hCalled
      (.refused hDeclared (outcome_of_recorded_error hOutcome))
  | deferred hDefers =>
    subst hIndex
    exact hDefers.orderly hIdle hPlugins hPasses hCalls
  | @answered plugin rest index tree result metrics shared final kind step hDeclared hAnswers hRest
      ih =>
    subst hIndex
    obtain ⟨hBare, hCalled⟩ := hAnswers.of_recorded
    rw [hCalls] at hCalled
    refine ih (hIdle.withWorld _) ?_ ?_ (hPasses.snoc_bare (.answered hDeclared hBare)) ?_
    · rw [hPlugins, List.map_append, List.append_assoc]
      rfl
    · rw [List.length_append]
      rfl
    · exact (calls_completed _ _ _ _ metrics _ _ _).trans hCalled

theorem finishStep_orderly {paused : Paused (Recorded σ)} {before : World σ}
    {outcome : Outcome Slot} (hIdle : Idle run shared)
    (hPlugins : plugins = passed.map (·.plugin) ++ paused.plugin :: paused.rest)
    (hIndex : paused.index = passed.length)
    (hPasses : Passes conduct run context shared.promises first metrics begun passed paused.tree
      paused.metrics before)
    (hCalls : shared.world.calls = passed ++ [⟨paused.plugin, paused.tree, before⟩])
    (hCame : Came conduct run context shared.promises paused.plugin passed.length paused.tree before
      shared.world.bare paused.kind outcome) :
    Orderly conduct run context plugins first metrics begun
      (finishStep conduct.recorded run context shared paused outcome).1
      (finishStep conduct.recorded run context shared paused outcome).2 := by
  cases outcome with
  | error fault => exact .failed hPlugins hPasses hCalls hCame
  | ok result =>
    rw [finishStep, hIndex]
    refine (advance_advances _ _ _ _ _).orderly (hIdle.withWorld _) ?_ ?_
      (hPasses.snoc_bare hCame) ?_
    · rw [hPlugins, List.map_append, List.append_assoc]
      rfl
    · rw [List.length_append]
      rfl
    · exact (calls_completed _ _ _ _ paused.metrics _ _ _).trans hCalls

variable {world : World (Recorded σ)} {queue : List (Job (Recorded σ))}

theorem wake_orderly {waiting : Paused (Recorded σ)} {outcome : Option (Outcome Slot)}
    (hWaits : Waits run context ⟨world, .resume run outcome :: queue, promises⟩ waiting)
    (h : Orderly conduct run context plugins first metrics begun
      ⟨world, .resume run outcome :: queue, promises⟩ (.paused waiting)) :
    Orderly conduct run context plugins first metrics begun
      (wake conduct.recorded run context ⟨world, queue, promises⟩ waiting outcome).1
      (wake conduct.recorded run context ⟨world, queue, promises⟩ waiting outcome).2 := by
  obtain ⟨hIdle, hResumed⟩ := hWaits.resumed
  cases h with
  | @paused _ passed before hPlugins hIndex hPasses hCalls hPends =>
    have hGoOn (value : Outcome Slot)
        (hWait : waiting.wait = .promise ∨ waiting.wait = .relay ∨ waiting.wait = .pending)
        (hCame : Came conduct run context promises waiting.plugin passed.length waiting.tree before
          world.bare waiting.kind value.awaited) :
        Orderly conduct run context plugins first metrics begun
          (wake conduct.recorded run context ⟨world, queue, promises⟩ waiting (some value)).1
          (wake conduct.recorded run context ⟨world, queue, promises⟩ waiting (some value)).2 := by
      rw [wake_some hWait]
      exact finishStep_orderly hIdle hPlugins hIndex hPasses hCalls hCame
    cases hPends with
    | @body returned body left hDeclared hOutcome hBody hLeaves hWait hKind =>
      rcases hResumed with ⟨rest, -, rfl⟩ | ⟨value, -, hOther⟩
      · -- The next stretch ends the coroutine, or it is suspended again.
        simp only [wake, hWait]
        cases hStep : stepBody world (left.map (Stretch.recorded waiting.plugin)) with
        | mk after ended =>
          cases ended with
          | inl ended =>
            obtain ⟨hEnded, hSilent⟩ := stepBody_ended hStep
            refine finishStep_orderly (hIdle.withWorld after) hPlugins hIndex hPasses
              (hSilent.trans hCalls) ?_
            rw [hKind]
            exact .body hDeclared hOutcome hBody hLeaves hEnded
          | inr rest =>
            obtain ⟨left, rfl, hSuspended, hSilent⟩ := stepBody_suspended hStep
            exact .paused hPlugins hIndex hPasses (hSilent.trans hCalls)
              (.body hDeclared hOutcome hBody (.later hLeaves hSuspended) rfl hKind)
      · rw [hWait] at hOther
        rcases hOther with hOther | hOther | hOther <;> cases hOther
    | relay hDeclared hOutcome hWait hKind hCarriers =>
      have hHead := hCarriers (.resume run outcome) (by
        rw [carriers_cons rfl]
        exact List.mem_cons_self)
      rcases hHead with hHead | ⟨taken, hTaken, hHead⟩
      · cases hHead
      · obtain rfl := (Job.resume.inj hHead).2
        refine hGoOn taken (Or.inr (Or.inl hWait)) ?_
        rw [hKind]
        exact .relay hDeclared hOutcome hTaken
    | pending hDeclared hOutcome hPending hWait hKind =>
      rcases hResumed with ⟨rest, hOther, -⟩ | ⟨value, rfl, -⟩
      · cases hWait.symm.trans hOther
      · refine hGoOn value (Or.inr (Or.inr hWait)) ?_
        rw [hKind]
        exact .pending hDeclared hOutcome hPending
    | callback hDeclared hOutcome hWait hKind =>
      obtain ⟨id, value, rfl, hPromise⟩ := hWaits.resumed_promise hWait
      refine hGoOn value (Or.inl hWait) ?_
      rw [hKind]
      rw [hIndex] at hPromise
      exact .callback hDeclared hOutcome hPromise

end Chain

end Hypertext
