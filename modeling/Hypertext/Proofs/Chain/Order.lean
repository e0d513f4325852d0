import Hypertext.Proofs.Chain.Silence
import Hypertext.Proofs.Pipeline.Stages

/-! # Plugins are called in order

Whatever happens to the loop of a run, its plugins are called in the order of the chain and each at
most once. A plugin is called when the outcome of the one before was observed as a success, with the
tree to which the result was normalized. The first failure ends the run with that failure, and no
plugin is called after it.
-/

namespace Hypertext

set_option autoImplicit false

open Chain Shared

variable {σ ρ : Type}

/-! ## A run and its record -/

namespace Routine

inductive Begins (routine : Routine (Recorded σ) ρ) :
    Launch (Recorded σ) ρ → Slot → World σ → Prop where
  | chain {world prepared : World (Recorded σ)} {launch : Launch (Recorded σ) ρ} {first : Slot}
    {store : Store} (hPrepare : routine.prepare world = (prepared, .inr launch))
    (hAttach : prepared.store.attach launch.tree (some launch.context.options) =
      (.ok first, store)) :
    Begins routine launch first (prepared.withStore store).bare

inductive Refuses (routine : Routine (Recorded σ) ρ) : ρ → Prop where
  | prepare {world prepared : World (Recorded σ)} {result : ρ}
    (hPrepare : routine.prepare world = (prepared, .inl result)) : Refuses routine result
  | tree {world prepared : World (Recorded σ)} {launch : Launch (Recorded σ) ρ} {fault : Fault}
    {store : Store} (hPrepare : routine.prepare world = (prepared, .inr launch))
    (hAttach : prepared.store.attach launch.tree (some launch.context.options) =
      (.error fault, store)) :
    Refuses routine (launch.conclude ⟨prepared, launch.metrics, .error fault⟩).2

structure IsSilent (routine : Routine (Recorded σ) ρ) : Prop where
  prepare : ∀ world, (routine.prepare world).1.calls = world.calls
  conclude : ∀ world prepared launch, routine.prepare world = (prepared, .inr launch) →
    ∀ chain, (launch.conclude chain).1.calls = chain.world.calls

end Routine

namespace Loop

/-- Where the only run of a loop stands, with the calls on record. -/
inductive InOrder (conduct : Conduct σ) (routine : Routine (Recorded σ) ρ)
    (loop : Loop (Recorded σ) ρ) : Prop where
  | fresh (hRuns : loop.runs = [.fresh routine]) (hCalls : loop.shared.world.calls = [])
  | refused {result : ρ} (hRuns : loop.runs = [.ended result])
    (hCalls : loop.shared.world.calls = []) (hRefuses : routine.Refuses result)
  | active {launch : Launch (Recorded σ) ρ} {waiting : Paused (Recorded σ)} {first : Slot}
    {begun : World σ} (hRuns : loop.runs = [.active launch waiting])
    (hBegins : routine.Begins launch first begun)
    (hOrderly : Orderly conduct 0 launch.context routine.plugins first launch.metrics begun
      loop.shared (.paused waiting))
  | ended {launch : Launch (Recorded σ) ρ} {first : Slot} {begun : World σ}
    {last : Shared (Recorded σ)} {counted : Metrics} {outcome : Outcome Slot}
    (hRuns : loop.runs = [.ended (launch.conclude ⟨last.world, counted, outcome⟩).2])
    (hBegins : routine.Begins launch first begun)
    (hOrderly : Orderly conduct 0 launch.context routine.plugins first launch.metrics begun last
      (.finished counted outcome))
    (hCalls : loop.shared.world.calls = last.world.calls)

variable {conduct : Conduct σ} {routine : Routine (Recorded σ) ρ} {run : Nat}
  {loop : Loop (Recorded σ) ρ} {state : RunState (Recorded σ) ρ}
  {shared next : Shared (Recorded σ)} {runs : List (RunState (Recorded σ) ρ)}

theorem InOrder.passive (h : InOrder conduct routine ⟨shared, runs⟩)
    (hCalls : next.world.calls = shared.world.calls)
    (hLasting : Lasting shared.promises next.promises)
    (hBrings : ∀ launch waiting, runs = [.active launch waiting] → waiting.wait = .relay →
      ∀ outcome, (∀ job ∈ shared.carriers 0, job.Brings 0 outcome) →
        ∀ job ∈ next.carriers 0, job.Brings 0 outcome) :
    InOrder conduct routine ⟨next, runs⟩ := by
  cases h with
  | fresh hRuns hNone => exact .fresh hRuns (hCalls.trans hNone)
  | refused hRuns hNone hRefuses => exact .refused hRuns (hCalls.trans hNone) hRefuses
  | ended hRuns hBegins hOrderly hLast => exact .ended hRuns hBegins hOrderly (hCalls.trans hLast)
  | active hRuns hBegins hOrderly =>
    exact .active hRuns hBegins (hOrderly.passive hCalls hLasting (hBrings _ _ hRuns))

/-! ## Beginning and going on -/

theorem stand_inOrder {launch : Launch (Recorded σ) ρ} {first : Slot} {begun : World σ}
    {step : Shared (Recorded σ) × Standing (Recorded σ)} (hRuns : loop.runs = [state])
    (hRoutine : routine.IsSilent) (hBegins : routine.Begins launch first begun)
    (hOrderly : Orderly conduct 0 launch.context routine.plugins first launch.metrics begun step.1
      step.2) :
    InOrder conduct routine (loop.stand 0 launch step) := by
  have hSet (state : RunState (Recorded σ) ρ) : loop.runs.set 0 state = [state] := by
    rw [hRuns]
    rfl
  obtain ⟨shared, standing⟩ := step
  cases standing with
  | paused waiting => exact .active (hSet _) hBegins hOrderly
  | finished counted outcome =>
    refine .ended (hSet _) hBegins hOrderly ?_
    cases hBegins with
    | chain hPrepare => exact hRoutine.conclude _ _ _ hPrepare _

theorem startRun_inOrder (hRuns : loop.runs = [.fresh routine]) (hRoutine : routine.IsSilent)
    (hIdle : Idle 0 loop.shared) (hCalls : loop.shared.world.calls = []) :
    InOrder conduct routine (loop.startRun conduct.recorded 0 routine) := by
  have hSet (state : RunState (Recorded σ) ρ) : loop.runs.set 0 state = [state] := by
    rw [hRuns]
    rfl
  have hPrepared := (hRoutine.prepare loop.shared.world).trans hCalls
  rw [startRun]
  cases hPrepare : routine.prepare loop.shared.world with
  | mk prepared outcome =>
    rw [hPrepare] at hPrepared
    cases outcome with
    | inl result => exact .refused (hSet _) hPrepared (.prepare hPrepare)
    | inr launch =>
      cases hAttach : prepared.store.attach launch.tree (some launch.context.options) with
      | mk attached store =>
        simp only [hAttach]
        cases attached with
        | error fault =>
          refine .refused (hSet _) ?_ (.tree hPrepare hAttach)
          exact (hRoutine.conclude _ _ _ hPrepare _).trans hPrepared
        | ok first =>
          refine stand_inOrder hRuns hRoutine (.chain hPrepare hAttach) ?_
          exact (advance_advances _ _ _ _ _).orderly (hIdle.withWorld _) (List.nil_append _).symm rfl
            .nil hPrepared

/-! ## Jobs -/

structure PassesBy (job : Job (Recorded σ)) (shared next : Shared (Recorded σ)) : Prop where
  silent : next.IsSilent
  calls_eq : next.world.calls = shared.world.calls
  lasting : Lasting shared.promises next.promises
  carriers : Free 0 shared.promises → next.carriers 0 = shared.carriers 0 ∨
    ∃ outcome taken, job = .relay (.run 0) outcome ∧ outcome.transferred? = some taken ∧
      next.carriers 0 = shared.carriers 0 ++ [.resume 0 (some taken)]

theorem PassesBy.same {job : Job (Recorded σ)} (hSilent : shared.IsSilent) :
    PassesBy job shared shared :=
  ⟨hSilent, rfl, fun _ _ hPromise _ => hPromise, fun _ => Or.inl rfl⟩

theorem PassesBy.settles {job : Job (Recorded σ)} {id : Nat} (hSilent : shared.IsSilent)
    (h : shared.Settles id next) : PassesBy job shared next :=
  ⟨h.isSilent hSilent, h.calls_eq, h.lasting, fun hFree => Or.inl (h.carriers_eq hFree)⟩

theorem PassesBy.grows {job : Job (Recorded σ)} {touched : Nat → Prop} (hNext : next.IsSilent)
    (hCalls : next.world.calls = shared.world.calls) (h : Grows touched shared next)
    (hRun : ¬ touched 0) : PassesBy job shared next :=
  ⟨hNext, hCalls, h.lasting, fun _ => Or.inl (h.carriers_eq hRun)⟩

theorem perform_cases (hSilent : shared.IsSilent) {job : Job (Recorded σ)} (hJob : job.IsSilent)
    (hId : ∀ id, job.promise? = some id → id < shared.promises.length) :
    (job = .start 0 ∧ ∃ routine, state = .fresh routine) ∨
      (∃ outcome launch waiting, job = .resume 0 outcome ∧ state = .active launch waiting) ∨
      ∃ next, perform conduct.recorded ⟨shared, [state]⟩ job = ⟨next, [state]⟩ ∧
        PassesBy job shared next := by
  cases job with
  | settle id completion =>
    exact Or.inr (Or.inr ⟨_, rfl, .settles hSilent (shared.settle_settles id completion)⟩)
  | taskEnded id outcome =>
    exact Or.inr (Or.inr ⟨_, rfl, .settles hSilent (shared.endTask_settles id outcome)⟩)
  | task id task =>
    have hGrows : Grows (fun _ => False) shared (shared.stepTask id task) :=
      .stepTask (hId id rfl) task
    obtain ⟨hNext, hCalls⟩ := hSilent.stepTask id hJob
    exact Or.inr (Or.inr ⟨_, rfl, .grows hNext hCalls hGrows fun hTouched => hTouched⟩)
  | start run =>
    cases run with
    | succ run => exact Or.inr (Or.inr ⟨shared, rfl, .same hSilent⟩)
    | zero =>
      cases state with
      | fresh routine => exact Or.inl ⟨rfl, routine, rfl⟩
      | active | ended => exact Or.inr (Or.inr ⟨shared, rfl, .same hSilent⟩)
  | resume run outcome =>
    cases run with
    | succ run => exact Or.inr (Or.inr ⟨shared, rfl, .same hSilent⟩)
    | zero =>
      cases state with
      | active launch waiting => exact Or.inr (Or.inl ⟨outcome, launch, waiting, rfl, rfl⟩)
      | fresh | ended => exact Or.inr (Or.inr ⟨shared, rfl, .same hSilent⟩)
  | relay waiter outcome =>
    refine Or.inr (Or.inr ?_)
    cases hTaken : outcome.transferred? with
    | none => exact ⟨shared, perform_refused _ _ waiter hTaken, .same hSilent⟩
    | some taken =>
      cases waiter with
      | task id =>
        have hGrows : Grows (fun _ => False) shared (shared.post (.task id (.ready taken))) :=
          .about rfl rfl (hId id rfl)
        simp only [Loop.perform, hTaken]
        exact ⟨_, rfl, .grows (hSilent.post trivial) rfl hGrows fun hTouched => hTouched⟩
      | run run =>
        have hGrows : Grows (· = run) shared (shared.post (.resume run (some taken))) :=
          .carried rfl rfl
        simp only [Loop.perform, hTaken]
        by_cases hRun : run = 0
        · subst hRun
          exact ⟨_, rfl, hSilent.post trivial, rfl, hGrows.lasting,
            fun _ => Or.inr ⟨outcome, taken, rfl, hTaken, carriers_post rfl⟩⟩
        · exact ⟨_, rfl, .grows (hSilent.post trivial) rfl hGrows (Ne.symm hRun)⟩

/-- A run whose place is known, on a loop in which nothing else calls plugins. -/
structure Ordered (conduct : Conduct σ) (routine : Routine (Recorded σ) ρ)
    (loop : Loop (Recorded σ) ρ) : Prop where
  steady : Steady loop
  silent : loop.shared.IsSilent
  inOrder : InOrder conduct routine loop

theorem InOrder.exists_runs (h : InOrder conduct routine loop) : ∃ state, loop.runs = [state] := by
  cases h with
  | fresh hRuns | refused hRuns | active hRuns | ended hRuns => exact ⟨_, hRuns⟩

theorem stand_isSilent (loop : Loop (Recorded σ) ρ) (launch : Launch (Recorded σ) ρ)
    {step : Shared (Recorded σ) × Standing (Recorded σ)} (hStep : step.1.IsSilent) :
    (loop.stand run launch step).shared.IsSilent := by
  obtain ⟨shared, standing⟩ := step
  cases standing <;> exact hStep

theorem startRun_isSilent (loop : Loop (Recorded σ) ρ) (routine : Routine (Recorded σ) ρ)
    (hSilent : loop.shared.IsSilent) :
    (loop.startRun conduct.recorded run routine).shared.IsSilent := by
  rw [startRun]
  split
  · exact hSilent
  · split
    · exact stand_isSilent _ _ hSilent
    · exact stand_isSilent _ _ ((advance_advances _ _ _ _ _).isSilent hSilent)

theorem Ordered.passesBy {before : Shared (Recorded σ)} {job : Job (Recorded σ)}
    (h : Ordered conduct routine ⟨before, [state]⟩) (hPasses : PassesBy job shared next)
    (hCalls : shared.world.calls = before.world.calls) (hPromises : shared.promises = before.promises)
    (hBrings : ∀ outcome, (∀ other ∈ before.carriers 0, other.Brings 0 outcome) →
      (∀ other ∈ shared.carriers 0, other.Brings 0 outcome) ∧
        (job.run? = some 0 → job.Brings 0 outcome)) :
    InOrder conduct routine ⟨next, [state]⟩ := by
  refine h.inOrder.passive (hPasses.calls_eq.trans hCalls) (hPromises ▸ hPasses.lasting) ?_
  intro launch waiting hActive hRelay outcome hCarriers
  obtain ⟨hRest, hJob⟩ := hBrings outcome hCarriers
  have hWaits := h.steady.rests 0
  cases hActive
  have hFree : Free 0 before.promises := Waits.free hWaits (by rw [hRelay]; rintro ⟨⟩)
  rcases hPasses.carriers (hPromises ▸ hFree) with hSame | ⟨value, taken, rfl, hTaken, hMore⟩
  · rwa [hSame]
  · rw [hMore]
    refine List.forall_mem_append.mpr ⟨hRest, List.forall_mem_singleton.mpr (Or.inr ?_)⟩
    rcases hJob rfl with hHead | ⟨_, _, hHead⟩
    · cases hHead
      exact ⟨taken, hTaken, rfl⟩
    · cases hHead

theorem Ordered.start (h : Ordered conduct routine loop) (hRoutine : routine.IsSilent) (run : Nat) :
    InOrder conduct routine (loop.perform conduct.recorded (.start run)) ∧
      (loop.perform conduct.recorded (.start run)).shared.IsSilent := by
  obtain ⟨state, hRuns⟩ := h.inOrder.exists_runs
  obtain ⟨shared, runs⟩ := loop
  obtain rfl : runs = [state] := hRuns
  rcases @perform_cases _ _ conduct state _ h.silent (.start run) trivial (by rintro id ⟨⟩) with
    ⟨hJob, fresh, rfl⟩ | ⟨_, _, _, hJob, -⟩ | ⟨next, hPerform, hPasses⟩
  · cases hJob
    cases h.inOrder with
    | refused hOther | active hOther | ended hOther => cases hOther
    | fresh hFresh hNone =>
      cases hFresh
      exact ⟨startRun_inOrder rfl hRoutine (h.steady.rests 0) hNone, startRun_isSilent _ _ h.silent⟩
  · cases hJob
  · rw [hPerform]
    refine ⟨h.passesBy hPasses rfl rfl fun outcome hBrings => ⟨hBrings, ?_⟩, hPasses.silent⟩
    rintro ⟨⟩

theorem Ordered.perform {world : World (Recorded σ)} {job : Job (Recorded σ)}
    {queue : List (Job (Recorded σ))} {promises : List Promise}
    (h : Ordered conduct routine ⟨⟨world, job :: queue, promises⟩, runs⟩)
    (hRoutine : routine.IsSilent) :
    InOrder conduct routine (Loop.perform conduct.recorded ⟨⟨world, queue, promises⟩, runs⟩ job) ∧
      (Loop.perform conduct.recorded ⟨⟨world, queue, promises⟩, runs⟩ job).shared.IsSilent := by
  have hJob : job.IsSilent := h.silent job List.mem_cons_self
  have hSilent : (⟨world, queue, promises⟩ : Shared (Recorded σ)).IsSilent :=
    (List.forall_mem_cons.mp h.silent).2
  obtain ⟨state, hRuns⟩ := h.inOrder.exists_runs
  obtain rfl : runs = [state] := hRuns
  rcases @perform_cases _ _ conduct state ⟨world, queue, promises⟩ hSilent job hJob
      (h.steady.made job List.mem_cons_self) with
    ⟨rfl, fresh, rfl⟩ | ⟨outcome, launch, waiting, rfl, rfl⟩ | ⟨next, hPerform, hPasses⟩
  · cases h.inOrder with
    | refused hOther | active hOther | ended hOther => cases hOther
    | fresh hFresh hNone =>
      cases hFresh
      have hRests : RunState.Rests 0 ⟨world, queue, promises⟩ _ :=
        h.steady.rests_tail (by rintro ⟨⟩)
      exact ⟨startRun_inOrder rfl hRoutine hRests hNone, startRun_isSilent _ _ hSilent⟩
  · cases h.inOrder with
    | fresh hOther | refused hOther | ended hOther => cases hOther
    | active hActive hBegins hOrderly =>
      cases hActive
      exact ⟨stand_inOrder rfl hRoutine hBegins (wake_orderly (h.steady.rests 0) hOrderly),
        stand_isSilent _ _ (wake_isSilent hSilent waiting outcome)⟩
  · rw [hPerform]
    refine ⟨h.passesBy hPasses rfl rfl fun outcome hBrings => ⟨?_, ?_⟩, hPasses.silent⟩
    · intro other hOther
      exact hBrings other (((List.sublist_cons_self job queue).filter _).subset hOther)
    · intro hRun
      refine hBrings job ?_
      rw [carriers_cons hRun]
      exact List.mem_cons_self

theorem Ordered.ended {result : ρ} (h : Ordered conduct routine loop)
    (hEnded : loop.runs = [.ended result]) (happening : Happening σ) :
    (loop.happen conduct.recorded happening.recorded).runs = [.ended result] ∧
      (loop.happen conduct.recorded happening.recorded).shared.world.calls =
        loop.shared.world.calls := by
  obtain ⟨⟨world, queue, promises⟩, runs⟩ := loop
  obtain rfl : runs = [.ended result] := hEnded
  have hPerform (queue : List (Job (Recorded σ))) (job : Job (Recorded σ))
      (hSilent : (⟨world, queue, promises⟩ : Shared (Recorded σ)).IsSilent) (hJob : job.IsSilent)
      (hId : ∀ id, job.promise? = some id → id < promises.length) :
      (Loop.perform conduct.recorded ⟨⟨world, queue, promises⟩, [.ended result]⟩ job).runs =
          [.ended result] ∧
        (Loop.perform conduct.recorded ⟨⟨world, queue, promises⟩, [.ended result]⟩
          job).shared.world.calls = world.calls := by
    rcases @perform_cases _ _ conduct (.ended result) ⟨world, queue, promises⟩ hSilent job hJob hId
      with ⟨_, _, hState⟩ | ⟨_, _, _, _, hState⟩ | ⟨next, hNext, hPasses⟩
    · cases hState
    · cases hState
    · rw [hNext]
      exact ⟨rfl, hPasses.calls_eq⟩
  cases happening with
  | change act => exact ⟨rfl, rfl⟩
  | start run => exact hPerform queue (.start run) h.silent trivial (by rintro id ⟨⟩)
  | hand handed =>
    simp only [Happening.recorded, happen]
    split <;> exact ⟨rfl, rfl⟩
  | job =>
    cases queue with
    | nil => exact ⟨rfl, rfl⟩
    | cons job queue =>
      exact hPerform queue job (List.forall_mem_cons.mp h.silent).2 (h.silent job List.mem_cons_self)
        (h.steady.made job List.mem_cons_self)

end Loop

/-! ## Silent routines -/

namespace Processing

variable {conduct : Conduct σ} {context : Context} {world : World (Recorded σ)}

theorem stages_deeds (conduct : Conduct σ) :
    Stages conduct.recorded fun before after => after.deeds = before.deeds where
  trans hFirst hSecond := hSecond.trans hFirst
  change _ _ _ := rfl
  collaborator _ _ _ _ := rfl

theorem deeds_fail (correlationId : Value) (fault : Fault) :
    (fail world correlationId fault).deeds = world.deeds := by
  rw [fail]
  split <;> rfl

theorem deeds_conclude (chain : ChainEnd (Recorded σ)) :
    (conclude conduct.recorded context chain).1.deeds = chain.world.deeds := by
  obtain ⟨world, metrics, outcome⟩ := chain
  cases outcome with
  | error fault => exact deeds_fail _ fault
  | ok tree =>
    have hFinish := (stages_deeds conduct).finish context tree metrics world
    cases hEnded : finish conduct.recorded context tree metrics world with
    | mk result next =>
      rw [hEnded] at hFinish
      simp only [conclude, hEnded]
      cases result with
      | error fault => exact (deeds_fail _ fault).trans hFinish
      | ok result => exact hFinish

theorem isSilent_routine (conduct : Conduct σ) (brief : Brief) :
    (routine conduct.recorded brief).IsSilent := by
  have hPrepare (world : World (Recorded σ)) :
      ((routine conduct.recorded brief).prepare world).1.deeds = world.deeds := by
    simp only [routine]
    split
    · exact deeds_fail _ _
    · rename_i context next hContext
      have hLoad := (stages_deeds conduct).loadTree context brief.source
        (logStart next context brief.plugins "async")
      have hNext := (stages_deeds conduct).briefContext hContext
      split
      · rename_i fault last hLoaded
        rw [hLoaded] at hLoad
        exact (deeds_fail _ fault).trans (hLoad.trans hNext)
      · rename_i tree last hLoaded
        rw [hLoaded] at hLoad
        exact hLoad.trans hNext
  constructor
  · intro world
    exact congrArg (List.filterMap Deed.called?) (hPrepare world)
  · intro world prepared launch hLaunch chain
    simp only [routine] at hLaunch
    split at hLaunch
    · cases hLaunch
    · split at hLaunch
      · cases hLaunch
      · cases hLaunch
        exact congrArg (List.filterMap Deed.called?) (deeds_conclude chain)

end Processing

/-! ## Order -/

/-- A plugin raises the end of an iteration, or calls its completion callback with it. -/
def Conduct.stopping (raises : Bool) : Conduct Unit where
  plugin _ _ world :=
    let stop : Failure := .ofName "StopIteration" "x"
    if raises then ⟨world, [], .error (.raised stop)⟩
    else ⟨world, [⟨.atom (.failure stop), .none⟩], .ok (.value .none)⟩
  collaborator _ subject _ world := (.ok subject, world)
  files _ := .missing
  freshId _ := ""
  depth := 0

/-- The end of an iteration comes out of a run in blocking mode as it is, and as another failure out of
one in the other mode. A callback that is called with it leaves the run waiting on an empty queue. -/
theorem plugins_called_in_order_stopped :
    let plain : Callable := ⟨0, .function, "plain", none, false, []⟩
    let parameters : List Param := [⟨"tree", .position, false⟩, ⟨"done", .position, false⟩]
    let callback : Callable := ⟨0, .function, "callback", some parameters, false, []⟩
    let brief (plugin : Callable) : Brief := ⟨.atom (.str ""), .inl ⟨0⟩, [], [plugin]⟩
    let text (outcome : Outcome ProcessResult) : String :=
      match outcome with
      | .error fault => fault.text
      | .ok _ => ""
    let loop (raises : Bool) (plugin : Callable) :=
      (Loop.ofRoutines World.made [Processing.routine (.stopping raises) (brief plugin)]).play
        (.stopping raises) [.start 0, .job]
    text (Processing.blocking (.stopping true) (brief plain) World.made).2 = "x" ∧
      ((loop true plain).result? 0).map text = some "coroutine raised StopIteration" ∧
      ((loop true callback).result? 0).map text = some "coroutine raised StopIteration" ∧
      ((loop false callback).result? 0).map text = none ∧
      (loop false callback).shared.queue.isEmpty = true ∧
      (loop false callback).shared.promises.map (·.outcome.isNone) = [true] := by
  decide +kernel

end Hypertext
