import Hypertext.Proofs.Chain.Happening

/-! # What runs wait for

Of a run that waits, the queue holds at most one job that carries it on, and of the promises of
callback plugins at most one is open that it waits for. A run that waits for a promise is carried on
by nothing while the promise is open, and by one job with its outcome after that. This holds whatever
happens to a loop.
-/

namespace Hypertext

set_option autoImplicit false

open Chain

variable {σ ρ : Type}

namespace Shared

/-! ## Growth -/

/-- Jobs and promises are added: jobs about promises that there are, carrying on only the runs that
are touched, and open promises of only those. -/
structure Grows (touched : Nat → Prop) (shared next : Shared σ) : Prop where
  queue : ∃ jobs, next.queue = shared.queue ++ jobs ∧
    ∀ job ∈ jobs, (∀ run, job.run? = some run → touched run) ∧
      ∀ id, job.promise? = some id → id < next.promises.length
  promises : ∃ more, next.promises = shared.promises ++ more ∧
    ∀ promise ∈ more, touched promise.run ∧ promise.outcome = none

variable {touched : Nat → Prop} {shared next last : Shared σ}

theorem Grows.refl (shared : Shared σ) (world : World σ) :
    Grows touched shared (shared.withWorld world) where
  queue := ⟨[], (List.append_nil _).symm, fun _ hJob => absurd hJob List.not_mem_nil⟩
  promises := ⟨[], (List.append_nil _).symm, fun _ hPromise => absurd hPromise List.not_mem_nil⟩

theorem Grows.length_le (h : Grows touched shared next) :
    shared.promises.length ≤ next.promises.length := by
  obtain ⟨more, hMore, -⟩ := h.promises
  rw [hMore, List.length_append]
  exact Nat.le_add_right _ _

theorem Grows.trans (h : Grows touched shared next) (hNext : Grows touched next last) :
    Grows touched shared last := by
  obtain ⟨jobs, hJobs, hFirst⟩ := h.queue
  obtain ⟨others, hOthers, hLast⟩ := hNext.queue
  obtain ⟨more, hMore, hOpen⟩ := h.promises
  obtain ⟨still, hStill, hOpen'⟩ := hNext.promises
  constructor
  · refine ⟨jobs ++ others, by rw [hOthers, hJobs, List.append_assoc], ?_⟩
    intro job hJob
    rcases List.mem_append.mp hJob with hJob | hJob
    · obtain ⟨hRun, hId⟩ := hFirst job hJob
      exact ⟨hRun, fun id h => Nat.lt_of_lt_of_le (hId id h) hNext.length_le⟩
    · exact hLast job hJob
  · refine ⟨more ++ still, by rw [hStill, hMore, List.append_assoc], ?_⟩
    intro promise hPromise
    rcases List.mem_append.mp hPromise with hPromise | hPromise
    · exact hOpen promise hPromise
    · exact hOpen' promise hPromise

theorem Grows.mono {other : Nat → Prop} (h : Grows touched shared next)
    (hOther : ∀ run, touched run → other run) : Grows other shared next := by
  obtain ⟨jobs, hJobs, hCarry⟩ := h.queue
  obtain ⟨more, hMore, hOpen⟩ := h.promises
  constructor
  · exact ⟨jobs, hJobs, fun job hJob =>
      ⟨fun run hRun => hOther run ((hCarry job hJob).1 run hRun), (hCarry job hJob).2⟩⟩
  · exact ⟨more, hMore, fun promise hPromise =>
      ⟨hOther _ (hOpen promise hPromise).1, (hOpen promise hPromise).2⟩⟩

theorem Grows.postAll {jobs : List (Job σ)}
    (hRun : ∀ job ∈ jobs, ∀ run, job.run? = some run → touched run)
    (hId : ∀ job ∈ jobs, ∀ id, job.promise? = some id → id < shared.promises.length) :
    Grows touched shared (shared.postAll jobs) where
  queue := ⟨jobs, rfl, fun job hJob => ⟨hRun job hJob, hId job hJob⟩⟩
  promises := ⟨[], (List.append_nil _).symm, fun _ hPromise => absurd hPromise List.not_mem_nil⟩

theorem Grows.post {job : Job σ} (hRun : ∀ run, job.run? = some run → touched run)
    (hId : ∀ id, job.promise? = some id → id < shared.promises.length) :
    Grows touched shared (shared.post job) := by
  apply @Grows.postAll _ _ _ [job]
  · rintro _ hJob
    rw [List.mem_singleton.mp hJob]
    exact hRun
  · rintro _ hJob
    rw [List.mem_singleton.mp hJob]
    exact hId

theorem Grows.settles {id : Nat} (hId : id < shared.promises.length)
    (completions : List Completion) :
    Grows touched shared (shared.postAll (completions.map (.settle id))) := by
  apply Grows.postAll
  · intro job hJob run hRun
    obtain ⟨completion, -, rfl⟩ := List.mem_map.mp hJob
    cases hRun
  · intro job hJob other hOther
    obtain ⟨completion, -, rfl⟩ := List.mem_map.mp hJob
    exact Option.some.inj hOther ▸ hId

theorem Grows.about {job : Job σ} {id : Nat} (hRun : job.run? = none) (hJob : job.promise? = some id)
    (hId : id < shared.promises.length) : Grows touched shared (shared.post job) := by
  apply Grows.post
  · intro run h
    cases hRun.symm.trans h
  · intro other h
    cases hJob.symm.trans h
    exact hId

theorem Grows.carried {job : Job σ} {run : Nat} (hRun : job.run? = some run)
    (hJob : job.promise? = none) : Grows (· = run) shared (shared.post job) := by
  apply Grows.post
  · intro other h
    exact Option.some.inj (h.symm.trans hRun)
  · intro id h
    cases hJob.symm.trans h

theorem Grows.postTask {id : Nat} (hId : id < shared.promises.length) (returned : Returned σ) :
    Grows touched shared (shared.postTask id returned) := by
  cases returned with
  | value => exact .refl shared shared.world
  | coroutine | awaitable => exact .about rfl rfl hId
  | loopFuture state | poolFuture state =>
    cases state with
    | settled => exact .about rfl rfl hId
    | pending => exact .refl shared shared.world

theorem promises_postTask (shared : Shared σ) (id : Nat) (returned : Returned σ) :
    (shared.postTask id returned).promises = shared.promises := by
  cases returned with
  | value | coroutine | awaitable => rfl
  | loopFuture state | poolFuture state => cases state <;> rfl

theorem world_postTask (shared : Shared σ) (id : Nat) (returned : Returned σ) :
    (shared.postTask id returned).world = shared.world := by
  cases returned with
  | value | coroutine | awaitable => rfl
  | loopFuture state | poolFuture state => cases state <;> rfl

theorem Grows.stepTask {id : Nat} (hId : id < shared.promises.length) (task : Task σ) :
    Grows touched shared (shared.stepTask id task) := by
  cases task with
  | relayed | ready => exact .about rfl rfl hId
  | body body =>
    cases body with
    | nil => exact .about rfl rfl hId
    | cons stretch rest =>
      rw [Shared.stepTask]
      generalize stretch shared.world = step
      obtain ⟨world, completions, ending⟩ := step
      have hSettles : Grows touched shared
          ((shared.withWorld world).postAll (completions.map (.settle id))) := by
        refine (Grows.refl shared world).trans (.settles ?_ completions)
        exact hId
      cases ending with
      | none | some => exact hSettles.trans (.about rfl rfl hId)

theorem length_promised (promise : Promise) (call : PluginCall σ) :
    (shared.promised promise call).promises.length = shared.promises.length + 1 :=
  List.length_append

theorem Grows.promised (context : Context) (run : Nat) (plugin : Callable) (index : Nat)
    (awaited : Bool) (call : PluginCall σ) :
    Grows (· = run) shared (shared.promised (context.promise run plugin index awaited) call) where
  queue := by
    refine ⟨_, rfl, ?_⟩
    intro job hJob
    obtain ⟨completion, -, rfl⟩ := List.mem_map.mp hJob
    constructor
    · rintro run ⟨⟩
    · rintro id ⟨⟩
      rw [length_promised]
      exact Nat.lt_succ_self _
  promises := by
    refine ⟨_, rfl, ?_⟩
    intro promise hPromise
    rw [List.mem_singleton.mp hPromise]
    exact ⟨rfl, rfl⟩

/-! ## What carries a run on -/

theorem carriers_append {run : Nat} {jobs : List (Job σ)} (hQueue : next.queue = shared.queue ++ jobs)
    (hJobs : ∀ job ∈ jobs, job.run? ≠ some run) : next.carriers run = shared.carriers run := by
  have hNone : jobs.filter (fun job => job.run? = some run) = [] := by
    rw [List.filter_eq_nil_iff]
    intro job hJob
    rw [decide_eq_true_eq]
    exact hJobs job hJob
  rw [carriers, hQueue, List.filter_append, hNone, List.append_nil]
  rfl

theorem Grows.carriers_eq (h : Grows touched shared next) {run : Nat} (hRun : ¬ touched run) :
    next.carriers run = shared.carriers run := by
  obtain ⟨jobs, hQueue, hJobs⟩ := h.queue
  apply carriers_append hQueue
  intro job hJob hSome
  exact hRun ((hJobs job hJob).1 run hSome)

theorem carriers_post {run : Nat} {job : Job σ} (hRun : job.run? = some run) :
    (shared.post job).carriers run = shared.carriers run ++ [job] := by
  rw [carriers, post, List.filter_append]
  exact congrArg (shared.carriers run ++ ·) (List.filter_cons_of_pos (decide_eq_true hRun))

theorem carriers_promised (promise : Promise) (call : PluginCall σ) (run : Nat) :
    (shared.promised promise call).carriers run = shared.carriers run := by
  apply carriers_append rfl
  intro job hJob
  obtain ⟨completion, -, rfl⟩ := List.mem_map.mp hJob
  rintro ⟨⟩

theorem carriers_cons {run : Nat} {job : Job σ} {world : World σ} {queue : List (Job σ)}
    {promises : List Promise} (hRun : job.run? = some run) :
    (⟨world, job :: queue, promises⟩ : Shared σ).carriers run =
      job :: (⟨world, queue, promises⟩ : Shared σ).carriers run :=
  List.filter_cons_of_pos (decide_eq_true hRun)

theorem carriers_cons_ne {run : Nat} {job : Job σ} {world : World σ} {queue : List (Job σ)}
    {promises : List Promise} (hRun : job.run? ≠ some run) :
    (⟨world, job :: queue, promises⟩ : Shared σ).carriers run =
      (⟨world, queue, promises⟩ : Shared σ).carriers run :=
  List.filter_cons_of_neg (by rwa [decide_eq_true_eq])

end Shared

open Shared

/-! ## Runs that are at rest -/

def Free (run : Nat) (promises : List Promise) : Prop :=
  ∀ promise ∈ promises, promise.run = run → promise.awaited = true → promise.outcome ≠ none

structure Idle (run : Nat) (shared : Shared σ) : Prop where
  carriers_eq : shared.carriers run = []
  free : Free run shared.promises

/-- A run waits for the promise of its plugin, the only one that is open for it. Just the outcome
carries it on. -/
structure Awaits (run : Nat) (context : Context) (shared : Shared σ) (paused : Paused σ) (id : Nat)
    (promise : Promise) : Prop where
  getElem?_eq : shared.promises[id]? = some promise
  eq_promise : promise =
    { context.promise run paused.plugin paused.index true with outcome := promise.outcome }
  eq_id : ∀ other promise, shared.promises[other]? = some promise → promise.run = run →
    promise.awaited = true → promise.outcome = none → other = id
  carriers_eq : shared.carriers run =
    (promise.outcome.map fun outcome => .resume run (some outcome)).toList

inductive Waits (run : Nat) (context : Context) (shared : Shared σ) (paused : Paused σ) : Prop where
  | body {rest : Body σ} (hWait : paused.wait = .body rest)
    (hCarriers : shared.carriers run = [.resume run none]) (hFree : Free run shared.promises)
  | future {job : Job σ} {outcome : Outcome Slot}
    (hWait : paused.wait = .relay ∨ paused.wait = .pending)
    (hCarriers : shared.carriers run = [job])
    (hJob : job = .relay (.run run) outcome ∨ job = .resume run (some outcome))
    (hFree : Free run shared.promises)
  | pending (hWait : paused.wait = .relay ∨ paused.wait = .pending) (hIdle : Idle run shared)
  | promise {id : Nat} {promise : Promise} (hWait : paused.wait = .promise)
    (hDeclared : paused.plugin.declaredKind = .callback)
    (hAwaits : Awaits run context shared paused id promise)

def Standing.Rests (run : Nat) (context : Context) (shared : Shared σ) : Standing σ → Prop
  | .paused waiting => Waits run context shared waiting
  | .finished _ _ => Idle run shared

variable {conduct : Conduct σ} {run : Nat} {context : Context} {touched : Nat → Prop}
  {shared next : Shared σ} {paused : Paused σ}

theorem Free.append {promises more : List Promise} (h : Free run promises)
    (hMore : ∀ promise ∈ more, promise.run = run → promise.awaited = true →
      promise.outcome ≠ none) : Free run (promises ++ more) :=
  List.forall_mem_append.mpr ⟨h, hMore⟩

theorem Free.grows (h : Free run shared.promises) (hGrows : Grows touched shared next)
    (hRun : ¬ touched run) : Free run next.promises := by
  obtain ⟨more, hMore, hOpen⟩ := hGrows.promises
  rw [hMore]
  apply h.append
  intro promise hPromise hSame
  exact absurd (hSame ▸ (hOpen promise hPromise).1) hRun

theorem Idle.withWorld (h : Idle run shared) (world : World σ) :
    Idle run (shared.withWorld world) := ⟨h.carriers_eq, h.free⟩

theorem Idle.grows (h : Idle run shared) (hGrows : Grows touched shared next)
    (hRun : ¬ touched run) : Idle run next :=
  ⟨(hGrows.carriers_eq hRun).trans h.carriers_eq, h.free.grows hGrows hRun⟩

theorem Awaits.grows {id : Nat} {promise : Promise} (h : Awaits run context shared paused id promise)
    (hGrows : Grows touched shared next) (hRun : ¬ touched run) :
    Awaits run context next paused id promise := by
  obtain ⟨more, hMore, hOpen⟩ := hGrows.promises
  constructor
  · rw [hMore, List.getElem?_append_left (List.getElem?_eq_some_iff.mp h.getElem?_eq).1]
    exact h.getElem?_eq
  · exact h.eq_promise
  · intro other promise hOther hSame
    rw [hMore] at hOther
    by_cases hLess : other < shared.promises.length
    · rw [List.getElem?_append_left hLess] at hOther
      exact h.eq_id other promise hOther hSame
    · rw [List.getElem?_append_right (Nat.le_of_not_lt hLess)] at hOther
      exact absurd (hSame ▸ (hOpen promise (List.mem_of_getElem? hOther)).1) hRun
  · rw [hGrows.carriers_eq hRun, h.carriers_eq]

theorem Waits.grows (h : Waits run context shared paused) (hGrows : Grows touched shared next)
    (hRun : ¬ touched run) : Waits run context next paused := by
  have hSame := hGrows.carriers_eq hRun
  cases h with
  | body hWait hCarriers hFree =>
    exact .body hWait (hSame.trans hCarriers) (hFree.grows hGrows hRun)
  | future hWait hCarriers hJob hFree =>
    exact .future hWait (hSame.trans hCarriers) hJob (hFree.grows hGrows hRun)
  | pending hWait h => exact .pending hWait (h.grows hGrows hRun)
  | promise hWait hDeclared h => exact .promise hWait hDeclared (h.grows hGrows hRun)

theorem Waits.free (h : Waits run context shared paused) (hWait : paused.wait ≠ .promise) :
    Free run shared.promises := by
  cases h with
  | body _ _ hFree | future _ _ _ hFree => exact hFree
  | pending _ hIdle => exact hIdle.free
  | promise hPromise => exact absurd hPromise hWait

theorem Waits.awaits (h : Waits run context shared paused) (hWait : paused.wait = .promise) :
    ∃ id promise, Awaits run context shared paused id promise := by
  cases h with
  | promise _ _ hAwaits => exact ⟨_, _, hAwaits⟩
  | body hOther => cases hWait.symm.trans hOther
  | pending hOther | future hOther =>
    rcases hOther with hOther | hOther <;> cases hWait.symm.trans hOther

theorem Idle.carriers_post (h : Idle run shared) {job : Job σ} (hRun : job.run? = some run) :
    (shared.post job).carriers run = [job] := by
  rw [Shared.carriers_post hRun, h.carriers_eq, List.nil_append]

/-! ## Going on with a run -/

theorem Chain.Defers.grows {plugin : Callable} {index : Nat} {tree : Slot} {kind : PluginKind}
    {wait : Wait σ} (h : Defers conduct run context plugin index tree shared next kind wait) :
    Grows (· = run) shared next := by
  cases h with
  | body => exact (Grows.refl shared _).trans (.carried rfl rfl)
  | relay => exact (Grows.refl shared _).trans (.carried rfl rfl)
  | pending => exact .refl shared _
  | callback =>
    apply (Grows.promised context run plugin index true _).trans
    apply Grows.postTask
    rw [length_promised]
    exact Nat.lt_succ_self _

theorem Chain.Advances.grows {plugins : List Callable} {index : Nat} {tree : Slot}
    {metrics : Metrics} {step : Shared σ × Standing σ}
    (h : Advances conduct run context plugins index tree metrics shared step) :
    Grows (· = run) shared step.1 := by
  induction h with
  | ended => exact .refl _ _
  | failed => exact .refl _ _
  | refused => exact .promised context run _ _ false _
  | deferred hDefers => exact hDefers.grows
  | answered hDeclared hAnswers hRest ih => exact (Grows.refl _ _).trans ih

theorem Chain.Defers.waits {plugin : Callable} {index : Nat} {tree : Slot} {kind : PluginKind}
    {wait : Wait σ} (h : Defers conduct run context plugin index tree shared next kind wait)
    (hIdle : Idle run shared) (rest : List Callable) (metrics : Metrics) :
    Waits run context next ⟨plugin, rest, index, tree, metrics, kind, wait⟩ := by
  cases h with
  | body => exact .body rfl ((hIdle.withWorld _).carriers_post rfl) hIdle.free
  | relay =>
    exact .future (Or.inl rfl) ((hIdle.withWorld _).carriers_post rfl) (Or.inl rfl) hIdle.free
  | pending => exact .pending (Or.inr rfl) (hIdle.withWorld _)
  | @callback returned hDeclared =>
    let called := shared.promised (context.promise run plugin index true)
      (conduct.plugin plugin tree shared.world)
    have hTask : Grows (fun _ => False) called (called.postTask shared.promises.length returned) := by
      refine .postTask ?_ returned
      rw [length_promised]
      exact Nat.lt_succ_self _
    have hAwaits : Awaits run context called
        ⟨plugin, rest, index, tree, metrics, .callback, .promise⟩ shared.promises.length
        (context.promise run plugin index true) := by
      constructor
      · exact List.getElem?_concat_length
      · rfl
      · intro other promise hOther hSame hAwaited hOpen
        by_cases hLess : other < shared.promises.length
        · have hOld := (List.getElem?_append_left hLess).symm.trans hOther
          exact absurd hOpen (hIdle.free promise (List.mem_of_getElem? hOld) hSame hAwaited)
        · have hMore := (List.getElem?_eq_some_iff.mp hOther).1
          rw [length_promised] at hMore
          omega
      · exact (carriers_promised _ _ run).trans hIdle.carriers_eq
    exact .promise rfl hDeclared (hAwaits.grows hTask id)

theorem Chain.Advances.rests {plugins : List Callable} {index : Nat} {tree : Slot}
    {metrics : Metrics} {step : Shared σ × Standing σ}
    (h : Advances conduct run context plugins index tree metrics shared step)
    (hIdle : Idle run shared) : step.2.Rests run context step.1 := by
  induction h with
  | ended => exact hIdle
  | failed => exact hIdle.withWorld _
  | refused =>
    constructor
    · exact (carriers_promised _ _ run).trans hIdle.carriers_eq
    · apply hIdle.free.append
      intro promise hPromise hSame hAwaited
      rw [List.mem_singleton.mp hPromise] at hAwaited
      cases hAwaited
  | deferred hDefers => exact hDefers.waits hIdle _ _
  | answered hDeclared hAnswers hRest ih => exact ih (hIdle.withWorld _)

end Hypertext
