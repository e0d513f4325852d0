import Hypertext.Proofs.Chain.Waiting
import Mathlib.Data.List.Induction

/-! # Loops stay steady

A loop is steady if each of its runs is at rest, and all jobs are about promises that were made.
Whatever happens to a steady loop leaves it so.
-/

namespace Hypertext

set_option autoImplicit false

open Chain Shared

variable {σ ρ : Type} {conduct : Conduct σ} {run : Nat} {context : Context} {touched : Nat → Prop}
  {shared next : Shared σ} {paused : Paused σ}

def Shared.Made (shared : Shared σ) : Prop :=
  ∀ job ∈ shared.queue, ∀ id, job.promise? = some id → id < shared.promises.length

def RunState.Rests (run : Nat) (shared : Shared σ) : Option (RunState σ ρ) → Prop
  | some (.active launch waiting) => Waits run launch.context shared waiting
  | _ => Idle run shared

structure Loop.Steady (loop : Loop σ ρ) : Prop where
  made : loop.shared.Made
  rests : ∀ run, RunState.Rests run loop.shared loop.runs[run]?

theorem Shared.Grows.made (h : Grows touched shared next) (hMade : shared.Made) : next.Made := by
  obtain ⟨jobs, hQueue, hJobs⟩ := h.queue
  intro job hJob id hId
  rw [hQueue] at hJob
  rcases List.mem_append.mp hJob with hJob | hJob
  · exact Nat.lt_of_lt_of_le (hMade job hJob id hId) h.length_le
  · exact (hJobs job hJob).2 id hId

theorem RunState.Rests.grows {state : Option (RunState σ ρ)} (h : Rests run shared state)
    (hGrows : Grows touched shared next) (hRun : ¬ touched run) : Rests run next state := by
  match state with
  | some (.active launch waiting) => exact Waits.grows h hGrows hRun
  | some (.fresh _) | some (.ended _) | none => exact Idle.grows h hGrows hRun

inductive Shared.Settles (shared : Shared σ) (id : Nat) : Shared σ → Prop where
  | same : Settles shared id shared
  | warned (logger : Logger) (message : String) (extra : Fields) :
    Settles shared id
      (shared.withWorld (shared.world.write logger .warning message extra none))
  | fulfilled {promise : Promise} (outcome : Outcome Slot)
    (hPromise : shared.promises[id]? = some promise) (hOpen : promise.outcome = none) :
    Settles shared id (shared.fulfil id promise outcome)

theorem Shared.settle_settles (shared : Shared σ) (id : Nat) (completion : Completion) :
    shared.Settles id (shared.settle id completion) := by
  cases hPromise : shared.promises[id]? with
  | none =>
    simp only [settle, hPromise]
    exact .same
  | some promise =>
    cases hOpen : promise.outcome with
    | none =>
      simp only [settle, hPromise, hOpen]
      cases completion.outcome? shared.world.store promise.plugin with
      | none => exact .same
      | some outcome => exact .fulfilled outcome hPromise hOpen
    | some outcome =>
      simp only [settle, hPromise, hOpen]
      exact .warned _ _ _

theorem Shared.endTask_settles (shared : Shared σ) (id : Nat) (outcome : Outcome Slot) :
    shared.Settles id (shared.endTask id outcome) := by
  cases outcome with
  | ok => exact .same
  | error fault =>
    cases hPromise : shared.promises[id]? with
    | none =>
      simp only [endTask, hPromise]
      exact .same
    | some promise =>
      simp only [endTask, hPromise]
      split
      · exact .same
      · split
        · exact .warned _ _ _
        · rename_i hOpen
          exact .fulfilled _ hPromise (Option.not_isSome_iff_eq_none.mp hOpen)

section Fulfil

variable {id : Nat} {promise : Promise}

theorem Shared.promises_fulfil (outcome : Outcome Slot) :
    (shared.fulfil id promise outcome).promises =
      shared.promises.set id { promise with outcome := some outcome } := by
  rw [fulfil]
  split <;> rfl

theorem Shared.carriers_fulfil (outcome : Outcome Slot) (hRun : promise.run = run)
    (hAwaited : promise.awaited = true) :
    (shared.fulfil id promise outcome).carriers run =
      shared.carriers run ++ [.resume run (some outcome)] := by
  rw [fulfil, if_pos hAwaited, hRun]
  exact carriers_post rfl

theorem Shared.carriers_fulfil_ne (outcome : Outcome Slot)
    (hOther : ¬ (promise.run = run ∧ promise.awaited = true)) :
    (shared.fulfil id promise outcome).carriers run = shared.carriers run := by
  rw [fulfil]
  split
  · rename_i hAwaited
    refine carriers_append rfl ?_
    rintro job hJob hSome
    rw [List.mem_singleton.mp hJob] at hSome
    exact hOther ⟨Option.some.inj hSome, hAwaited⟩
  · rfl

theorem Shared.Made.fulfil (hMade : shared.Made) (outcome : Outcome Slot) :
    (shared.fulfil id promise outcome).Made := by
  intro job hJob other hOther
  rw [promises_fulfil, List.length_set]
  rw [Shared.fulfil] at hJob
  split at hJob
  · rcases List.mem_append.mp hJob with hJob | hJob
    · exact hMade job hJob other hOther
    · rw [List.mem_singleton.mp hJob] at hOther
      cases hOther
  · exact hMade job hJob other hOther

theorem Free.fulfil (h : Free run shared.promises) (outcome : Outcome Slot) :
    Free run (shared.fulfil id promise outcome).promises := by
  rw [promises_fulfil]
  intro other hOther hRun hAwaited
  rcases List.mem_or_eq_of_mem_set hOther with hOld | rfl
  · exact h other hOld hRun hAwaited
  · exact Option.some_ne_none _

variable (hPromise : shared.promises[id]? = some promise) (hOpen : promise.outcome = none)

include hPromise hOpen

theorem Awaits.fulfil {other : Nat} {awaited : Promise}
    (h : Awaits run context shared paused other awaited) (outcome : Outcome Slot) :
    ∃ awaited, Awaits run context (shared.fulfil id promise outcome) paused other awaited := by
  have hLess : id < shared.promises.length := (List.getElem?_eq_some_iff.mp hPromise).1
  have hOnly : ∀ index promise', (shared.fulfil id promise outcome).promises[index]? = some promise' →
      promise'.run = run → promise'.awaited = true → promise'.outcome = none → index = other := by
    intro index promise' hIndex hRun hAwaited hNone
    rw [promises_fulfil] at hIndex
    by_cases hSame : id = index
    · rw [← hSame, List.getElem?_set_self hLess] at hIndex
      rw [← Option.some.inj hIndex] at hNone
      cases hNone
    · rw [List.getElem?_set_ne hSame] at hIndex
      exact h.eq_id index promise' hIndex hRun hAwaited hNone
  by_cases hWaited : promise.run = run ∧ promise.awaited = true
  · obtain rfl := h.eq_id id promise hPromise hWaited.1 hWaited.2 hOpen
    obtain rfl := Option.some.inj (hPromise.symm.trans h.getElem?_eq)
    refine ⟨{ promise with outcome := some outcome }, ?_, ?_, hOnly, ?_⟩
    · rw [promises_fulfil, List.getElem?_set_self hLess]
    · rw [h.eq_promise]
    · rw [carriers_fulfil outcome hWaited.1 hWaited.2, h.carriers_eq, hOpen]
      rfl
  · refine ⟨awaited, ?_, h.eq_promise, hOnly, ?_⟩
    · have hNe : id ≠ other := by
        rintro rfl
        obtain rfl := Option.some.inj (hPromise.symm.trans h.getElem?_eq)
        apply hWaited
        rw [h.eq_promise]
        exact ⟨rfl, rfl⟩
      rw [promises_fulfil, List.getElem?_set_ne hNe]
      exact h.getElem?_eq
    · rw [carriers_fulfil_ne outcome hWaited, h.carriers_eq]

theorem Idle.fulfil (h : Idle run shared) (outcome : Outcome Slot) :
    Idle run (shared.fulfil id promise outcome) := by
  refine ⟨?_, h.free.fulfil outcome⟩
  rw [carriers_fulfil_ne outcome, h.carriers_eq]
  rintro ⟨hRun, hAwaited⟩
  exact h.free promise (List.mem_of_getElem? hPromise) hRun hAwaited hOpen

theorem RunState.Rests.fulfil {state : Option (RunState σ ρ)} (h : Rests run shared state)
    (outcome : Outcome Slot) : Rests run (shared.fulfil id promise outcome) state := by
  have hCarriers (hFree : Free run shared.promises) :
      (shared.fulfil id promise outcome).carriers run = shared.carriers run := by
    apply carriers_fulfil_ne outcome
    rintro ⟨hRun, hAwaited⟩
    exact hFree promise (List.mem_of_getElem? hPromise) hRun hAwaited hOpen
  match state with
  | some (.fresh _) | some (.ended _) | none => exact Idle.fulfil hPromise hOpen h outcome
  | some (.active launch waiting) =>
    cases h with
    | body hWait hBody hFree =>
      exact .body hWait ((hCarriers hFree).trans hBody) (hFree.fulfil outcome)
    | future hWait hFuture hJob hFree =>
      exact .future hWait ((hCarriers hFree).trans hFuture) hJob (hFree.fulfil outcome)
    | pending hWait hIdle => exact .pending hWait (hIdle.fulfil hPromise hOpen outcome)
    | promise hWait hDeclared hAwaits =>
      obtain ⟨awaited, hAwaits⟩ := hAwaits.fulfil hPromise hOpen outcome
      exact .promise hWait hDeclared hAwaits

end Fulfil

/-! ## Going on with a run -/

theorem wake_some {outcome : Outcome Slot}
    (hWait : paused.wait = .promise ∨ paused.wait = .relay ∨ paused.wait = .pending) :
    wake conduct run context shared paused (some outcome) =
      finishStep conduct run context shared paused outcome.awaited := by
  rcases hWait with hWait | hWait | hWait <;> simp only [wake, hWait]

variable {world : World σ} {queue : List (Job σ)} {promises : List Promise}

theorem Awaits.resumed {outcome : Option (Outcome Slot)} {id : Nat} {promise : Promise}
    (h : Awaits run context ⟨world, .resume run outcome :: queue, promises⟩ paused id promise) :
    ∃ value, outcome = some value ∧ promise.outcome = some value ∧
      (⟨world, queue, promises⟩ : Shared σ).carriers run = [] := by
  have hCarriers := (carriers_cons rfl).symm.trans h.carriers_eq
  cases hOutcome : promise.outcome with
  | none =>
    rw [hOutcome] at hCarriers
    cases hCarriers
  | some value =>
    rw [hOutcome] at hCarriers
    obtain ⟨hJob, hTail⟩ := List.cons.inj hCarriers
    exact ⟨value, (Job.resume.inj hJob).2, rfl, hTail⟩

/-- The job that carries a run on comes with what the run waits for, and is the only one. -/
theorem Waits.resumed {outcome : Option (Outcome Slot)}
    (h : Waits run context ⟨world, .resume run outcome :: queue, promises⟩ paused) :
    Idle run ⟨world, queue, promises⟩ ∧
      ((∃ rest, paused.wait = .body rest ∧ outcome = none) ∨
        ∃ value, outcome = some value ∧
          (paused.wait = .promise ∨ paused.wait = .relay ∨ paused.wait = .pending)) := by
  have hCons := @carriers_cons _ run (.resume run outcome) world queue promises rfl
  cases h with
  | @body rest hWait hCarriers hFree =>
    rw [hCons] at hCarriers
    obtain ⟨hJob, hTail⟩ := List.cons.inj hCarriers
    exact ⟨⟨hTail, hFree⟩, Or.inl ⟨rest, hWait, (Job.resume.inj hJob).2⟩⟩
  | @future job value hWait hCarriers hJob hFree =>
    rw [hCons] at hCarriers
    obtain ⟨rfl, hTail⟩ := List.cons.inj hCarriers
    refine ⟨⟨hTail, hFree⟩, Or.inr ⟨value, ?_, Or.inr hWait⟩⟩
    rcases hJob with hJob | hJob
    · cases hJob
    · exact (Job.resume.inj hJob).2
  | pending hWait hIdle => cases hCons.symm.trans hIdle.carriers_eq
  | promise hWait hDeclared hAwaits =>
    obtain ⟨value, rfl, hOutcome, hTail⟩ := hAwaits.resumed
    refine ⟨⟨hTail, ?_⟩, Or.inr ⟨value, rfl, Or.inl hWait⟩⟩
    -- The one promise that could be open has its outcome.
    intro other hOther hRun hAwaited hNone
    obtain ⟨index, hIndex⟩ := List.getElem?_of_mem hOther
    obtain rfl := hAwaits.eq_id index other hIndex hRun hAwaited hNone
    obtain rfl := Option.some.inj (hIndex.symm.trans hAwaits.getElem?_eq)
    cases hNone.symm.trans hOutcome

theorem Waits.resumed_promise {outcome : Option (Outcome Slot)}
    (h : Waits run context ⟨world, .resume run outcome :: queue, promises⟩ paused)
    (hWait : paused.wait = .promise) :
    ∃ (id : Nat) (value : Outcome Slot), outcome = some value ∧ promises[id]? =
      some { context.promise run paused.plugin paused.index true with outcome := some value } := by
  obtain ⟨id, promise, hAwaits⟩ := h.awaits hWait
  obtain ⟨value, rfl, hOutcome, -⟩ := hAwaits.resumed
  refine ⟨id, value, rfl, ?_⟩
  rw [← hOutcome, ← hAwaits.eq_promise]
  exact hAwaits.getElem?_eq

theorem Waits.relayed {outcome : Outcome Slot}
    (h : Waits run context ⟨world, .relay (.run run) outcome :: queue, promises⟩ paused) :
    Waits run context ⟨world, queue, promises⟩ paused ∧
      ∀ taken, Waits run context
        (Shared.post ⟨world, queue, promises⟩ (.resume run (some taken))) paused := by
  have hCons := @carriers_cons _ run (.relay (.run run) outcome) world queue promises rfl
  cases h with
  | body hWait hCarriers => cases hCons.symm.trans hCarriers
  | pending hWait hIdle => cases hCons.symm.trans hIdle.carriers_eq
  | @promise id promise hWait hDeclared hAwaits =>
    have hCarriers := hCons.symm.trans hAwaits.carriers_eq
    cases hOutcome : promise.outcome with
    | none | some =>
      rw [hOutcome] at hCarriers
      cases hCarriers
  | future hWait hCarriers hJob hFree =>
    have hIdle : Idle run (⟨world, queue, promises⟩ : Shared σ) :=
      ⟨(List.cons.inj (hCons.symm.trans hCarriers)).2, hFree⟩
    refine ⟨.pending hWait hIdle, fun taken => ?_⟩
    exact .future hWait (hIdle.carriers_post rfl) (Or.inr rfl) hFree

namespace Loop

/-! ## One happening -/

variable {loop : Loop σ ρ}

theorem Steady.grows (h : Steady loop) (hGrows : Grows (fun _ => False) loop.shared next) :
    Steady { loop with shared := next } where
  made := hGrows.made h.made
  rests run := (h.rests run).grows hGrows id

theorem Steady.settles {id : Nat} (h : Steady loop) (hSettles : loop.shared.Settles id next) :
    Steady { loop with shared := next } := by
  cases hSettles with
  | same => exact h
  | warned => exact h.grows (.refl _ _)
  | fulfilled outcome hPromise hOpen =>
    exact ⟨h.made.fulfil outcome, fun run => (h.rests run).fulfil hPromise hOpen outcome⟩

variable {runs : List (RunState σ ρ)}

theorem Steady.rests_tail {job : Job σ} (h : Steady ⟨⟨world, job :: queue, promises⟩, runs⟩)
    {other : Nat} (hJob : job.run? ≠ some other) :
    RunState.Rests other (⟨world, queue, promises⟩ : Shared σ) runs[other]? := by
  have hCons := @carriers_cons_ne _ other job world queue promises hJob
  have hRests := h.rests other
  simp only at hRests
  match hState : runs[other]? with
  | some (.fresh _) | some (.ended _) | none =>
    rw [hState] at hRests
    exact ⟨hCons.symm.trans hRests.carriers_eq, hRests.free⟩
  | some (.active launch waiting) =>
    rw [hState] at hRests
    cases hRests with
    | body hWait hCarriers hFree => exact .body hWait (hCons.symm.trans hCarriers) hFree
    | future hWait hCarriers hJob hFree =>
      exact .future hWait (hCons.symm.trans hCarriers) hJob hFree
    | pending hWait hIdle => exact .pending hWait ⟨hCons.symm.trans hIdle.carriers_eq, hIdle.free⟩
    | promise hWait hDeclared hAwaits =>
      exact .promise hWait hDeclared ⟨hAwaits.getElem?_eq, hAwaits.eq_promise, hAwaits.eq_id,
        hCons.symm.trans hAwaits.carriers_eq⟩

theorem awaitsFuture_spec (h : loop.awaitsFuture run = true) :
    ∃ launch waiting, loop.runs[run]? = some (.active launch waiting) ∧ waiting.wait = .pending ∧
      loop.shared.carriers run = [] := by
  rw [awaitsFuture] at h
  split at h
  · exact ⟨_, _, ‹_›, rfl, List.isEmpty_iff.mp h⟩
  · cases h

theorem Steady.hand {job : Job σ} {outcome : Outcome Slot} (h : Steady loop)
    (hAwaits : loop.awaitsFuture run = true)
    (hJob : job = .relay (.run run) outcome ∨ job = .resume run (some outcome)) :
    Steady { loop with shared := loop.shared.post job } := by
  obtain ⟨launch, waiting, hState, hWait, hCarriers⟩ := awaitsFuture_spec hAwaits
  have hRun : job.run? = some run := by
    rcases hJob with rfl | rfl <;> rfl
  have hPost : Grows (· = run) loop.shared (loop.shared.post job) := by
    apply Grows.carried hRun
    rcases hJob with rfl | rfl <;> rfl
  refine ⟨hPost.made h.made, ?_⟩
  intro other
  by_cases hOther : other = run
  · subst hOther
    have hRests := h.rests other
    simp only [hState] at hRests ⊢
    have hFree : Free other loop.shared.promises := Waits.free hRests (by rw [hWait]; rintro ⟨⟩)
    have hIdle : Idle other loop.shared := ⟨hCarriers, hFree⟩
    exact .future (Or.inr hWait) (hIdle.carriers_post hRun) hJob hFree
  · exact (h.rests other).grows hPost hOther

end Loop

end Hypertext
