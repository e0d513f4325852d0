import Hypertext.Proofs.Chain.Passage

/-! # What goes on beside a chain

The coroutines of callback plugins go on while later plugins of the chain run; threads and other
parts of a program change the world. None of that calls a plugin of the chain, and none of it carries
on a run that waits for something else.
-/

namespace Hypertext

set_option autoImplicit false

open Chain Shared

variable {σ : Type}

/-! ## Jobs that call no plugin -/

def Job.IsSilent : Job (Recorded σ) → Prop
  | .task _ (.body body) => ∀ stretch ∈ body, Silent stretch
  | _ => True

def Shared.IsSilent (shared : Shared (Recorded σ)) : Prop := ∀ job ∈ shared.queue, job.IsSilent

section Silence

variable {conduct : Conduct σ} {run : Nat} {context : Context} {plugin : Callable}
  {shared next : Shared (Recorded σ)}

theorem silent_body {returned : Returned σ} {body : Body (Recorded σ)}
    (h : (returned.recorded plugin).body? = some body) : ∀ stretch ∈ body, Silent stretch := by
  obtain ⟨original, -, rfl⟩ := body?_recorded h
  intro stretch hStretch
  obtain ⟨stretch, -, rfl⟩ := List.mem_map.mp hStretch
  exact silent_recorded plugin stretch

namespace Shared.IsSilent

theorem postAll (h : shared.IsSilent) {jobs : List (Job (Recorded σ))}
    (hJobs : ∀ job ∈ jobs, job.IsSilent) : (shared.postAll jobs).IsSilent :=
  List.forall_mem_append.mpr ⟨h, hJobs⟩

theorem post (h : shared.IsSilent) {job : Job (Recorded σ)} (hJob : job.IsSilent) :
    (shared.post job).IsSilent :=
  h.postAll (List.forall_mem_singleton.mpr hJob)

theorem settles (h : shared.IsSilent) (id : Nat) (completions : List Completion) :
    (shared.postAll (completions.map (.settle id))).IsSilent := by
  apply h.postAll
  intro job hJob
  obtain ⟨completion, -, rfl⟩ := List.mem_map.mp hJob
  trivial

theorem promised (h : shared.IsSilent) (promise : Promise) (call : PluginCall (Recorded σ)) :
    (shared.promised promise call).IsSilent :=
  h.settles shared.promises.length call.completions

theorem postTask (h : shared.IsSilent) (id : Nat) (returned : Returned σ) :
    (shared.postTask id (returned.recorded plugin)).IsSilent := by
  cases returned with
  | value => exact h
  | coroutine body close => exact h.post (@silent_body _ plugin (.coroutine body close) _ rfl)
  | awaitable body => exact h.post (@silent_body _ plugin (.awaitable body) _ rfl)
  | loopFuture state | poolFuture state =>
    cases state with
    | settled => exact h.post trivial
    | pending => exact h

theorem fulfil (h : shared.IsSilent) (id : Nat) (promise : Promise) (outcome : Outcome Slot) :
    (shared.fulfil id promise outcome).IsSilent := by
  rw [Shared.fulfil]
  split
  · exact post h trivial
  · exact h

theorem stepTask (h : shared.IsSilent) (id : Nat) {task : Task (Recorded σ)}
    (hTask : (Job.task id task).IsSilent) :
    (shared.stepTask id task).IsSilent ∧
      (shared.stepTask id task).world.calls = shared.world.calls := by
  cases task with
  | relayed | ready => exact ⟨h.post trivial, rfl⟩
  | body body =>
    cases body with
    | nil => exact ⟨h.post trivial, rfl⟩
    | cons stretch rest =>
      obtain ⟨hFirst, hRest⟩ := List.forall_mem_cons.mp hTask
      have hCalls := hFirst shared.world
      rw [Shared.stepTask]
      generalize stretch shared.world = step at hCalls
      obtain ⟨world, completions, ending⟩ := step
      have hSettles : ((shared.withWorld world).postAll (completions.map (.settle id))).IsSilent :=
        settles h id completions
      cases ending with
      | none => exact ⟨hSettles.post hRest, hCalls⟩
      | some outcome => exact ⟨hSettles.post trivial, hCalls⟩

end Shared.IsSilent

theorem Chain.Advances.isSilent {plugins : List Callable} {index : Nat} {tree : Slot}
    {metrics : Metrics} {step : Shared (Recorded σ) × Standing (Recorded σ)}
    (h : Advances conduct.recorded run context plugins index tree metrics shared step)
    (hSilent : shared.IsSilent) : step.1.IsSilent := by
  induction h with
  | ended | failed => exact hSilent
  | refused => exact hSilent.promised _ _
  | answered hDeclared hAnswers hRest ih => exact ih hSilent
  | deferred hDefers =>
    cases hDefers with
    | body | relay => exact hSilent.post trivial
    | pending => exact hSilent
    | callback hDeclared hOutcome =>
      obtain ⟨original, -, rfl⟩ := outcome_of_recorded_ok hOutcome
      exact (hSilent.promised _ _).postTask _ original

theorem finishStep_isSilent (hSilent : shared.IsSilent) (paused : Paused (Recorded σ))
    (outcome : Outcome Slot) :
    (finishStep conduct.recorded run context shared paused outcome).1.IsSilent := by
  cases outcome with
  | error fault => exact hSilent
  | ok result => exact (advance_advances _ _ _ _ _).isSilent hSilent

theorem wake_isSilent (hSilent : shared.IsSilent) (paused : Paused (Recorded σ))
    (outcome : Option (Outcome Slot)) :
    (wake conduct.recorded run context shared paused outcome).1.IsSilent := by
  unfold wake
  split
  · generalize stepBody shared.world _ = step
    obtain ⟨world, ended | rest⟩ := step
    · refine finishStep_isSilent ?_ paused ended
      exact hSilent
    · refine IsSilent.post ?_ trivial
      exact hSilent
  · exact finishStep_isSilent hSilent paused _
  · exact finishStep_isSilent hSilent paused _
  · exact finishStep_isSilent hSilent paused _
  · exact hSilent

end Silence

/-! ## From outside -/

def Stretch.silent (stretch : Stretch σ) : Stretch (Recorded σ) := fun world =>
  let (next, completions, ending) := stretch world.bare
  (next.recorded world.deeds, completions, ending)

def Job.recorded : Job σ → Job (Recorded σ)
  | .start run => .start run
  | .resume run outcome => .resume run outcome
  | .settle id completion => .settle id completion
  | .task id (.body body) => .task id (.body (body.map Stretch.silent))
  | .task id (.relayed outcome) => .task id (.relayed outcome)
  | .task id (.ready outcome) => .task id (.ready outcome)
  | .taskEnded id outcome => .taskEnded id outcome
  | .relay waiter outcome => .relay waiter outcome

def Happening.recorded : Happening σ → Happening (Recorded σ)
  | .job => .job
  | .start run => .start run
  | .change act => .change fun world => (act world.bare).recorded world.deeds
  | .hand handed => .hand handed.recorded

section Passive

variable {id run : Nat} {shared next : Shared (Recorded σ)} {touched : Nat → Prop}

theorem Shared.Grows.lasting (h : Grows touched shared next) :
    Lasting shared.promises next.promises := by
  obtain ⟨more, hMore, -⟩ := h.promises
  rw [hMore]
  exact .append _ _

theorem Shared.Settles.lasting (h : shared.Settles id next) :
    Lasting shared.promises next.promises := by
  cases h with
  | same | warned => exact fun _ _ hPromise _ => hPromise
  | fulfilled outcome hPromise hOpen =>
    intro other found hFound hSettled
    rw [promises_fulfil]
    by_cases hSame : id = other
    · subst hSame
      obtain rfl := Option.some.inj (hPromise.symm.trans hFound)
      exact absurd hOpen hSettled
    · rw [List.getElem?_set_ne hSame]
      exact hFound

theorem Shared.Settles.calls_eq (h : shared.Settles id next) :
    next.world.calls = shared.world.calls := by
  cases h with
  | same | warned => rfl
  | fulfilled =>
    rw [Shared.fulfil]
    split <;> rfl

theorem Shared.Settles.isSilent (h : shared.Settles id next) (hSilent : shared.IsSilent) :
    next.IsSilent := by
  cases h with
  | same | warned => exact hSilent
  | fulfilled => exact hSilent.fulfil _ _ _

theorem Shared.Settles.carriers_eq (h : shared.Settles id next) (hFree : Free run shared.promises) :
    next.carriers run = shared.carriers run := by
  cases h with
  | same | warned => rfl
  | @fulfilled promise outcome hPromise hOpen =>
    apply carriers_fulfil_ne outcome
    rintro ⟨hRun, hAwaited⟩
    exact hFree promise (List.mem_of_getElem? hPromise) hRun hAwaited hOpen

end Passive

end Hypertext
