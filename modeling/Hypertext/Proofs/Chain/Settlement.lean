import Hypertext.Proofs.Chain.Steady

/-! # Settlement of callback plugins

A callback plugin that was called without an exception is settled by the first of its signals, in
the order in which they were handed to the loop: a call of its completion callback, or the failure of
the coroutine or future that it handed back. Every later signal is warned about once and changes
nothing else. A call of the callback with the end of an iteration is refused, and settles nothing.
-/

namespace Hypertext

set_option autoImplicit false

open Chain Shared

variable {σ ρ : Type} {conduct : Conduct σ}

/-! ## Signals -/

inductive Signal where
  | called (completion : Completion)
  | failed (fault : Fault)

namespace Signal

def outcome? (store : Store) (plugin : String) : Signal → Option (Outcome Slot)
  | called completion => completion.outcome? store plugin
  | failed fault => some (.error fault)

end Signal

/-- What a job signals about a promise. A task that was cancelled signals nothing. -/
def Job.signal? (id : Nat) : Job σ → Option Signal
  | .settle other completion => if other = id then some (.called completion) else none
  | .taskEnded other (.error fault) =>
    if other = id ∧ fault.isCancellation = false then some (.failed fault) else none
  | _ => none

theorem Job.signal?_eq_some_iff {id : Nat} {job : Job σ} {signal : Signal} :
    job.signal? id = some signal ↔
      (∃ completion, job = .settle id completion ∧ signal = .called completion) ∨
        ∃ fault, job = .taskEnded id (.error fault) ∧ fault.isCancellation = false ∧
          signal = .failed fault := by
  constructor
  · intro h
    unfold signal? at h
    split at h
    · split at h
      · rename_i hSame
        exact Or.inl ⟨_, congrArg (Job.settle · _) hSame, (Option.some.inj h).symm⟩
      · cases h
    · split at h
      · rename_i hSame
        exact Or.inr ⟨_, congrArg (Job.taskEnded · _) hSame.1, hSame.2, (Option.some.inj h).symm⟩
      · cases h
    · cases h
  · rintro (⟨completion, rfl, rfl⟩ | ⟨fault, rfl, hFault, rfl⟩)
    · exact if_pos rfl
    · exact if_pos ⟨rfl, hFault⟩

theorem Job.promise?_of_signal? {id : Nat} {job : Job σ} {signal : Signal}
    (h : job.signal? id = some signal) : job.promise? = some id := by
  rcases signal?_eq_some_iff.mp h with ⟨completion, rfl, -⟩ | ⟨fault, rfl, -, -⟩ <;> rfl

def firstOutcome? (worked : List (World σ × Job σ)) (id : Nat) (plugin : String) :
    Option (Outcome Slot) :=
  worked.findSome? fun entry => (entry.2.signal? id).bind (·.outcome? entry.1.store plugin)

theorem firstOutcome?_concat (worked : List (World σ × Job σ)) (world : World σ) (job : Job σ)
    (id : Nat) (plugin : String) :
    firstOutcome? (worked ++ [(world, job)]) id plugin =
      (firstOutcome? worked id plugin).or
        ((job.signal? id).bind (·.outcome? world.store plugin)) := by
  rw [firstOutcome?, List.findSome?_append, List.findSome?_singleton]
  rfl

theorem firstOutcome?_eq_none {worked : List (World σ × Job σ)} {id : Nat} {plugin : String}
    (h : ∀ entry ∈ worked, entry.2.signal? id = none) : firstOutcome? worked id plugin = none := by
  rw [firstOutcome?, List.findSome?_eq_none_iff]
  intro entry hEntry
  rw [h entry hEntry]
  rfl

theorem firstOutcome?_append_silent {worked more : List (World σ × Job σ)} {id : Nat}
    {plugin : String} (h : ∀ entry ∈ more, entry.2.signal? id = none) :
    firstOutcome? (worked ++ more) id plugin = firstOutcome? worked id plugin := by
  have hMore : firstOutcome? more id plugin = none := firstOutcome?_eq_none h
  rw [firstOutcome?] at hMore
  rw [firstOutcome?, List.findSome?_append, hMore, Option.or_none]
  rfl

/-! ## Jobs that signal nothing -/

/-- What a job about a promise leaves if it signals nothing: the world, and the jobs that it hands to
the loop. A stretch of a coroutine hands on the calls of its completion callback in their order, and
behind them what is left of the coroutine or its end. -/
inductive Job.Hands (world : World σ) : Job σ → World σ → List (Job σ) → Prop where
  | exhausted {id : Nat} : Hands world (.task id (.body [])) world [.taskEnded id (.ok .none)]
  | suspended {id : Nat} {stretch : Stretch σ} {rest : Body σ} {next : World σ}
    {completions : List Completion} (hStretch : stretch world = (next, completions, none)) :
    Hands world (.task id (.body (stretch :: rest))) next
      (completions.map (.settle id) ++ [.task id (.body rest)])
  | last {id : Nat} {stretch : Stretch σ} {rest : Body σ} {next : World σ}
    {completions : List Completion} {outcome : Outcome Slot}
    (hStretch : stretch world = (next, completions, some outcome)) :
    Hands world (.task id (.body (stretch :: rest))) next
      (completions.map (.settle id) ++ [.taskEnded id (outcome.mapError Fault.leaving)])
  | ready {id : Nat} {outcome : Outcome Slot} :
    Hands world (.task id (.ready outcome)) world [.taskEnded id outcome.awaited]
  | relayed {id : Nat} {outcome : Outcome Slot} :
    Hands world (.task id (.relayed outcome)) world [.relay (.task id) outcome]
  | relay {id : Nat} {outcome taken : Outcome Slot} (hTaken : outcome.transferred? = some taken) :
    Hands world (.relay (.task id) outcome) world [.task id (.ready taken)]
  | refused {id : Nat} {outcome : Outcome Slot} (hTaken : outcome.transferred? = none) :
    Hands world (.relay (.task id) outcome) world []
  | succeeded {id : Nat} {result : Slot} : Hands world (.taskEnded id (.ok result)) world []
  | cancelled {id : Nat} {fault : Fault} (hFault : fault.isCancellation = true) :
    Hands world (.taskEnded id (.error fault)) world []

theorem Job.Hands.about {id : Nat} {job : Job σ} {world next : World σ} {jobs : List (Job σ)}
    (h : job.Hands world next jobs) (hId : job.promise? = some id) :
    ∀ other ∈ jobs, other.run? = none ∧ other.promise? = some id := by
  have hSettles (completions : List Completion) (last : Job σ)
      (hLast : last.run? = none ∧ last.promise? = some id) :
      ∀ other ∈ completions.map (.settle id) ++ [last],
        other.run? = none ∧ other.promise? = some id := by
    intro other hOther
    rcases List.mem_append.mp hOther with hOther | hOther
    · obtain ⟨completion, -, rfl⟩ := List.mem_map.mp hOther
      exact ⟨rfl, rfl⟩
    · rwa [List.mem_singleton.mp hOther]
  cases h with
  | succeeded | cancelled | refused => exact fun _ hOther => absurd hOther List.not_mem_nil
  | exhausted | ready | relayed | relay =>
    cases hId
    exact List.forall_mem_singleton.mpr ⟨rfl, rfl⟩
  | suspended | last =>
    cases hId
    exact hSettles _ _ ⟨rfl, rfl⟩

namespace Loop

variable {loop : Loop σ ρ} {run : Nat}

def taken (loop : Loop σ ρ) (happening : Happening σ) : Shared σ :=
  { loop.shared with queue := loop.shared.queue.drop (loop.work happening).length }

structure Accounts (worked : List (World σ × Job σ)) (promises : List Promise) : Prop where
  outcome_eq : ∀ id promise, promises[id]? = some promise →
    promise.outcome = firstOutcome? worked id promise.plugin
  silent : ∀ id, promises.length ≤ id → ∀ entry ∈ worked, entry.2.signal? id = none

theorem Accounts.append {worked more : List (World σ × Job σ)} {promises opened : List Promise}
    (h : Accounts worked promises) (hSilent : ∀ entry ∈ more, ∀ id, entry.2.signal? id = none)
    (hOpened : ∀ promise ∈ opened, promise.outcome = none) :
    Accounts (worked ++ more) (promises ++ opened) := by
  constructor
  · intro id promise hPromise
    rw [firstOutcome?_append_silent fun entry hEntry => hSilent entry hEntry id]
    by_cases hLess : id < promises.length
    · rw [List.getElem?_append_left hLess] at hPromise
      exact h.outcome_eq id promise hPromise
    · rw [List.getElem?_append_right (Nat.le_of_not_lt hLess)] at hPromise
      rw [hOpened promise (List.mem_of_getElem? hPromise),
        firstOutcome?_eq_none (h.silent id (Nat.le_of_not_lt hLess))]
  · intro id hId entry hEntry
    rcases List.mem_append.mp hEntry with hEntry | hEntry
    · rw [List.length_append] at hId
      exact h.silent id (Nat.le_trans (Nat.le_add_right _ _) hId) entry hEntry
    · exact hSilent entry hEntry id

theorem Accounts.signal {worked : List (World σ × Job σ)} {promises : List Promise}
    (h : Accounts worked promises) (world : World σ) {job : Job σ} {id : Nat} {signal : Signal}
    {promise settled : Promise} (hSignal : job.signal? id = some signal)
    (hPromise : promises[id]? = some promise) (hPlugin : settled.plugin = promise.plugin)
    (hSettled : settled.outcome =
      promise.outcome.or (signal.outcome? world.store promise.plugin)) :
    Accounts (worked ++ [(world, job)]) (promises.set id settled) := by
  have hLess := (List.getElem?_eq_some_iff.mp hPromise).1
  have hOther (other : Nat) (hNe : id ≠ other) : job.signal? other = none := by
    cases hNone : job.signal? other with
    | none => rfl
    | some =>
      have hJob := (Job.promise?_of_signal? hSignal).symm.trans (Job.promise?_of_signal? hNone)
      exact absurd (Option.some.inj hJob) hNe
  constructor
  · intro other found hFound
    rw [firstOutcome?_concat]
    by_cases hSame : id = other
    · subst hSame
      rw [List.getElem?_set_self hLess] at hFound
      obtain rfl := Option.some.inj hFound
      rw [hSettled, hPlugin, h.outcome_eq id promise hPromise, hSignal]
      rfl
    · rw [List.getElem?_set_ne hSame] at hFound
      rw [hOther other hSame, h.outcome_eq other found hFound, Option.bind_none, Option.or_none]
  · intro other hId entry hEntry
    rw [List.length_set] at hId
    rcases List.mem_append.mp hEntry with hEntry | hEntry
    · exact h.silent other hId entry hEntry
    · rw [List.mem_singleton.mp hEntry]
      exact hOther other (Nat.ne_of_lt (Nat.lt_of_lt_of_le hLess hId))

end Loop

end Hypertext
