import Hypertext.Proofs.Chain.Happening
import Hypertext.Proofs.Isolation.Documents

/-! # A run among others

On a shared loop a run has its own objects, promises and jobs. A link says which they are, seen from
a loop on which the run is alone: there it is the first run, and its promises are numbered from the
first one. Jobs of the shared loop are the run's own, in the same order as on the loop of its own, or
foreign to it.
-/

namespace Hypertext

set_option autoImplicit false

variable {σ : Type}

structure Link where
  objects : Pairing
  /-- The numbers that the promises of the run have on the shared loop. -/
  promises : List Nat

/-! ## Whose a job is -/

namespace Job

def Of (run : Nat) (promises : List Promise) (job : Job σ) : Prop :=
  job.run? = some run ∨
    ∃ (id : Nat) (promise : Promise), job.promise? = some id ∧ promises[id]? = some promise ∧
      promise.run = run

structure Foreign (run : Nat) (promises : List Promise) (job : Job σ) : Prop where
  not_of : ¬ job.Of run promises
  made : ∀ id, job.promise? = some id → id < promises.length

theorem promise?_eq_none {job : Job σ} {run : Nat} (h : job.run? = some run) :
    job.promise? = none := by
  cases job with
  | start | resume => rfl
  | settle | task | taskEnded => cases h
  | relay waiter =>
    cases waiter with
    | run => rfl
    | task => cases h

end Job

/-- A run may add promises of its own and settle them; the others stay as they are. -/
structure Keeps (run : Nat) (promises next : List Promise) : Prop where
  old : ∀ (id : Nat) (promise : Promise), promises[id]? = some promise →
    ∃ twin : Promise, next[id]? = some twin ∧ twin.run = promise.run ∧
      (promise.run ≠ run → twin = promise)
  new : ∀ (id : Nat) (promise : Promise), next[id]? = some promise → promises.length ≤ id →
    promise.run = run

namespace Keeps

variable {run : Nat} {promises next last : List Promise}

theorem refl (run : Nat) (promises : List Promise) : Keeps run promises promises where
  old := fun _ promise h => ⟨promise, h, rfl, fun _ => rfl⟩
  new := fun _ _ h hLength => absurd (List.getElem?_eq_some_iff.mp h).1 (Nat.not_lt_of_le hLength)

theorem length_le (h : Keeps run promises next) : promises.length ≤ next.length := by
  by_contra hLess
  have hSome := List.getElem?_eq_getElem (Nat.lt_of_not_le hLess)
  obtain ⟨twin, hTwin, -⟩ := h.old next.length _ hSome
  exact absurd (List.getElem?_eq_some_iff.mp hTwin).1 (Nat.lt_irrefl _)

theorem trans (h : Keeps run promises next) (h' : Keeps run next last) : Keeps run promises last where
  old := by
    intro id promise hPromise
    obtain ⟨twin, hTwin, hRun, hSame⟩ := h.old id promise hPromise
    obtain ⟨final, hFinal, hRun', hSame'⟩ := h'.old id twin hTwin
    refine ⟨final, hFinal, hRun'.trans hRun, fun hNe => ?_⟩
    rw [hSame' (by rw [hRun]; exact hNe), hSame hNe]
  new := by
    intro id promise hPromise hLength
    by_cases hLess : id < next.length
    · obtain ⟨final, hFinal, hRun, -⟩ := h'.old id _ (List.getElem?_eq_getElem hLess)
      obtain rfl := Option.some.inj (hFinal.symm.trans hPromise)
      rw [hRun]
      exact h.new id _ (List.getElem?_eq_getElem hLess) hLength
    · exact h'.new id promise hPromise (Nat.le_of_not_lt hLess)

theorem concat (promises : List Promise) {promise : Promise} (hRun : promise.run = run) :
    Keeps run promises (promises ++ [promise]) where
  old := by
    intro id old hOld
    refine ⟨old, ?_, rfl, fun _ => rfl⟩
    rw [List.getElem?_append_left (List.getElem?_eq_some_iff.mp hOld).1, hOld]
  new := by
    intro id new hNew hLength
    rw [List.getElem?_append_right hLength] at hNew
    rw [List.mem_singleton.mp (List.mem_of_getElem? hNew), hRun]

theorem set {id : Nat} {promise settled : Promise} (hPromise : promises[id]? = some promise)
    (hRun : promise.run = run) (hSettled : settled.run = run) :
    Keeps run promises (promises.set id settled) where
  old := by
    intro other old hOld
    by_cases hSame : id = other
    · subst hSame
      obtain rfl := Option.some.inj (hPromise.symm.trans hOld)
      refine ⟨settled, ?_, hSettled.trans hRun.symm, fun hNe => absurd hRun hNe⟩
      exact List.getElem?_set_self (List.getElem?_eq_some_iff.mp hPromise).1
    · exact ⟨old, (List.getElem?_set_ne hSame).trans hOld, rfl, fun _ => rfl⟩
  new := by
    intro other new hNew hLength
    have hLess := (List.getElem?_eq_some_iff.mp hNew).1
    rw [List.length_set] at hLess
    exact absurd hLess (Nat.not_lt_of_le hLength)

theorem runs_lt (h : Keeps run promises next) {count : Nat} (hRun : run < count)
    (hOld : ∀ promise ∈ promises, promise.run < count) : ∀ promise ∈ next, promise.run < count := by
  intro promise hPromise
  obtain ⟨id, hId⟩ := List.getElem?_of_mem hPromise
  by_cases hLess : id < promises.length
  · obtain ⟨kept, hKept, hSame, -⟩ := h.old id _ (List.getElem?_eq_getElem hLess)
    obtain rfl := Option.some.inj (hId.symm.trans hKept)
    rw [hSame]
    exact hOld _ (List.getElem_mem hLess)
  · rw [h.new id promise hId (Nat.le_of_not_lt hLess)]
    exact hRun

end Keeps

namespace Job

variable {run other : Nat} {promises next : List Promise} {job : Job σ}

theorem Foreign.start : (Job.start other : Job σ).Foreign run promises where
  not_of := by
    rintro (hRun | ⟨id, _, hId, -⟩)
    · cases hRun
    · cases hId
  made := by
    intro id hId
    cases hId

theorem Of.keeps (h : job.Of run promises) (hKeeps : Keeps other promises next) :
    job.Of run next := by
  rcases h with hRun | ⟨id, promise, hId, hPromise, hRun⟩
  · exact Or.inl hRun
  · obtain ⟨twin, hTwin, hSame, -⟩ := hKeeps.old id promise hPromise
    exact Or.inr ⟨id, twin, hId, hTwin, hSame.trans hRun⟩

theorem Foreign.keeps (h : job.Foreign run promises) (hKeeps : Keeps other promises next) :
    job.Foreign run next where
  not_of := by
    rintro (hRun | ⟨id, twin, hId, hTwin, hRun⟩)
    · exact h.not_of (Or.inl hRun)
    · have hPromise := List.getElem?_eq_getElem (h.made id hId)
      obtain ⟨twin', hTwin', hSame, -⟩ := hKeeps.old id _ hPromise
      obtain rfl := Option.some.inj (hTwin.symm.trans hTwin')
      exact h.not_of (Or.inr ⟨id, _, hId, hPromise, hSame.symm.trans hRun⟩)
  made := fun id hId => Nat.lt_of_lt_of_le (h.made id hId) hKeeps.length_le

theorem Of.foreign (h : job.Of other promises) (hNe : other ≠ run) : job.Foreign run promises := by
  rcases h with hRun | ⟨id, promise, hId, hPromise, hRun⟩
  · have hNone := promise?_eq_none hRun
    constructor
    · rintro (hSame | ⟨id, _, hId, -⟩)
      · exact hNe (Option.some.inj (hRun.symm.trans hSame))
      · cases hNone.symm.trans hId
    · intro id hId
      cases hNone.symm.trans hId
  · constructor
    · rintro (hSame | ⟨id', promise', hId', hPromise', hRun'⟩)
      · cases (promise?_eq_none hSame).symm.trans hId
      · obtain rfl := Option.some.inj (hId.symm.trans hId')
        obtain rfl := Option.some.inj (hPromise.symm.trans hPromise')
        exact hNe (hRun.symm.trans hRun')
    · intro id' hId'
      obtain rfl := Option.some.inj (hId.symm.trans hId')
      exact (List.getElem?_eq_some_iff.mp hPromise).1

end Job

/-! ## The run seen from a loop of its own -/

namespace Pairing

inductive Tasks (β : Pairing) : Task σ → Task σ → Prop where
  | body {rest twin : Body σ} (h : β.Bodies rest twin) : Tasks β (.body rest) (.body twin)
  | relayed {outcome twin : Outcome Slot} (h : β.Outcomes outcome twin) :
    Tasks β (.relayed outcome) (.relayed twin)
  | ready {outcome twin : Outcome Slot} (h : β.Outcomes outcome twin) :
    Tasks β (.ready outcome) (.ready twin)

theorem Tasks.mono {β γ : Pairing} {task twin : Task σ} (h : β.Tasks task twin) (hLe : β ≤ γ) :
    γ.Tasks task twin := by
  cases h with
  | body h => exact .body (bodies_mono h hLe)
  | relayed h => exact .relayed (h.mono hLe)
  | ready h => exact .ready (h.mono hLe)

end Pairing

namespace Link

instance : LE Link := ⟨fun κ ν => κ.objects ≤ ν.objects ∧ κ.promises <+: ν.promises⟩

theorem le_refl (κ : Link) : κ ≤ κ := ⟨κ.objects.le_refl, List.prefix_rfl⟩

theorem le_trans {κ ν μ : Link} (h : κ ≤ ν) (h' : ν ≤ μ) : κ ≤ μ :=
  ⟨Pairing.le_trans h.1 h'.1, h.2.trans h'.2⟩

theorem getElem?_of_le {κ ν : Link} (h : κ ≤ ν) {id other : Nat}
    (hId : κ.promises[id]? = some other) : ν.promises[id]? = some other := by
  obtain ⟨more, hMore⟩ := h.2
  rw [← hMore, List.getElem?_append_left (List.getElem?_eq_some_iff.mp hId).1, hId]

/-- Loggers name the run that they belong to, and may differ. -/
structure Promises (κ : Link) (run : Nat) (promise twin : Promise) : Prop where
  twin_run : twin.run = run
  run_eq : promise.run = 0
  plugin_eq : promise.plugin = twin.plugin
  awaited_eq : promise.awaited = twin.awaited
  outcome : κ.objects.Endings promise.outcome twin.outcome

inductive Jobs (κ : Link) (run : Nat) : Job σ → Job σ → Prop where
  | resume {outcome twin : Option (Outcome Slot)} (h : κ.objects.Endings outcome twin) :
    Jobs κ run (.resume 0 outcome) (.resume run twin)
  | settle {id other : Nat} {completion twin : Completion} (hId : κ.promises[id]? = some other)
    (h : κ.objects.Completions completion twin) :
    Jobs κ run (.settle id completion) (.settle other twin)
  | task {id other : Nat} {task twin : Task σ} (hId : κ.promises[id]? = some other)
    (h : κ.objects.Tasks task twin) : Jobs κ run (.task id task) (.task other twin)
  | taskEnded {id other : Nat} {outcome twin : Outcome Slot} (hId : κ.promises[id]? = some other)
    (h : κ.objects.Outcomes outcome twin) :
    Jobs κ run (.taskEnded id outcome) (.taskEnded other twin)
  | relayRun {outcome twin : Outcome Slot} (h : κ.objects.Outcomes outcome twin) :
    Jobs κ run (.relay (.run 0) outcome) (.relay (.run run) twin)
  | relayTask {id other : Nat} {outcome twin : Outcome Slot} (hId : κ.promises[id]? = some other)
    (h : κ.objects.Outcomes outcome twin) :
    Jobs κ run (.relay (.task id) outcome) (.relay (.task other) twin)

inductive Queues (κ : Link) (run : Nat) (promises : List Promise) :
    List (Job σ) → List (Job σ) → Prop where
  | nil : Queues κ run promises [] []
  | own {job twin : Job σ} {jobs twins : List (Job σ)} (h : κ.Jobs run job twin)
    (hRest : Queues κ run promises jobs twins) :
    Queues κ run promises (job :: jobs) (twin :: twins)
  | foreign {twin : Job σ} {jobs twins : List (Job σ)} (h : twin.Foreign run promises)
    (hRest : Queues κ run promises jobs twins) : Queues κ run promises jobs (twin :: twins)

structure Mirrors (κ : Link) (run : Nat) (alone shared : Shared σ) : Prop where
  stores : κ.objects.Stores alone.world.store shared.world.store
  length_eq : κ.promises.length = alone.promises.length
  sorted : κ.promises.Pairwise (· < ·)
  all : ∀ (other : Nat) (twin : Promise), shared.promises[other]? = some twin → twin.run = run →
    other ∈ κ.promises
  promises : ∀ id other : Nat, κ.promises[id]? = some other →
    ∃ promise twin, alone.promises[id]? = some promise ∧ shared.promises[other]? = some twin ∧
      κ.Promises run promise twin
  queue : κ.Queues run shared.promises alone.queue shared.queue

variable {κ ν μ : Link} {run : Nat} {promises next : List Promise}

theorem Promises.mono {promise twin : Promise} (h : κ.Promises run promise twin) (hLe : κ ≤ ν) :
    ν.Promises run promise twin :=
  { h with outcome := h.outcome.mono hLe.1 }

theorem Jobs.mono {job twin : Job σ} (h : κ.Jobs run job twin) (hLe : κ ≤ ν) :
    ν.Jobs run job twin := by
  cases h with
  | resume h => exact .resume (h.mono hLe.1)
  | settle hId h => exact .settle (getElem?_of_le hLe hId) (h.mono hLe.1)
  | task hId h => exact .task (getElem?_of_le hLe hId) (h.mono hLe.1)
  | taskEnded hId h => exact .taskEnded (getElem?_of_le hLe hId) (h.mono hLe.1)
  | relayRun h => exact .relayRun (h.mono hLe.1)
  | relayTask hId h => exact .relayTask (getElem?_of_le hLe hId) (h.mono hLe.1)

namespace Queues

variable {jobs twins more moreTwins : List (Job σ)}

theorem keeps {other : Nat} (h : κ.Queues run promises jobs twins) (hLe : κ ≤ ν)
    (hKeeps : Keeps other promises next) : ν.Queues run next jobs twins := by
  induction h with
  | nil => exact .nil
  | own h _ ih => exact .own (h.mono hLe) ih
  | foreign h _ ih => exact .foreign (h.keeps hKeeps) ih

theorem append (h : κ.Queues run promises jobs twins)
    (h' : κ.Queues run promises more moreTwins) :
    κ.Queues run promises (jobs ++ more) (twins ++ moreTwins) := by
  induction h with
  | nil => exact h'
  | own h _ ih => exact .own h ih
  | foreign h _ ih => exact .foreign h ih

theorem of_own (h : List.Forall₂ (κ.Jobs run) jobs twins) : κ.Queues run promises jobs twins := by
  induction h with
  | nil => exact .nil
  | cons h _ ih => exact .own h ih

theorem of_foreign (h : ∀ twin ∈ twins, twin.Foreign run promises) :
    κ.Queues run promises ([] : List (Job σ)) twins := by
  induction twins with
  | nil => exact .nil
  | cons twin twins ih =>
    rw [List.forall_mem_cons] at h
    exact .foreign h.1 (ih h.2)

end Queues

theorem Mirrors.nodup {alone shared : Shared σ} (h : κ.Mirrors run alone shared) :
    κ.promises.Nodup :=
  h.sorted.imp Nat.ne_of_lt

theorem Mirrors.of {alone shared : Shared σ} (h : κ.Mirrors run alone shared) {job twin : Job σ}
    (hJob : κ.Jobs run job twin) : twin.Of run shared.promises := by
  have hPromise {id other : Nat} (hId : κ.promises[id]? = some other)
      (hAbout : twin.promise? = some other) : twin.Of run shared.promises := by
    obtain ⟨_, promise, -, hPromise, hSame⟩ := h.promises id other hId
    exact Or.inr ⟨other, promise, hAbout, hPromise, hSame.twin_run⟩
  cases hJob with
  | resume | relayRun => exact Or.inl rfl
  | settle hId | task hId | taskEnded hId | relayTask hId => exact hPromise hId rfl

/-! ## What a run does on the shared loop -/

/-- Only the run's own objects and promises change, and all jobs that are added are its own. -/
structure Acts (κ : Link) (run : Nat) (shared : Shared σ) (ν : Link) (next : Shared σ) : Prop where
  le : κ ≤ ν
  objects : κ.objects.Grows shared.world.store ν.objects next.world.store
  roster_eq : next.world.pipeline.roster = shared.world.pipeline.roster
  defaults_eq : next.world.pipeline.defaults = shared.world.pipeline.defaults
  keeps : Keeps run shared.promises next.promises
  queue : ∃ jobs, next.queue = shared.queue ++ jobs ∧ ∀ job ∈ jobs, job.Of run next.promises

structure Steps (κ : Link) (run : Nat) (shared : Shared σ) (ν : Link) (alone' shared' : Shared σ) :
    Prop where
  mirrors : ν.Mirrors run alone' shared'
  acts : κ.Acts run shared ν shared'

variable {alone alone' alone'' shared shared' shared'' : Shared σ}

theorem Acts.trans (h : κ.Acts run shared ν shared') (h' : ν.Acts run shared' μ shared'') :
    κ.Acts run shared μ shared'' where
  le := le_trans h.le h'.le
  objects := h.objects.trans h'.objects
  roster_eq := h'.roster_eq.trans h.roster_eq
  defaults_eq := h'.defaults_eq.trans h.defaults_eq
  keeps := h.keeps.trans h'.keeps
  queue := by
    obtain ⟨jobs, hJobs, hOf⟩ := h.queue
    obtain ⟨more, hMore, hOf'⟩ := h'.queue
    refine ⟨jobs ++ more, by rw [hMore, hJobs, List.append_assoc], ?_⟩
    intro job hJob
    rcases List.mem_append.mp hJob with hJob | hJob
    · exact (hOf job hJob).keeps h'.keeps
    · exact hOf' job hJob

theorem Steps.trans (h : κ.Steps run shared ν alone' shared')
    (h' : ν.Steps run shared' μ alone'' shared'') : κ.Steps run shared μ alone'' shared'' :=
  ⟨h'.mirrors, h.acts.trans h'.acts⟩

namespace Mirrors

theorem skip {world : World σ} {job : Job σ} {queue : List (Job σ)} {made : List Promise}
    (h : κ.Mirrors run alone ⟨world, job :: queue, made⟩) (hForeign : job.Foreign run made) :
    κ.Mirrors run alone ⟨world, queue, made⟩ := by
  refine { h with queue := ?_ }
  have hQueue := h.queue
  generalize alone.queue = jobs at hQueue ⊢
  cases hQueue with
  | own hJob _ => exact absurd (h.of hJob) hForeign.not_of
  | foreign _ hRest => exact hRest

theorem take {world : World σ} {job : Job σ} {queue : List (Job σ)} {made : List Promise}
    (h : κ.Mirrors run alone ⟨world, job :: queue, made⟩) (hOf : job.Of run made) :
    ∃ first rest, alone.queue = first :: rest ∧ κ.Jobs run first job ∧
      κ.Mirrors run { alone with queue := rest } ⟨world, queue, made⟩ := by
  have hQueue := h.queue
  generalize hAlone : alone.queue = jobs at hQueue
  cases hQueue with
  | own hJob hRest => exact ⟨_, _, rfl, hJob, { h with queue := hRest }⟩
  | foreign hForeign _ => exact absurd hOf hForeign.not_of

variable (h : κ.Mirrors run alone shared)

include h

theorem steps : κ.Steps run shared κ alone shared where
  mirrors := h
  acts :=
    { le := κ.le_refl
      objects := .refl _ _
      roster_eq := rfl
      defaults_eq := rfl
      keeps := .refl _ _
      queue := ⟨[], (List.append_nil _).symm, List.forall_mem_nil _⟩ }

theorem withWorld {γ : Pairing} {w v : World σ} (hMoves : κ.objects.Moves shared.world γ w v) :
    κ.Steps run shared ⟨γ, κ.promises⟩ (alone.withWorld w) (shared.withWorld v) := by
  have hLe : κ ≤ ⟨γ, κ.promises⟩ := ⟨hMoves.le, List.prefix_rfl⟩
  constructor
  · constructor
    · exact hMoves.stores
    · exact h.length_eq
    · exact h.sorted
    · exact h.all
    · intro id other hId
      obtain ⟨promise, twin, hHere, hThere, hSame⟩ := h.promises id other hId
      exact ⟨promise, twin, hHere, hThere, hSame.mono hLe⟩
    · exact h.queue.keeps hLe (.refl run _)
  · constructor
    · exact hLe
    · exact hMoves.leads.grows
    · exact hMoves.roster_eq
    · exact hMoves.defaults_eq
    · exact .refl _ _
    · exact ⟨[], (List.append_nil _).symm, List.forall_mem_nil _⟩

theorem postAll {jobs twins : List (Job σ)} (hJobs : List.Forall₂ (κ.Jobs run) jobs twins) :
    κ.Steps run shared κ (alone.postAll jobs) (shared.postAll twins) := by
  constructor
  · exact { h with queue := h.queue.append (.of_own hJobs) }
  · refine { h.steps.acts with queue := ⟨twins, rfl, ?_⟩ }
    intro twin hTwin
    obtain ⟨index, hLess, rfl⟩ := List.mem_iff_getElem.mp hTwin
    have hJob := hJobs.get (i := index) (hJobs.length_eq ▸ hLess) hLess
    exact h.of hJob

theorem post {job twin : Job σ} (hJob : κ.Jobs run job twin) :
    κ.Steps run shared κ (alone.post job) (shared.post twin) :=
  h.postAll (.cons hJob .nil)

theorem aside {ω : Link} {other : Nat} {next : Shared σ} (hActs : ω.Acts other shared ν next)
    (hApart : κ.objects.Apart ω.objects) (hNe : other ≠ run) : κ.Mirrors run alone next := by
  obtain ⟨jobs, hQueue, hOf⟩ := hActs.queue
  constructor
  · exact h.stores.untouched hApart hActs.objects
  · exact h.length_eq
  · exact h.sorted
  · intro number twin hTwin hRun
    by_cases hOld : number < shared.promises.length
    · obtain ⟨kept, hKept, hSame, -⟩ := hActs.keeps.old number _ (List.getElem?_eq_getElem hOld)
      obtain rfl := Option.some.inj (hTwin.symm.trans hKept)
      exact h.all number _ (List.getElem?_eq_getElem hOld) (hSame.symm.trans hRun)
    · have hNew := hActs.keeps.new number twin hTwin (Nat.le_of_not_lt hOld)
      exact absurd (hNew.symm.trans hRun) hNe
  · intro id number hId
    obtain ⟨promise, twin, hHere, hThere, hPromise⟩ := h.promises id number hId
    obtain ⟨kept, hKept, -, hSame⟩ := hActs.keeps.old number twin hThere
    obtain rfl := hSame (by rw [hPromise.twin_run]; exact hNe.symm)
    exact ⟨promise, kept, hHere, hKept, hPromise⟩
  · rw [hQueue, ← List.append_nil alone.queue]
    exact (h.queue.keeps κ.le_refl hActs.keeps).append
      (.of_foreign fun job hJob => (hOf job hJob).foreign hNe)

end Mirrors

end Link

end Hypertext
