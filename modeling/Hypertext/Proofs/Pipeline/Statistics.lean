import Mathlib.Data.List.Induction
import Hypertext.Proofs.Chain.Happening
import Hypertext.Proofs.Chain.Upkeep
import Hypertext.Proofs.Isolation.Calls
import Hypertext.Proofs.Pipeline.Stages

/-! # Statistics of a pipeline

A pipeline counts the runs that ended since it was made or last reset, and those of them that gave a
result. What has ended and what was reset is read off the history: a run has ended when it has a result
or a fault, in either mode. Plugins may call and reset the pipeline as well; what they do that way is
told by a ledger that they keep in their scene.
-/

namespace Hypertext

set_option autoImplicit false

variable {σ ρ : Type}

/-! ## What is counted -/

inductive Notice where
  | ended (outcome : Outcome ProcessResult)
  | reset

namespace Notice

/-- The runs that have ended since the last reset. -/
def sinceReset (notices : List Notice) : List (Outcome ProcessResult) :=
  notices.foldl (fun ended notice =>
    match notice with
    | .ended outcome => ended ++ [outcome]
    | .reset => []) []

theorem sinceReset_ended (notices : List Notice) (outcome : Outcome ProcessResult) :
    sinceReset (notices ++ [.ended outcome]) = sinceReset notices ++ [outcome] := by
  rw [sinceReset, List.foldl_append]
  rfl

theorem sinceReset_reset (notices : List Notice) : sinceReset (notices ++ [.reset]) = [] := by
  rw [sinceReset, List.foldl_append]
  rfl

end Notice

namespace ProcessResult

/-- Whether a run ended in a failure, which not every fault is. -/
def failed : Outcome ProcessResult → Bool
  | .ok _ => false
  | .error fault => fault.isFailure

def delivered : Outcome ProcessResult → Bool
  | .ok _ => true
  | .error _ => false

end ProcessResult

structure Tally where
  runs : Nat
  successes : Nat

def Pipeline.tally (pipeline : Pipeline) : Tally := ⟨pipeline.runs, pipeline.successes⟩

namespace Tally

def enter (tally : Tally) : Notice → Tally
  | .ended (.ok _) => ⟨tally.runs + 1, tally.successes + 1⟩
  | .ended (.error fault) => if fault.isFailure then ⟨tally.runs + 1, tally.successes⟩ else tally
  | .reset => ⟨0, 0⟩

def enterAll (tally : Tally) (notices : List Notice) : Tally := notices.foldl enter tally

theorem enterAll_append (tally : Tally) (notices more : List Notice) :
    tally.enterAll (notices ++ more) = (tally.enterAll notices).enterAll more := List.foldl_append

theorem enter_leaving (tally : Tally) (outcome : Outcome ProcessResult) :
    tally.enter (.ended (outcome.mapError Fault.leaving)) = tally.enter (.ended outcome) := by
  cases outcome with
  | ok result => rfl
  | error fault => simp only [Outcome.mapError_error, enter, Fault.isFailure_leaving]

theorem enterAll_eq (notices : List Notice) :
    (⟨0, 0⟩ : Tally).enterAll notices =
      ⟨(Notice.sinceReset notices).countP ProcessResult.delivered +
          (Notice.sinceReset notices).countP ProcessResult.failed,
        (Notice.sinceReset notices).countP ProcessResult.delivered⟩ := by
  induction notices using List.reverseRecOn with
  | nil => rfl
  | append_singleton notices notice ih =>
    rw [enterAll_append, ih]
    cases notice with
    | reset => rw [Notice.sinceReset_reset]; rfl
    | ended outcome =>
      rw [Notice.sinceReset_ended, List.countP_append, List.countP_append]
      generalize (Notice.sinceReset notices).countP ProcessResult.delivered = successes
      generalize (Notice.sinceReset notices).countP ProcessResult.failed = failures
      cases outcome with
      | ok result =>
        simp [enterAll, enter, ProcessResult.delivered, ProcessResult.failed, Nat.add_right_comm]
      | error fault =>
        cases hFailure : fault.isFailure <;>
          simp [enterAll, enter, ProcessResult.delivered, ProcessResult.failed, hFailure,
            Nat.add_assoc]

end Tally

/-! ## Keeping the books -/

namespace World

/-- What went on between two worlds: what the ledger got, and behind it what is known otherwise, is
what the counters went through. -/
def Books (ledger : σ → List Notice) (notices : List Notice) (before after : World σ) : Prop :=
  ∃ more, ledger after.scene = ledger before.scene ++ more ∧
    after.pipeline.tally = before.pipeline.tally.enterAll (more ++ notices)

variable {ledger : σ → List Notice} {notices : List Notice} {first second third : World σ}

theorem Books.of_eq (hScene : second.scene = first.scene)
    (hTally : second.pipeline.tally = first.pipeline.tally.enterAll notices) :
    Books ledger notices first second :=
  ⟨[], by rw [hScene, List.append_nil], hTally⟩

theorem Books.trans (hFirst : Books ledger [] first second)
    (hSecond : Books ledger notices second third) : Books ledger notices first third := by
  obtain ⟨some, hSome, hTally⟩ := hFirst
  obtain ⟨more, hMore, hNext⟩ := hSecond
  refine ⟨some ++ more, ?_, ?_⟩
  · rw [hMore, hSome, List.append_assoc]
  · rw [hNext, hTally, List.append_nil, ← Tally.enterAll_append, List.append_assoc]

theorem Books.leaving {outcome : Outcome ProcessResult}
    (h : Books ledger [.ended outcome] first second) :
    Books ledger [.ended (outcome.mapError Fault.leaving)] first second := by
  obtain ⟨more, hMore, hTally⟩ := h
  refine ⟨more, hMore, ?_⟩
  rw [hTally, Tally.enterAll_append, Tally.enterAll_append]
  exact (Tally.enter_leaving _ outcome).symm

theorem books_neutral (ledger : σ → List Notice) : Neutral (Books ledger []) where
  refl _ := .of_eq rfl rfl
  trans := .trans
  write _ _ _ _ _ _ := .of_eq rfl rfl

end World

theorem books_normalize {ledger : σ → List Notice} (world : World σ) (candidate previous : Slot)
    (options : OptionsRef) (logger : Option Logger) :
    World.Books ledger [] world (normalize world candidate previous options logger).2 := by
  unfold normalize
  split
  · exact .of_eq rfl rfl
  · split
    · exact .of_eq rfl rfl
    · split <;> exact .of_eq rfl rfl

/-- Plugins and collaborators leave the counters alone, or keep the ledger when they use the pipeline
themselves. -/
structure Conduct.KeepsBooks (ledger : σ → List Notice) (conduct : Conduct σ) : Prop where
  call : ∀ plugin tree world,
    World.Books ledger [] world (conduct.plugin plugin tree world).world
  body : ∀ plugin tree world returned body,
    (conduct.plugin plugin tree world).outcome = .ok returned → returned.body? = some body →
      Body.Leads (World.Books ledger []) body
  discard : ∀ plugin tree world returned,
    (conduct.plugin plugin tree world).outcome = .ok returned →
      ∀ later, World.Books ledger [] later (returned.discard later)
  collaborator : ∀ collaborator subject options world,
    World.Books ledger [] world (conduct.collaborator collaborator subject options world).2

namespace Conduct.KeepsBooks

variable {ledger : σ → List Notice} {conduct : Conduct σ}

theorem upkeep (h : conduct.KeepsBooks ledger) (context : Context) :
    Upkeep conduct context (World.Books ledger []) (World.Books ledger []) fun _ _ => True where
  toNeutral := World.books_neutral ledger
  acts h := h
  fit _ _ := trivial
  normalized _ _ _ _ _ := ⟨books_normalize _ _ _ _ _, trivial⟩
  call plugin tree world _ := h.call plugin tree world
  body := h.body
  discard := h.discard

theorem stages (h : conduct.KeepsBooks ledger) : Stages conduct (World.Books ledger []) where
  trans := .trans
  change _ _ _ := .of_eq rfl rfl
  collaborator := h.collaborator

end Conduct.KeepsBooks

/-! ## Runs -/

namespace Processing

variable {ledger : σ → List Notice} {conduct : Conduct σ} {context : Context} {brief : Brief}
  {world : World σ}

theorem books_fail (correlationId : Value) (fault : Fault) :
    World.Books ledger [.ended (.error fault)] world (fail world correlationId fault) := by
  cases hFailure : fault.isFailure with
  | true =>
    rw [fail, if_pos hFailure]
    exact .of_eq rfl (by simp [Tally.enterAll, Tally.enter, hFailure]; rfl)
  | false =>
    rw [fail, if_neg (by rw [hFailure]; exact Bool.false_ne_true)]
    exact .of_eq rfl (by simp [Tally.enterAll, Tally.enter, hFailure])

theorem books_conclude (h : conduct.KeepsBooks ledger) (context : Context) (chain : ChainEnd σ) :
    World.Books ledger [.ended (conclude conduct context chain).2] chain.world
      (conclude conduct context chain).1 := by
  obtain ⟨world, metrics, outcome⟩ := chain
  cases outcome with
  | error fault => exact books_fail _ fault
  | ok tree =>
    have hFinish := h.stages.finish context tree metrics world
    cases hEnded : finish conduct context tree metrics world with
    | mk result next =>
      rw [hEnded] at hFinish
      simp only [conclude, hEnded]
      cases result with
      | error fault => exact hFinish.trans (books_fail _ fault)
      | ok result => exact hFinish.trans (.of_eq rfl rfl)

theorem books_concludeLater (h : conduct.KeepsBooks ledger) (context : Context)
    (chain : ChainEnd σ) :
    World.Books ledger [.ended (concludeLater conduct context chain).2] chain.world
      (concludeLater conduct context chain).1 :=
  (books_conclude h context chain).leaving

theorem books_prepare (h : conduct.KeepsBooks ledger) (brief : Brief) (world : World σ) :
    match (routine conduct brief).prepare world with
    | (next, .inl result) => World.Books ledger [.ended result] world next
    | (next, .inr launch) =>
      World.Books ledger [] world next ∧
        launch.conclude = concludeLater conduct launch.context := by
  simp only [routine]
  cases hContext : brief.context conduct world with
  | error fault => exact (books_fail _ fault).leaving
  | ok begun =>
    obtain ⟨context, next⟩ := begun
    have hBegun : World.Books ledger [] world (logStart next context brief.plugins "async") :=
      (h.stages.briefContext hContext).trans (.of_eq rfl rfl)
    have hLoad := hBegun.trans (h.stages.loadTree context brief.source
      (logStart next context brief.plugins "async"))
    dsimp only
    generalize loadTree conduct context brief.source (logStart next context brief.plugins "async") =
      loaded at hLoad
    obtain ⟨outcome, last⟩ := loaded
    cases outcome with
    | error fault => exact hLoad.trans (books_fail _ fault).leaving
    | ok tree => exact ⟨hLoad, rfl⟩

theorem books_blocking (h : conduct.KeepsBooks ledger)
    (hAccepted : (brief.context conduct world).isOk = true) :
    World.Books ledger [.ended (blocking conduct brief world).2] world
      (blocking conduct brief world).1 := by
  obtain ⟨⟨context, next⟩, hContext⟩ : ∃ begun, brief.context conduct world = .ok begun := by
    cases hContext : brief.context conduct world with
    | ok begun => exact ⟨begun, rfl⟩
    | error fault =>
      rw [hContext] at hAccepted
      cases hAccepted
  have hBegun : World.Books ledger [] world (logStart next context brief.plugins "sync") :=
    (h.stages.briefContext hContext).trans (.of_eq rfl rfl)
  have hLoad := hBegun.trans (h.stages.loadTree context brief.source
    (logStart next context brief.plugins "sync"))
  simp only [blocking, hContext]
  generalize loadTree conduct context brief.source (logStart next context brief.plugins "sync") =
    loaded at hLoad
  obtain ⟨outcome, last⟩ := loaded
  cases outcome with
  | error fault => exact hLoad.trans (books_fail _ fault)
  | ok tree =>
    have hChain : World.Books ledger [] last
        (Blocking.run conduct context brief.plugins tree .empty last).world := by
      unfold Blocking.run
      split
      · exact .of_eq rfl rfl
      · rename_i first store hAttach
        exact World.Books.trans (.of_eq rfl rfl)
          ((h.upkeep context).runFrom brief.plugins 0 first .empty (last.withStore store) trivial).1
    exact hLoad.trans (hChain.trans (books_conclude h context _))

end Processing

/-! ## Histories -/

inductive Occurrence (σ : Type) where
  | call (request : Request Slot)
  | use (arguments : List Value)
  | reset
  | happen (happening : Happening σ)

namespace Loop

/-- The results that are there now and were not before. -/
def endings (loop next : Loop σ ρ) : List ρ :=
  (List.range next.runs.length).filterMap fun run =>
    if (loop.result? run).isSome then none else next.result? run

def undergo (conduct : Conduct σ) (loop : Loop σ (Outcome ProcessResult)) :
    Occurrence σ → Loop σ (Outcome ProcessResult)
  | .call request => loop.call conduct request
  | .use arguments =>
    let world := loop.shared.world
    let pipeline := (world.pipeline.use arguments).1
    { loop with shared := loop.shared.withWorld { world with pipeline } }
  | .reset => { loop with shared := loop.shared.withWorld (Processing.reset loop.shared.world) }
  | .happen happening => loop.happen conduct happening

def undergoAll (conduct : Conduct σ) (loop : Loop σ (Outcome ProcessResult))
    (history : List (Occurrence σ)) : Loop σ (Outcome ProcessResult) :=
  history.foldl (undergo conduct) loop

def notices (loop next : Loop σ (Outcome ProcessResult)) : Occurrence σ → List Notice
  | .reset => [.reset]
  | _ => (loop.endings next).map .ended

/-- What there is to tell of a history, in the order in which it happened. -/
def chronicle (conduct : Conduct σ) (ledger : σ → List Notice)
    (loop : Loop σ (Outcome ProcessResult)) : List (Occurrence σ) → List Notice
  | [] => []
  | occurrence :: history =>
    let next := loop.undergo conduct occurrence
    (ledger next.shared.world.scene).drop (ledger loop.shared.world.scene).length ++
      loop.notices next occurrence ++ chronicle conduct ledger next history

/-- No call in blocking mode has its options refused. -/
def Accepts (conduct : Conduct σ) (loop : Loop σ (Outcome ProcessResult)) :
    List (Occurrence σ) → Prop
  | [] => True
  | occurrence :: history =>
    (∀ request, occurrence = .call request →
      (request.brief loop.shared.world.pipeline).isBlocking loop.shared.world.store = true →
      ((request.brief loop.shared.world.pipeline).context conduct loop.shared.world).isOk = true) ∧
    (loop.undergo conduct occurrence).Accepts conduct history

end Loop

/-- What comes from outside the loop keeps the ledger as well. -/
def Occurrence.KeepsBooks (ledger : σ → List Notice) : Occurrence σ → Prop
  | .happen (.change act) => ∀ world, World.Books ledger [] world (act world)
  | .happen (.hand job) => job.Leads (World.Books ledger [])
  | _ => True

/-! ## What has ended -/

def RunState.result? : RunState σ ρ → Option ρ
  | .ended result => some result
  | _ => none

namespace Loop

variable {loop next : Loop σ ρ} {run : Nat}

theorem filterMap_range_eq {α : Type} {f : Nat → Option α} (run : Nat)
    (hElse : ∀ other, other ≠ run → f other = none) (length : Nat) :
    (List.range length).filterMap f = if run < length then (f run).toList else [] := by
  induction length with
  | zero => rfl
  | succ length ih =>
    rw [List.range_succ, List.filterMap_append, ih]
    by_cases hRun : run = length
    · subst hRun
      rw [if_neg (Nat.lt_irrefl run), if_pos (Nat.lt_succ_self run)]
      cases hSome : f run <;> simp [hSome]
    · have hLast : f length = none := hElse length (Ne.symm hRun)
      have hIff : run < length + 1 ↔ run < length := by omega
      simp only [List.filterMap_cons, hLast, List.filterMap_nil, List.append_nil, hIff]

theorem endings_eq (hNone : loop.result? run = none) (hRun : run < next.runs.length)
    (hElse : ∀ other, other ≠ run → next.result? other = loop.result? other) :
    loop.endings next = (next.result? run).toList := by
  rw [endings, filterMap_range_eq run, if_pos hRun, hNone]
  · rfl
  · intro other hOther
    cases hResult : loop.result? other with
    | none => rw [hElse other hOther, hResult]; rfl
    | some result => rfl

theorem endings_same (hRuns : next.runs = loop.runs) : loop.endings next = [] := by
  rw [endings, List.filterMap_eq_nil_iff]
  intro run hRun
  have hSame : next.result? run = loop.result? run := by
    rw [result?, result?, hRuns]
  cases hResult : loop.result? run with
  | none => rw [hSame, hResult]; rfl
  | some result => rfl

theorem result?_of_state {state : RunState σ ρ} (h : loop.runs[run]? = some state) :
    loop.result? run = state.result? := by
  rw [result?, h]
  cases state <;> rfl

theorem endings_set {state left : RunState σ ρ} (hRun : loop.runs[run]? = some left)
    (hLeft : left.result? = none) (hNext : next.runs = loop.runs.set run state) :
    loop.endings next = state.result?.toList := by
  have hLength : run < loop.runs.length := (List.getElem?_eq_some_iff.mp hRun).1
  rw [endings_eq ((result?_of_state hRun).trans hLeft)]
  · rw [result?_of_state]
    rw [hNext, List.getElem?_set_self hLength]
  · rw [hNext, List.length_set]
    exact hLength
  · intro other hOther
    rw [result?, result?, hNext, List.getElem?_set_ne (Ne.symm hOther)]

theorem endings_append {state : RunState σ ρ} (hNext : next.runs = loop.runs ++ [state]) :
    loop.endings next = state.result?.toList := by
  have hNone : loop.result? loop.runs.length = none := by
    rw [result?, List.getElem?_eq_none (Nat.le_refl _)]
  rw [endings_eq hNone]
  · rw [result?_of_state]
    rw [hNext, List.getElem?_concat_length]
  · rw [hNext, List.length_append]
    exact Nat.lt_succ_self _
  · intro other hOther
    rw [result?, result?, hNext]
    by_cases hLess : other < loop.runs.length
    · rw [List.getElem?_append_left hLess]
    · rw [List.getElem?_eq_none (by simp; omega), List.getElem?_eq_none (by omega)]

end Loop

/-! ## Every run is counted when it ends -/

/-- A run of the pipeline, with what is left to do of a coroutine that it waits for. -/
def RunState.IsCounted (conduct : Conduct σ) (ledger : σ → List Notice) :
    RunState σ (Outcome ProcessResult) → Prop
  | .fresh routine => ∃ brief, routine = Processing.routine conduct brief
  | .active launch paused =>
    launch.conclude = Processing.concludeLater conduct launch.context ∧
      paused.wait.Leads (World.Books ledger [])
  | .ended _ => True

structure Loop.IsCounted (conduct : Conduct σ) (ledger : σ → List Notice)
    (loop : Loop σ (Outcome ProcessResult)) : Prop where
  queue : loop.shared.Leads (World.Books ledger [])
  runs : ∀ state ∈ loop.runs, state.IsCounted conduct ledger

/-- The loop went on, and the counters with it: all that ended is counted. -/
structure Loop.Counts (conduct : Conduct σ) (ledger : σ → List Notice)
    (loop next : Loop σ (Outcome ProcessResult)) : Prop where
  counted : next.IsCounted conduct ledger
  books : World.Books ledger ((loop.endings next).map .ended) loop.shared.world next.shared.world

namespace Loop

variable {ledger : σ → List Notice} {conduct : Conduct σ} {loop : Loop σ (Outcome ProcessResult)}
  {run : Nat}

theorem counts_same (hLoop : loop.IsCounted conduct ledger) (next : Shared σ)
    (hNext : loop.shared.Upkept (World.Books ledger []) (World.Books ledger []) next) :
    loop.Counts conduct ledger ⟨next, loop.runs⟩ where
  counted := ⟨hNext.queue, hLoop.runs⟩
  books := by
    have hNone : loop.endings ⟨next, loop.runs⟩ = [] := endings_same rfl
    rw [hNone]
    exact hNext.leads

theorem counts_set {left : RunState σ (Outcome ProcessResult)} {next : Shared σ}
    (state : RunState σ (Outcome ProcessResult)) (hLoop : loop.IsCounted conduct ledger)
    (hRun : loop.runs[run]? = some left) (hLeft : left.result? = none)
    (hQueue : next.Leads (World.Books ledger []))
    (hState : state.IsCounted conduct ledger)
    (hBooks : World.Books ledger (state.result?.toList.map .ended) loop.shared.world next.world) :
    loop.Counts conduct ledger ⟨next, loop.runs.set run state⟩ where
  counted := by
    refine ⟨hQueue, fun other hOther => ?_⟩
    rcases List.mem_or_eq_of_mem_set hOther with hOld | rfl
    · exact hLoop.runs other hOld
    · exact hState
  books := by
    rw [endings_set hRun hLeft rfl]
    exact hBooks

theorem counts_stand (h : conduct.KeepsBooks ledger) (hLoop : loop.IsCounted conduct ledger)
    {left : RunState σ (Outcome ProcessResult)} (hRun : loop.runs[run]? = some left)
    (hLeft : left.result? = none) {launch : Launch σ (Outcome ProcessResult)}
    (hLaunch : launch.conclude = Processing.concludeLater conduct launch.context)
    {step : Shared σ × Standing σ}
    (hBooks : World.Books ledger [] loop.shared.world step.1.world)
    (hQueue : step.1.Leads (World.Books ledger []))
    (hStanding : step.2.Fits (World.Books ledger []) (fun _ _ => True) step.1.world) :
    loop.Counts conduct ledger (loop.stand run launch step) := by
  obtain ⟨shared, standing⟩ := step
  cases standing with
  | paused paused => exact counts_set _ hLoop hRun hLeft hQueue ⟨hLaunch, hStanding.wait⟩ hBooks
  | finished metrics outcome =>
    have hEnd := Processing.books_concludeLater h launch.context
      ⟨shared.world, metrics, outcome⟩
    rw [← hLaunch] at hEnd
    exact counts_set (.ended _) hLoop hRun hLeft hQueue trivial (hBooks.trans hEnd)

theorem counts_startRun (h : conduct.KeepsBooks ledger) (hLoop : loop.IsCounted conduct ledger)
    {brief : Brief} (hRun : loop.runs[run]? = some (.fresh (Processing.routine conduct brief))) :
    loop.Counts conduct ledger (loop.startRun conduct run (Processing.routine conduct brief)) := by
  have hPrepared := Processing.books_prepare h brief loop.shared.world
  rw [startRun]
  generalize (Processing.routine conduct brief).prepare loop.shared.world = prepared at hPrepared
  obtain ⟨world, result | launch⟩ := prepared
  · exact counts_set (.ended _) hLoop hRun rfl hLoop.queue trivial hPrepared
  · obtain ⟨hBooks, hLaunch⟩ := hPrepared
    dsimp only
    split
    · exact counts_stand h hLoop hRun rfl hLaunch hBooks hLoop.queue trivial
    · rename_i tree store hAttach
      have hBegun : World.Books ledger [] loop.shared.world (world.withStore store) :=
        hBooks.trans (.of_eq rfl rfl)
      obtain ⟨⟨hLeads, hQueue⟩, hStanding⟩ := (h.upkeep launch.context).advance run
        (Processing.routine conduct brief).plugins 0 launch.metrics
        (loop.shared.withWorld (world.withStore store)) trivial hLoop.queue
      exact counts_stand h hLoop hRun rfl hLaunch (hBegun.trans hLeads) hQueue hStanding

theorem counts_perform (h : conduct.KeepsBooks ledger)
    (loop : Loop σ (Outcome ProcessResult)) (hLoop : loop.IsCounted conduct ledger)
    (job : Job σ) (hJob : job.Leads (World.Books ledger [])) :
    loop.Counts conduct ledger (loop.perform conduct job) := by
  rcases (World.books_neutral ledger).perform_cases conduct loop hLoop.queue hJob with
    ⟨run, routine, rfl, hRun⟩ | ⟨run, outcome, launch, paused, rfl, hRun⟩ | ⟨next, hNext, hUpkept⟩
  · obtain ⟨brief, rfl⟩ := hLoop.runs _ (List.mem_of_getElem? hRun)
    rw [perform, hRun]
    exact counts_startRun h hLoop hRun
  · obtain ⟨hLaunch, hWait⟩ := hLoop.runs _ (List.mem_of_getElem? hRun)
    obtain ⟨⟨hBooks, hQueue⟩, hStanding⟩ := (h.upkeep launch.context).wake run
      loop.shared ⟨trivial, hWait⟩ hLoop.queue outcome
    rw [perform, hRun]
    exact counts_stand h hLoop hRun rfl hLaunch hBooks hQueue hStanding
  · rw [hNext]
    exact counts_same hLoop next hUpkept

theorem counts_happen (h : conduct.KeepsBooks ledger) (hLoop : loop.IsCounted conduct ledger)
    {happening : Happening σ} (hSound : (Occurrence.happen happening).KeepsBooks ledger) :
    loop.Counts conduct ledger (loop.happen conduct happening) := by
  have hSame : loop.Counts conduct ledger loop :=
    counts_same hLoop _ ⟨.of_eq rfl rfl, hLoop.queue⟩
  cases happening with
  | start run => exact counts_perform h loop hLoop (.start run) trivial
  | change act => exact counts_same hLoop _ ⟨hSound loop.shared.world, hLoop.queue⟩
  | hand job =>
    simp only [happen]
    split
    · exact counts_same hLoop _ ⟨.of_eq rfl rfl, Shared.Leads.post hLoop.queue hSound⟩
    · exact hSame
  | job =>
    obtain ⟨⟨world, queue, promises⟩, runs⟩ := loop
    cases queue with
    | nil => exact hSame
    | cons job queue =>
      obtain ⟨hJob, hQueue⟩ := List.forall_mem_cons.mp hLoop.queue
      obtain ⟨hCounted, hBooks⟩ := counts_perform h
        ⟨⟨world, queue, promises⟩, runs⟩ ⟨hQueue, hLoop.runs⟩ job hJob
      exact ⟨hCounted, hBooks⟩

theorem counts_call (h : conduct.KeepsBooks ledger) (hLoop : loop.IsCounted conduct ledger)
    {request : Request Slot}
    (hAccepted : (request.brief loop.shared.world.pipeline).isBlocking loop.shared.world.store = true →
      ((request.brief loop.shared.world.pipeline).context conduct loop.shared.world).isOk = true) :
    loop.Counts conduct ledger (loop.call conduct request) := by
  have hRuns {state : RunState σ (Outcome ProcessResult)} (hState : state.IsCounted conduct ledger) :
      ∀ other ∈ loop.runs ++ [state], other.IsCounted conduct ledger :=
    List.forall_mem_append.mpr ⟨hLoop.runs, List.forall_mem_singleton.mpr hState⟩
  cases hBlocking : (request.brief loop.shared.world.pipeline).isBlocking loop.shared.world.store with
  | true =>
    rw [call_of_blocking rfl hBlocking]
    refine ⟨⟨hLoop.queue, hRuns trivial⟩, ?_⟩
    rw [endings_append rfl]
    exact Processing.books_blocking h (hAccepted hBlocking)
  | false =>
    rw [call_of_not_blocking rfl hBlocking]
    refine ⟨⟨hLoop.queue, hRuns ⟨_, rfl⟩⟩, ?_⟩
    rw [endings_append rfl]
    exact .of_eq rfl rfl

theorem undergo_counted (h : conduct.KeepsBooks ledger) (hLoop : loop.IsCounted conduct ledger)
    {occurrence : Occurrence σ} (hSound : occurrence.KeepsBooks ledger)
    (hAccepted : loop.Accepts conduct [occurrence]) :
    (loop.undergo conduct occurrence).IsCounted conduct ledger ∧
      World.Books ledger (loop.notices (loop.undergo conduct occurrence) occurrence)
        loop.shared.world (loop.undergo conduct occurrence).shared.world := by
  cases occurrence with
  | call request =>
    obtain ⟨hCounted, hBooks⟩ := counts_call h hLoop (hAccepted.1 request rfl)
    exact ⟨hCounted, hBooks⟩
  | happen happening =>
    obtain ⟨hCounted, hBooks⟩ := counts_happen h hLoop hSound
    exact ⟨hCounted, hBooks⟩
  | use arguments =>
    obtain ⟨hCounted, hBooks⟩ := counts_same hLoop
      (loop.undergo conduct (.use arguments)).shared ⟨.of_eq rfl rfl, hLoop.queue⟩
    exact ⟨hCounted, hBooks⟩
  | reset => exact ⟨⟨hLoop.queue, hLoop.runs⟩, .of_eq rfl rfl⟩

theorem tally_chronicle (h : conduct.KeepsBooks ledger) (hLoop : loop.IsCounted conduct ledger)
    (history : List (Occurrence σ)) (hSound : ∀ occurrence ∈ history, occurrence.KeepsBooks ledger)
    (hAccepted : loop.Accepts conduct history) :
    (loop.undergoAll conduct history).shared.world.pipeline.tally =
      loop.shared.world.pipeline.tally.enterAll (loop.chronicle conduct ledger history) := by
  induction history generalizing loop with
  | nil => rfl
  | cons occurrence history ih =>
    obtain ⟨hFirst, hRest⟩ := List.forall_mem_cons.mp hSound
    obtain ⟨hCounted, more, hMore, hTally⟩ := undergo_counted h hLoop hFirst ⟨hAccepted.1, trivial⟩
    have hNext := ih hCounted hRest hAccepted.2
    have hNew : (ledger (loop.undergo conduct occurrence).shared.world.scene).drop
        (ledger loop.shared.world.scene).length = more := by
      rw [hMore, List.drop_left]
    rw [undergoAll, List.foldl_cons, chronicle, hNew, Tally.enterAll_append, ← hTally]
    exact hNext

end Loop

/-- One plugin fails in its call; any other gives a future that is cancelled. -/
def Conduct.troubled : Conduct Unit where
  plugin plugin _ world :=
    ⟨world, [], if plugin.name = "boom" then .error (.raised (.plain "RuntimeError" ""))
      else .ok (.loopFuture (.settled (.error .cancelled)) id)⟩
  collaborator _ subject _ world := (.ok subject, world)
  files _ := .missing
  freshId _ := ""
  depth := 1000

theorem Conduct.keepsBooks_troubled : troubled.KeepsBooks fun _ => [] where
  call _ _ _ := .of_eq rfl rfl
  body plugin _ _ returned body hOutcome hBody := by
    simp only [troubled] at hOutcome
    split at hOutcome
    · cases hOutcome
    · cases hOutcome
      cases hBody
  discard plugin _ _ returned hOutcome later := by
    simp only [troubled] at hOutcome
    split at hOutcome
    · cases hOutcome
    · cases hOutcome
      exact .of_eq rfl rfl
  collaborator _ _ _ _ := .of_eq rfl rfl

namespace Loop

/-- The counters of a pipeline tell, in either mode and at any time, how many runs have given a result
since the last reset, and how many have failed. -/
theorem statistics_count {conduct : Conduct σ} {ledger : σ → List Notice}
    (h : conduct.KeepsBooks ledger) (world : World σ)
    (hRuns : world.pipeline.runs = 0) (hSuccesses : world.pipeline.successes = 0)
    (history : List (Occurrence σ)) (hSound : ∀ occurrence ∈ history, occurrence.KeepsBooks ledger)
    (hAccepted : (ofWorld world).Accepts conduct history) :
    let ended := Notice.sinceReset ((ofWorld world).chronicle conduct ledger history)
    let pipeline := ((ofWorld world).undergoAll conduct history).shared.world.pipeline
    pipeline.runs = ended.countP ProcessResult.delivered + ended.countP ProcessResult.failed ∧
      pipeline.successes = ended.countP ProcessResult.delivered ∧
      pipeline.runs - pipeline.successes = ended.countP ProcessResult.failed := by
  intro ended pipeline
  have hLoop : (ofWorld world).IsCounted conduct ledger :=
    ⟨List.forall_mem_nil _, List.forall_mem_nil _⟩
  have hTally := tally_chronicle h hLoop history hSound hAccepted
  have hStart : world.pipeline.tally = ⟨0, 0⟩ := by rw [Pipeline.tally, hRuns, hSuccesses]
  have hCounts : pipeline.tally =
      ⟨ended.countP ProcessResult.delivered + ended.countP ProcessResult.failed,
        ended.countP ProcessResult.delivered⟩ := by
    rw [← Tally.enterAll_eq, ← hStart]
    exact hTally
  have hAll : pipeline.runs = _ := congrArg Tally.runs hCounts
  have hGood : pipeline.successes = _ := congrArg Tally.successes hCounts
  refine ⟨hAll, hGood, ?_⟩
  rw [hAll, hGood, Nat.add_sub_cancel_left]

/-- A run gives a result and is forgotten; one more gives a result, and two fail, one in each mode. -/
theorem statistics_count_troubled :
    let boom : Callable := ⟨0, .function, "boom", none, false, []⟩
    let inCall : Request Slot := ⟨.atom (.str ""), .inherit, [(.str "sync", .atom (.bool true))]⟩
    let later : Request Slot := ⟨.atom (.str ""), .inherit, []⟩
    let history : List (Occurrence Unit) :=
      [.call inCall, .reset, .call inCall, .use [.atom (.callable boom)], .call later,
        .happen (.start 2), .call inCall]
    let pipeline := ((ofWorld World.made).undergoAll .troubled history).shared.world.pipeline
    pipeline.runs = 3 ∧ pipeline.successes = 1 ∧ pipeline.runs - pipeline.successes = 2 := by
  intro boom inCall later history pipeline
  have hSound : ∀ occurrence ∈ history, occurrence.KeepsBooks fun _ => [] := by
    simp only [history, List.forall_mem_cons]
    exact ⟨trivial, trivial, trivial, trivial, trivial, trivial, trivial, List.forall_mem_nil _⟩
  have hAccepted : (ofWorld World.made).Accepts .troubled history := by
    refine ⟨?_, ?_, ?_, ?_, ?_, ?_, ?_, trivial⟩
    all_goals rintro _ ⟨⟩ _ <;> decide +kernel
  have hCounts := statistics_count Conduct.keepsBooks_troubled World.made rfl rfl history
    hSound hAccepted
  have hDelivered : (Notice.sinceReset ((ofWorld World.made).chronicle .troubled (fun _ => [])
      history)).countP ProcessResult.delivered = 1 := by decide +kernel
  have hFailed : (Notice.sinceReset ((ofWorld World.made).chronicle .troubled (fun _ => [])
      history)).countP ProcessResult.failed = 2 := by decide +kernel
  dsimp only at hCounts
  rw [hDelivered, hFailed] at hCounts
  exact hCounts

/-- A run that was cancelled is counted nowhere. In blocking mode neither is one whose options are
refused, although it is counted in the other mode. -/
theorem statistics_count_cancelled :
    let stopped : Callable := ⟨0, .function, "stopped", none, false, []⟩
    let later : Request Slot := ⟨.atom (.str ""), .inherit, []⟩
    let refused (blocking : Bool) : Request Slot := ⟨.atom (.str ""), .inherit,
      [(.str "sync", .atom (.bool blocking)), (.str "closing_single_tag", .atom (.str "bogus"))]⟩
    let runs (history : List (Occurrence Unit)) : Nat × Nat :=
      ((Notice.sinceReset ((ofWorld World.made).chronicle .troubled (fun _ => []) history)).length,
        ((ofWorld World.made).undergoAll .troubled history).shared.world.pipeline.runs)
    runs [.use [.atom (.callable stopped)], .call later, .happen (.start 0)] = (1, 0) ∧
      runs [.call (refused true)] = (1, 0) ∧
      runs [.call (refused false), .happen (.start 0)] = (1, 1) := by
  decide +kernel

end Loop

end Hypertext
