import Mathlib.Data.List.Perm.Basic
import Hypertext.Proofs.Isolation.Advancing
import Hypertext.Proofs.Isolation.Calls

/-! # A run followed

A run on the shared loop and its counterpart on a loop of its own come to stand in the same place
with every job of the run and with every visit to it, and end with counterparts.
-/

namespace Hypertext

set_option autoImplicit false

variable {σ : Type} {conduct : Conduct σ}

inductive Pairing.States (conduct : Conduct σ) (β : Pairing) :
    RunState σ (Outcome ProcessResult) → RunState σ (Outcome ProcessResult) → Prop where
  | active {context other : Context} (hContext : β.Contexts context other) {paused twin : Paused σ}
    (hPaused : β.Pauses paused twin) (tree otherTree : Slot) (metrics otherMetrics : Metrics) :
    States conduct β
      (.active ⟨context, tree, metrics, Processing.concludeLater conduct context⟩ paused)
      (.active ⟨other, otherTree, otherMetrics, Processing.concludeLater conduct other⟩ twin)
  | ended {outcome twin : Outcome ProcessResult} (h : β.Finals outcome twin) :
    States conduct β (.ended outcome) (.ended twin)

theorem Pairing.States.mono {β γ : Pairing} {here there : RunState σ (Outcome ProcessResult)}
    (h : β.States conduct here there) (hLe : β ≤ γ) : γ.States conduct here there := by
  cases h with
  | active hContext hPaused => exact .active (hLe.2 hContext) (hPaused.mono hLe) _ _ _ _
  | ended hFinals => exact .ended (hFinals.mono hLe)

namespace Pairing.States

variable {β : Pairing} {here there : RunState σ (Outcome ProcessResult)}

theorem tree (h : β.States conduct here there) :
    (here.tree? = none ∧ there.tree? = none) ∨
      ∃ tree twin, here.tree? = some tree ∧ there.tree? = some twin ∧ β.Slots tree twin := by
  cases h with
  | active _ hPaused =>
    cases hPaused with
    | of _ _ _ _ _ hTree _ => exact Or.inr ⟨_, _, rfl, rfl, hTree⟩
  | ended hFinals =>
    cases hFinals with
    | ok hTree _ => exact Or.inr ⟨_, _, rfl, rfl, hTree⟩
    | error => exact Or.inl ⟨rfl, rfl⟩

theorem awaitsFuture_eq (h : β.States conduct here there) :
    here.awaitsFuture = there.awaitsFuture := by
  cases h with
  | active _ hPaused =>
    cases hPaused with
    | of _ _ _ _ _ _ hWait => cases hWait <;> rfl
  | ended => rfl

end Pairing.States

namespace Link

variable {κ ν μ : Link} {run : Nat} {context other : Context}
  {alone alone' loop loop' : Loop σ (Outcome ProcessResult)}

/-- The only run of one loop, and a run of the shared loop. -/
structure Follows (conduct : Conduct σ) (κ : Link) (run : Nat)
    (alone loop : Loop σ (Outcome ProcessResult)) : Prop where
  mirrors : κ.Mirrors run alone.shared loop.shared
  state : ∃ here there, alone.runs = [here] ∧ loop.runs[run]? = some there ∧
    κ.objects.States conduct here there

/-- A run goes on, and no other run of the shared loop comes to stand elsewhere. -/
structure Goes (conduct : Conduct σ) (κ : Link) (run : Nat) (shared : Shared σ)
    (runs : List (RunState σ (Outcome ProcessResult))) (ν : Link)
    (alone' loop' : Loop σ (Outcome ProcessResult)) : Prop where
  follows : ν.Follows conduct run alone' loop'
  acts : κ.Acts run shared ν loop'.shared
  length_eq : loop'.runs.length = runs.length
  runs : ∀ other, run ≠ other → loop'.runs[other]? = runs[other]?

section

variable {shared : Shared σ} {runs : List (RunState σ (Outcome ProcessResult))}
  {state here there : RunState σ (Outcome ProcessResult)}

theorem Steps.stands {aloneShared shared' : Shared σ} (h : κ.Steps run shared ν aloneShared shared')
    (hRun : run < runs.length) (hState : ν.objects.States conduct here there) :
    κ.Goes conduct run shared runs ν ⟨aloneShared, [state].set 0 here⟩
      ⟨shared', runs.set run there⟩ where
  follows := ⟨h.mirrors, here, there, rfl, List.getElem?_set_self hRun, hState⟩
  acts := h.acts
  length_eq := List.length_set
  runs := fun _ hNe => List.getElem?_set_ne hNe

theorem Steps.beside {aloneShared shared' : Shared σ} (h : κ.Steps run shared ν aloneShared shared')
    (hThere : runs[run]? = some there) (hStates : κ.objects.States conduct here there) :
    κ.Goes conduct run shared runs ν ⟨aloneShared, [here]⟩ ⟨shared', runs⟩ where
  follows := ⟨h.mirrors, here, there, rfl, hThere, hStates.mono h.acts.le.1⟩
  acts := h.acts
  length_eq := rfl
  runs := fun _ _ => rfl

variable (hLocal : conduct.IsLocal)

include hLocal

theorem Comes.stand {step twin : Shared σ × Standing σ} (h : κ.Comes run shared ν step twin)
    (hContext : ν.objects.Contexts context other) (hRun : run < runs.length)
    (before after : Shared σ) (tree otherTree : Slot) (metrics otherMetrics : Metrics) :
    ∃ μ, κ.Goes conduct run shared runs μ
      (Loop.stand ⟨before, [state]⟩ 0
        ⟨context, tree, metrics, Processing.concludeLater conduct context⟩ step)
      (Loop.stand ⟨after, runs⟩ run
        ⟨other, otherTree, otherMetrics, Processing.concludeLater conduct other⟩ twin) := by
  obtain ⟨aloneShared, standing⟩ := step
  obtain ⟨shared', otherStanding⟩ := twin
  have hSteps : κ.Steps run shared ν aloneShared shared' := h.steps
  cases (h.standing : ν.objects.Standings standing otherStanding) with
  | paused hPaused => exact ⟨ν, hSteps.stands hRun (.active hContext hPaused _ _ _ _)⟩
  | @finished metrics outcome otherOutcome hOutcome =>
    obtain ⟨γ, hConcludes⟩ := Pairing.Stores.concludeLater hLocal context other
      ⟨aloneShared.world, metrics, outcome⟩ ⟨shared'.world, metrics, otherOutcome⟩
      hSteps.mirrors.stores rfl hOutcome
    have hEnded := hSteps.trans (hSteps.mirrors.withWorld hConcludes.moves)
    exact ⟨⟨γ, ν.promises⟩, hEnded.stands hRun (.ended hConcludes.final)⟩

/-- The objects of the caller are as they were, so the options that a run makes of them are too. -/
theorem Mirrors.startRun {aloneShared : Shared σ} (h : κ.Mirrors run aloneShared shared)
    {caller : Pairing} (hCaller : caller.Stores aloneShared.world.store shared.world.store)
    {brief : Brief} (hBrief : caller.Covers brief) (hRun : run < runs.length)
    (state : RunState σ (Outcome ProcessResult)) :
    ∃ ν, κ.Goes conduct run shared runs ν
      (Loop.startRun conduct ⟨aloneShared, [state]⟩ 0 (Processing.routine conduct brief))
      (Loop.startRun conduct ⟨shared, runs⟩ run (Processing.routine conduct brief)) := by
  obtain ⟨γ, hBegun, hLaunches⟩ := Pairing.Stores.prepare hLocal hCaller hBrief h.stores
  have hPlugins : (Processing.routine conduct brief).plugins = brief.plugins := rfl
  unfold Loop.startRun
  dsimp only
  rw [hPlugins]
  generalize (Processing.routine conduct brief).prepare aloneShared.world = begun
    at hBegun hLaunches ⊢
  generalize (Processing.routine conduct brief).prepare shared.world = otherBegun
    at hBegun hLaunches ⊢
  obtain ⟨w, launch⟩ := begun
  obtain ⟨v, otherLaunch⟩ := otherBegun
  have hMoves : κ.objects.Moves shared.world γ w v := hBegun
  have hPrepared := h.withWorld hMoves
  cases (hLaunches : γ.Launches conduct launch otherLaunch) with
  | refused fault => exact ⟨_, hPrepared.stands hRun (.ended (.error fault))⟩
  | @ready context other tree twin hContext hTree =>
    obtain ⟨δ, hLeads, hAttached⟩ := hMoves.stores.attach hTree hContext
    dsimp only
    generalize w.store.attach tree (some context.options) = attached at hLeads hAttached ⊢
    generalize v.store.attach twin (some other.options) = otherAttached at hLeads hAttached ⊢
    obtain ⟨outcome, s⟩ := attached
    obtain ⟨otherOutcome, t⟩ := otherAttached
    cases hAttached with
    | error fault =>
      have hComes : κ.Comes run shared ⟨γ, κ.promises⟩
          (aloneShared.withWorld w, .finished .empty (.error fault))
          (shared.withWorld v, .finished .empty (.error fault)) :=
        ⟨hPrepared, .finished (.error fault)⟩
      exact hComes.stand hLocal hContext hRun _ _ _ _ _ _
    | ok hTree =>
      have hReady := h.withWorld (hMoves.trans (hLeads.moves (w := w)))
      obtain ⟨ν, hComes⟩ := passes hLocal brief.plugins _ _ _ 0 _ _ .empty hReady.mirrors
        (hLeads.le.2 hContext) hTree
      exact (hReady.comes hComes).stand hLocal (hComes.steps.acts.le.1.2 (hLeads.le.2 hContext)) hRun
        _ _ _ _ _ _

theorem Follows.perform (h : κ.Follows conduct run alone loop) {job twin : Job σ}
    (hJob : κ.Jobs run job twin) :
    ∃ ν, κ.Goes conduct run loop.shared loop.runs ν (alone.perform conduct job)
      (loop.perform conduct twin) := by
  obtain ⟨here, there, hAlone, hThere, hStates⟩ := h.state
  obtain ⟨aloneShared, aloneRuns⟩ := alone
  obtain ⟨shared, runs⟩ := loop
  obtain rfl : aloneRuns = [here] := hAlone
  have hMirrors : κ.Mirrors run aloneShared shared := h.mirrors
  have hRun : run < runs.length := (List.getElem?_eq_some_iff.mp hThere).1
  have hBeside {ν : Link} {aloneShared' shared' : Shared σ}
      (hSteps : κ.Steps run shared ν aloneShared' shared') := hSteps.beside hThere hStates
  cases hJob with
  | settle hId hCompletion => exact ⟨κ, hBeside (hMirrors.settle hId hCompletion)⟩
  | task hId hTask =>
    obtain ⟨ν, hSteps⟩ := hMirrors.stepTask hId hTask
    exact ⟨ν, hBeside hSteps⟩
  | taskEnded hId hOutcome => exact ⟨κ, hBeside (hMirrors.endTask hId hOutcome)⟩
  | @relayRun outcome otherOutcome hOutcome =>
    have hTaken := hOutcome.transferred
    simp only [Loop.perform]
    generalize outcome.transferred? = taken at hTaken ⊢
    generalize otherOutcome.transferred? = otherTaken at hTaken ⊢
    cases hTaken with
    | none => exact ⟨κ, hBeside hMirrors.steps⟩
    | some hTaken => exact ⟨κ, hBeside (hMirrors.post (.resume (.some hTaken)))⟩
  | @relayTask id other outcome otherOutcome hId hOutcome =>
    have hTaken := hOutcome.transferred
    simp only [Loop.perform]
    generalize outcome.transferred? = taken at hTaken ⊢
    generalize otherOutcome.transferred? = otherTaken at hTaken ⊢
    cases hTaken with
    | none => exact ⟨κ, hBeside hMirrors.steps⟩
    | some hTaken => exact ⟨κ, hBeside (hMirrors.post (.task hId (.ready hTaken)))⟩
  | resume hOutcome =>
    cases hStates with
    | ended hFinals =>
      simp only [Loop.perform, hThere]
      exact ⟨κ, hBeside hMirrors.steps⟩
    | active hContext hPaused tree otherTree metrics otherMetrics =>
      obtain ⟨ν, hComes⟩ := hMirrors.wake hLocal hContext hPaused hOutcome
      simp only [Loop.perform, hThere]
      exact hComes.stand hLocal (hComes.steps.acts.le.1.2 hContext) hRun _ _ _ _ _ _

end

/-! ## Visits -/

namespace Mirrors

variable {aloneShared shared : Shared σ} (h : κ.Mirrors run aloneShared shared)

include h

theorem promisesOf_eq : shared.promisesOf run = κ.promises := by
  have hSorted : (shared.promisesOf run).Pairwise (· < ·) := List.pairwise_lt_range.filter _
  have hPerm : (shared.promisesOf run).Perm κ.promises := by
    rw [List.perm_ext_iff_of_nodup (hSorted.imp Nat.ne_of_lt) h.nodup]
    intro other
    simp only [Shared.promisesOf, List.mem_filter, List.mem_range, decide_eq_true_eq,
      Option.map_eq_some_iff]
    constructor
    · rintro ⟨-, twin, hTwin, hRun⟩
      exact h.all other twin hTwin hRun
    · intro hOther
      obtain ⟨id, hId⟩ := List.getElem?_of_mem hOther
      obtain ⟨_, twin, -, hTwin, hPromise⟩ := h.promises id other hId
      exact ⟨h.promises_lt hOther, twin, hTwin, hPromise.twin_run⟩
  exact hPerm.eq_of_pairwise (fun _ _ _ _ hLess hMore => absurd hLess (Nat.lt_asymm hMore)) hSorted
    h.sorted

theorem promisesOf_alone : aloneShared.promisesOf 0 = List.range aloneShared.promises.length := by
  rw [Shared.promisesOf, List.filter_eq_self]
  intro id hId
  have hLess : id < κ.promises.length := by
    rw [h.length_eq]
    exact List.mem_range.mp hId
  obtain ⟨promise, _, hHere, -, hPromise⟩ := h.promises id _ (List.getElem?_eq_getElem hLess)
  rw [hHere]
  exact decide_eq_true (congrArg some hPromise.run_eq)

theorem delivery {delivery twin : Delivery} (hDelivery : κ.objects.Deliveries delivery twin)
    (awaitsFuture : Bool) :
    (aloneShared.delivery? 0 awaitsFuture delivery = none ∧
      shared.delivery? run awaitsFuture twin = none) ∨
    ∃ job other, aloneShared.delivery? 0 awaitsFuture delivery = some job ∧
      shared.delivery? run awaitsFuture twin = some other ∧ κ.Jobs run job other := by
  cases hDelivery with
  | completion position hCompletion =>
    simp only [Shared.delivery?, h.promisesOf_alone, h.promisesOf_eq]
    by_cases hLess : position < κ.promises.length
    · have hHere : (List.range aloneShared.promises.length)[position]? = some position :=
        List.getElem?_range (h.length_eq ▸ hLess)
      have hThere := List.getElem?_eq_getElem hLess
      rw [hHere, hThere]
      exact Or.inr ⟨_, _, rfl, rfl, .settle hThere hCompletion⟩
    · have hLength := Nat.le_of_not_lt hLess
      rw [List.getElem?_eq_none hLength, List.getElem?_eq_none]
      · exact Or.inl ⟨rfl, rfl⟩
      · rw [List.length_range, ← h.length_eq]
        exact hLength
  | outcome hOutcome =>
    cases awaitsFuture with
    | true => exact Or.inr ⟨_, _, rfl, rfl, .resume (.some hOutcome)⟩
    | false => exact Or.inl ⟨rfl, rfl⟩

theorem deliveries {deliveries twins : List Delivery}
    (hDeliveries : List.Forall₂ κ.objects.Deliveries deliveries twins) (awaitsFuture : Bool) :
    List.Forall₂ (κ.Jobs (σ := σ) run)
      (deliveries.filterMap (aloneShared.delivery? 0 awaitsFuture))
      (twins.filterMap (shared.delivery? run awaitsFuture)) := by
  induction hDeliveries with
  | nil => exact .nil
  | cons hDelivery _ ih =>
    rcases h.delivery hDelivery awaitsFuture with
      ⟨hHere, hThere⟩ | ⟨job, other, hHere, hThere, hJob⟩
    · rw [List.filterMap_cons_none hHere, List.filterMap_cons_none hThere]
      exact ih
    · rw [List.filterMap_cons_some hHere, List.filterMap_cons_some hThere]
      exact .cons hJob ih

end Mirrors

theorem Follows.visit (h : κ.Follows conduct run alone loop) {act : Outsider σ}
    (hLocal : act.IsLocal) :
    ∃ ν, κ.Goes conduct run loop.shared loop.runs ν (alone.visit 0 act) (loop.visit run act) := by
  obtain ⟨here, there, hAlone, hThere, hStates⟩ := h.state
  obtain ⟨aloneShared, aloneRuns⟩ := alone
  obtain ⟨shared, runs⟩ := loop
  obtain rfl : aloneRuns = [here] := hAlone
  have hMirrors : κ.Mirrors run aloneShared shared := h.mirrors
  have hHere : [here][0]? = some here := rfl
  simp only [Loop.visit, hHere, hThere, hStates.awaitsFuture_eq]
  rcases hStates.tree with ⟨hNone, hNoTwin⟩ | ⟨tree, twin, hTree, hTwin, hSlots⟩
  · rw [hNone, hNoTwin]
    exact ⟨κ, hMirrors.steps.beside hThere hStates⟩
  · obtain ⟨γ, hMoves, hDeliveries⟩ :=
      hLocal κ.objects tree twin aloneShared.world shared.world hMirrors.stores hSlots
    rw [hTree, hTwin]
    have hSteps := hMirrors.withWorld hMoves
    have hJobs := hSteps.mirrors.deliveries hDeliveries there.awaitsFuture
    exact ⟨_, (hSteps.trans (hSteps.mirrors.postAll hJobs)).beside hThere hStates⟩

end Link

end Hypertext
