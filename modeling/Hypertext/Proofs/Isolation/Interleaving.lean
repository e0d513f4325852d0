import Mathlib.Logic.Function.Basic
import Hypertext.Proofs.Isolation.Calls
import Hypertext.Proofs.Isolation.Following

/-! # Runs among each other

Any number of calls share a pipeline, a loop and the objects of their caller. Every run has objects
of its own, which it made from those of the caller and which it shares with nobody. So each comes as
far as it would come alone, however the runs are interleaved, and the objects of the caller stay as
they were.
-/

namespace Hypertext

set_option autoImplicit false

variable {σ : Type} {conduct : Conduct σ}

/-- A pipeline with the same plugins, defaults and objects of its caller. Its id, its counts and
what happened before may be others. -/
structure World.Matches (fresh before : World σ) : Prop where
  store_eq : fresh.store = before.store
  roster_eq : fresh.pipeline.roster = before.pipeline.roster
  defaults_eq : fresh.pipeline.defaults = before.pipeline.defaults

namespace Link

def empty : Link := ⟨.empty, []⟩

theorem stores_empty (s t : Store) : empty.objects.Stores s t where
  cells := fun hPair => absurd hPair List.not_mem_nil
  options := fun hPair => absurd hPair List.not_mem_nil
  cellsOnce := fun _ _ _ _ hPair => absurd hPair List.not_mem_nil
  optionsOnce := fun _ _ _ _ hPair => absurd hPair List.not_mem_nil

theorem apart_empty (β : Pairing) : β.Apart empty.objects where
  cells := fun _ _ _ hPair => absurd hPair List.not_mem_nil
  options := fun _ _ _ hPair => absurd hPair List.not_mem_nil

/-- The same call is made on the shared loop and on a loop of its own, and its run is visited as often
on either. -/
inductive Tracks (conduct : Conduct σ) (fresh : World σ) (caller : Pairing) (request : Request Slot)
    (acts : List (Outsider σ)) (κ : Link) (run : Nat) (loop : Loop σ (Outcome ProcessResult)) :
    Prop where
  | waiting {brief : Brief} (hBrief : caller.Covers brief) {own : List (Occasion σ)}
    (hOwn : Occasion.Single request acts own)
    (hAlone : (Loop.ofWorld fresh).serve conduct own =
      ⟨⟨fresh, [], []⟩, [.fresh (Processing.routine conduct brief)]⟩)
    (hMirrors : κ.Mirrors run ⟨fresh, [], []⟩ loop.shared)
    (hRun : loop.runs[run]? = some (.fresh (Processing.routine conduct brief)))
  | begun {own : List (Occasion σ)} (hOwn : Occasion.Single request acts own)
    (h : κ.Follows conduct run ((Loop.ofWorld fresh).serve conduct own) loop)

structure Carries (conduct : Conduct σ) (fresh : World σ) (caller : Pairing) (request : Request Slot)
    (acts : List (Outsider σ)) (κ : Link) (run : Nat) (shared : Shared σ)
    (runs : List (RunState σ (Outcome ProcessResult))) (ν : Link)
    (loop' : Loop σ (Outcome ProcessResult)) : Prop where
  tracks : ν.Tracks conduct fresh caller request acts run loop'
  acts : κ.Acts run shared ν loop'.shared
  length_eq : loop'.runs.length = runs.length
  runs : ∀ other, run ≠ other → loop'.runs[other]? = runs[other]?

variable {κ ν : Link} {run : Nat} {fresh before : World σ} {caller : Pairing}
  {request : Request Slot} {acts : List (Outsider σ)} {loop loop' : Loop σ (Outcome ProcessResult)}

theorem Goes.carries {shared : Shared σ} {runs : List (RunState σ (Outcome ProcessResult))}
    {own : List (Occasion σ)}
    (h : κ.Goes conduct run shared runs ν ((Loop.ofWorld fresh).serve conduct own) loop')
    (hOwn : Occasion.Single request acts own) :
    κ.Carries conduct fresh caller request acts run shared runs ν loop' :=
  ⟨.begun hOwn h.follows, h.acts, h.length_eq, h.runs⟩

namespace Tracks

theorem stores (h : κ.Tracks conduct fresh caller request acts run loop) :
    ∃ s, κ.objects.Stores s loop.shared.world.store := by
  cases h with
  | waiting _ _ _ hMirrors => exact ⟨_, hMirrors.stores⟩
  | begun _ h => exact ⟨_, h.mirrors.stores⟩

theorem congr (h : κ.Tracks conduct fresh caller request acts run loop)
    (hMirrors : ∀ alone : Shared σ,
      κ.Mirrors run alone loop.shared → κ.Mirrors run alone loop'.shared)
    (hRuns : loop'.runs[run]? = loop.runs[run]?) :
    κ.Tracks conduct fresh caller request acts run loop' := by
  cases h with
  | waiting hBrief hOwn hAlone h hRun =>
    exact .waiting hBrief hOwn hAlone (hMirrors _ h) (hRuns.trans hRun)
  | begun hOwn h =>
    obtain ⟨here, there, hHere, hThere, hStates⟩ := h.state
    exact .begun hOwn ⟨hMirrors _ h.mirrors, here, there, hHere, hRuns.trans hThere, hStates⟩

theorem work (hLocal : conduct.IsLocal) {world : World σ} {job : Job σ} {queue : List (Job σ)}
    {promises : List Promise} {runs : List (RunState σ (Outcome ProcessResult))}
    (h : κ.Tracks conduct fresh caller request acts run ⟨⟨world, job :: queue, promises⟩, runs⟩)
    (hOf : job.Of run promises) :
    ∃ ν, κ.Carries conduct fresh caller request acts run ⟨world, queue, promises⟩ runs ν
      (Loop.perform conduct ⟨⟨world, queue, promises⟩, runs⟩ job) := by
  cases h with
  | waiting _ _ _ hMirrors =>
    obtain ⟨_, _, hQueue, -⟩ := hMirrors.take hOf
    cases hQueue
  | @begun own hOwn hFollows =>
    obtain ⟨first, rest, hQueue, hJob, hMirrors⟩ := hFollows.mirrors.take hOf
    have hServed : (Loop.ofWorld fresh).serve conduct (own ++ [.work]) =
        ((Loop.ofWorld fresh).serve conduct own).step conduct := Loop.serve_concat _ _ _ _
    generalize (Loop.ofWorld fresh).serve conduct own = alone
      at hFollows hQueue hMirrors hServed
    have hTurned : κ.Follows conduct run { alone with shared := { alone.shared with queue := rest } }
        ⟨⟨world, queue, promises⟩, runs⟩ := ⟨hMirrors, hFollows.state⟩
    obtain ⟨ν, hGoes⟩ := hTurned.perform hLocal hJob
    have hStep : alone.step conduct =
        Loop.perform conduct { alone with shared := { alone.shared with queue := rest } } first := by
      simp only [Loop.step, hQueue]
    rw [← hStep, ← hServed] at hGoes
    exact ⟨ν, hGoes.carries (hOwn.concat rfl rfl)⟩

theorem visit (h : κ.Tracks conduct fresh caller request acts run loop) {act : Outsider σ}
    (hAct : act.IsLocal) :
    ∃ ν, κ.Carries conduct fresh caller request (acts ++ [act]) run loop.shared loop.runs ν
      (loop.visit run act) := by
  cases h with
  | @waiting brief hBrief own hOwn hAlone hMirrors hRun =>
    have hSame : loop.visit run act = loop := by
      simp only [Loop.visit, hRun, RunState.tree?]
    rw [hSame]
    refine ⟨κ, .waiting hBrief (hOwn.visited act) ?_ hMirrors hRun, hMirrors.steps.acts, rfl,
      fun _ _ => rfl⟩
    rw [Loop.serve_concat, hAlone]
    rfl
  | @begun own hOwn hFollows =>
    obtain ⟨ν, hGoes⟩ := hFollows.visit hAct
    have hServed : (Loop.ofWorld fresh).serve conduct (own ++ [.visit 0 act]) =
        ((Loop.ofWorld fresh).serve conduct own).visit 0 act := Loop.serve_concat _ _ _ _
    rw [← hServed] at hGoes
    exact ⟨ν, hGoes.carries (hOwn.visited act)⟩

theorem start (hLocal : conduct.IsLocal)
    (hCaller : caller.Stores fresh.store loop.shared.world.store)
    (h : κ.Tracks conduct fresh caller request acts run loop) :
    ∃ ν, κ.Carries conduct fresh caller request acts run loop.shared loop.runs ν
      (loop.perform conduct (.start run)) := by
  cases h with
  | @waiting brief hBrief own hOwn hAlone hMirrors hRun =>
    have hLess : run < loop.runs.length := (List.getElem?_eq_some_iff.mp hRun).1
    obtain ⟨ν, hGoes⟩ := hMirrors.startRun hLocal hCaller hBrief hLess
      (.fresh (Processing.routine conduct brief))
    have hServed : (Loop.ofWorld fresh).serve conduct (own ++ [.start 0]) =
        Loop.startRun conduct ⟨⟨fresh, [], []⟩, [.fresh (Processing.routine conduct brief)]⟩ 0
          (Processing.routine conduct brief) := by
      rw [Loop.serve_concat, hAlone]
      rfl
    rw [← hServed] at hGoes
    simp only [Loop.perform, hRun]
    exact ⟨ν, hGoes.carries (hOwn.concat rfl rfl)⟩
  | @begun own hOwn hFollows =>
    obtain ⟨here, there, -, hThere, hStates⟩ := hFollows.state
    have hSame : loop.perform conduct (.start run) = loop := by
      cases hStates <;> simp only [Loop.perform, hThere]
    rw [hSame]
    exact ⟨κ, .begun hOwn hFollows, hFollows.mirrors.steps.acts, rfl, fun _ _ => rfl⟩

end Tracks

end Link

/-- Every run is tracked by a link of its own, except for one that is under way. -/
structure Isolates (conduct : Conduct σ) (before fresh : World σ) (underWay : Option Nat)
    (past : List (Occasion σ)) (links : Nat → Link) (loop : Loop σ (Outcome ProcessResult)) :
    Prop where
  caller : (Pairing.diagonal before.store).Stores before.store loop.shared.world.store
  roster_eq : loop.shared.world.pipeline.roster = before.pipeline.roster
  defaults_eq : loop.shared.world.pipeline.defaults = before.pipeline.defaults
  length_eq : loop.runs.length = (Occasion.requests past).length
  unused : ∀ run, loop.runs.length ≤ run → links run = .empty
  stores : ∀ run, ∃ s, (links run).objects.Stores s loop.shared.world.store
  ofCaller : ∀ run, (Pairing.diagonal before.store).Apart (links run).objects
  apart : ∀ run other, run ≠ other → (links run).objects.Apart (links other).objects
  promises : ∀ promise ∈ loop.shared.promises, promise.run < loop.runs.length
  queue : ∀ job ∈ loop.shared.queue, (∃ run, job = .start run) ∨
    ∃ run, run < loop.runs.length ∧ job.Of run loop.shared.promises
  tracks : ∀ (run : Nat) (request : Request Slot), (Occasion.requests past)[run]? = some request →
    underWay ≠ some run → (links run).Tracks conduct fresh (Pairing.diagonal before.store) request
      (Occasion.visits run past) run loop

namespace Isolates

variable {before fresh : World σ} {underWay : Option Nat} {past : List (Occasion σ)}
  {links : Nat → Link} {loop loop' : Loop σ (Outcome ProcessResult)} {run : Nat}
  {request : Request Slot} {shared : Shared σ} {runs : List (RunState σ (Outcome ProcessResult))}

theorem tracked (h : Isolates conduct before fresh none past links loop)
    (hRequest : (Occasion.requests past)[run]? = some request) :
    (links run).Tracks conduct fresh (Pairing.diagonal before.store) request
      (Occasion.visits run past) run loop :=
  h.tracks run request hRequest (Option.some_ne_none run).symm

theorem noRun (h : Isolates conduct before fresh underWay past links loop)
    (hRequest : (Occasion.requests past)[run]? = none) : loop.runs[run]? = none := by
  rw [List.getElem?_eq_none_iff, h.length_eq]
  exact List.getElem?_eq_none_iff.mp hRequest

theorem callers (h : Isolates conduct before fresh underWay past links loop)
    (hFresh : fresh.Matches before) :
    (Pairing.diagonal before.store).Stores fresh.store loop.shared.world.store := by
  rw [hFresh.store_eq]
  exact h.caller

theorem putUnderWay (h : Isolates conduct before fresh none past links loop) (run : Nat) :
    Isolates conduct before fresh (some run) past links loop :=
  { h with tracks := fun _ _ hRequest _ => h.tracked hRequest }

theorem note (h : Isolates conduct before fresh underWay past links loop) {occasion : Occasion σ}
    (hRequest : occasion.request? = none)
    (hVisit : ∀ other, underWay ≠ some other → occasion.visit? other = none) :
    Isolates conduct before fresh underWay (past ++ [occasion]) links loop := by
  have hRequests := Occasion.requests_concat_of_none past hRequest
  refine { h with length_eq := ?_, tracks := ?_ }
  · rw [hRequests]
    exact h.length_eq
  · intro other otherRequest hOther hUnderWay
    rw [hRequests] at hOther
    rw [Occasion.visits_concat_of_none past (hVisit other hUnderWay)]
    exact h.tracks other otherRequest hOther hUnderWay

theorem carry (h : Isolates conduct before fresh (some run) past links ⟨shared, runs⟩)
    (hRequest : (Occasion.requests past)[run]? = some request) {ν : Link}
    (hCarries : (links run).Carries conduct fresh (Pairing.diagonal before.store) request
      (Occasion.visits run past) run shared runs ν loop') :
    Isolates conduct before fresh none past (Function.update links run ν) loop' := by
  obtain ⟨hTracks, hActs, hLength, hRuns⟩ := hCarries
  have hLess : run < runs.length :=
    Nat.lt_of_lt_of_eq (List.getElem?_eq_some_iff.mp hRequest).1 h.length_eq.symm
  -- Nothing that others hold is among what is new to the run.
  have hNew {other : Nat} (hNe : other ≠ run) : (links other).objects.Apart ν.objects := by
    obtain ⟨s, hStores⟩ := h.stores other
    exact hStores.apart_grows (h.apart other run hNe) hActs.objects
  constructor
  · exact h.caller.untouched (h.ofCaller run) hActs.objects
  · exact hActs.roster_eq.trans h.roster_eq
  · exact hActs.defaults_eq.trans h.defaults_eq
  · exact hLength.trans h.length_eq
  · intro other hOther
    rw [hLength] at hOther
    rw [Function.update_of_ne (Nat.ne_of_gt (Nat.lt_of_lt_of_le hLess hOther))]
    exact h.unused other hOther
  · refine (Function.forall_update_iff links fun _ κ =>
      ∃ s, κ.objects.Stores s loop'.shared.world.store).mpr ⟨hTracks.stores, ?_⟩
    intro other hNe
    obtain ⟨s, hStores⟩ := h.stores other
    exact ⟨s, hStores.untouched (h.apart other run hNe) hActs.objects⟩
  · refine (Function.forall_update_iff links fun _ κ =>
      (Pairing.diagonal before.store).Apart κ.objects).mpr ⟨?_, fun other _ => h.ofCaller other⟩
    exact h.caller.apart_grows (h.ofCaller run) hActs.objects
  · intro first second hNe
    by_cases hFirst : first = run
    · rw [hFirst, Function.update_self, Function.update_of_ne (hFirst ▸ hNe.symm)]
      exact (hNew (hFirst ▸ hNe.symm)).symm
    · by_cases hSecond : second = run
      · rw [hSecond, Function.update_self, Function.update_of_ne hFirst]
        exact hNew hFirst
      · rw [Function.update_of_ne hFirst, Function.update_of_ne hSecond]
        exact h.apart first second hNe
  · rw [hLength]
    exact hActs.keeps.runs_lt hLess h.promises
  · intro job hJob
    rw [hLength]
    obtain ⟨jobs, hQueue, hOf⟩ := hActs.queue
    rw [hQueue] at hJob
    rcases List.mem_append.mp hJob with hOld | hOwn
    · rcases h.queue job hOld with hStart | ⟨other, hOther, hJobOf⟩
      · exact Or.inl hStart
      · exact Or.inr ⟨other, hOther, hJobOf.keeps hActs.keeps⟩
    · exact Or.inr ⟨run, hLess, hOf job hOwn⟩
  · intro other otherRequest hOther _
    by_cases hSame : other = run
    · subst hSame
      obtain rfl := Option.some.inj (hRequest.symm.trans hOther)
      rw [Function.update_self]
      exact hTracks
    · rw [Function.update_of_ne hSame]
      have hUnderWay : some run ≠ some other := fun hSome => hSame (Option.some.inj hSome).symm
      exact (h.tracks other otherRequest hOther hUnderWay).congr
        (fun _ hMirrors => hMirrors.aside hActs (h.apart other run hSame) (Ne.symm hSame))
        (hRuns other (Ne.symm hSame))

/-! ## Jobs -/

theorem schedule (h : Isolates conduct before fresh none past links ⟨shared, runs⟩) (run : Nat) :
    Isolates conduct before fresh none past links ⟨shared.post (.start run), runs⟩ := by
  refine { h with queue := ?_, tracks := ?_ }
  · intro job hJob
    rcases List.mem_append.mp hJob with hOld | hNew
    · exact h.queue job hOld
    · exact Or.inl ⟨run, List.mem_singleton.mp hNew⟩
  · intro other request hRequest _
    refine (h.tracked hRequest).congr (fun alone hMirrors => ?_) rfl
    refine { hMirrors with queue := ?_ }
    rw [← List.append_nil alone.queue]
    exact hMirrors.queue.append (.foreign .start .nil)

theorem drop {world : World σ} {job : Job σ} {queue : List (Job σ)} {promises : List Promise}
    (h : Isolates conduct before fresh none past links ⟨⟨world, job :: queue, promises⟩, runs⟩)
    (hForeign : ∀ other, underWay ≠ some other → job.Foreign other promises) :
    Isolates conduct before fresh underWay past links ⟨⟨world, queue, promises⟩, runs⟩ := by
  refine { h with queue := ?_, tracks := ?_ }
  · exact fun other hOther => h.queue other (List.mem_cons_of_mem job hOther)
  · intro other request hRequest hUnderWay
    exact (h.tracked hRequest).congr
      (fun _ hMirrors => hMirrors.skip (hForeign other hUnderWay)) rfl

/-! ## New runs -/

theorem extend (h : Isolates conduct before fresh none past links ⟨shared, runs⟩)
    (request : Request Slot) (state : RunState σ (Outcome ProcessResult)) :
    Isolates conduct before fresh (some runs.length) (past ++ [.call request]) links
      ⟨shared, runs ++ [state]⟩ := by
  have hRequests :
      Occasion.requests (past ++ [.call request]) = Occasion.requests past ++ [request] :=
    Occasion.requests_concat past (.call request)
  have hLength : (runs ++ [state]).length = runs.length + 1 := List.length_append
  refine { h with length_eq := ?_, unused := ?_, promises := ?_, queue := ?_, tracks := ?_ }
  · rw [hRequests, hLength, List.length_append]
    exact congrArg (· + 1) h.length_eq
  · intro run hRun
    rw [hLength] at hRun
    exact h.unused run (Nat.le_of_succ_le hRun)
  · intro promise hPromise
    rw [hLength]
    exact Nat.lt_succ_of_lt (h.promises promise hPromise)
  · intro job hJob
    rw [hLength]
    rcases h.queue job hJob with hStart | ⟨run, hRun, hOf⟩
    · exact Or.inl hStart
    · exact Or.inr ⟨run, Nat.lt_succ_of_lt hRun, hOf⟩
  · intro run other hOther hUnderWay
    have hRun : run < runs.length := by
      have hLess := (List.getElem?_eq_some_iff.mp hOther).1
      rw [hRequests, List.length_append, ← h.length_eq] at hLess
      exact Nat.lt_of_le_of_ne (Nat.le_of_lt_succ hLess) fun hSame => hUnderWay (hSame ▸ rfl)
    rw [hRequests, List.getElem?_append_left (Nat.lt_of_lt_of_eq hRun h.length_eq)] at hOther
    rw [Occasion.visits_concat_of_none past rfl]
    exact (h.tracked hOther).congr (fun _ hMirrors => hMirrors) (List.getElem?_append_left hRun)

theorem mirrors_new (h : Isolates conduct before fresh none past links loop) (alone : World σ) :
    Link.empty.Mirrors loop.runs.length ⟨alone, [], []⟩ loop.shared where
  stores := Link.stores_empty _ _
  length_eq := rfl
  sorted := .nil
  all := by
    intro other twin hTwin hRun
    exact absurd hRun (Nat.ne_of_lt (h.promises twin (List.mem_of_getElem? hTwin)))
  promises := by
    intro id other hId
    cases hId
  queue := by
    apply Link.Queues.of_foreign
    intro job hJob
    rcases h.queue job hJob with ⟨run, rfl⟩ | ⟨run, hRun, hOf⟩
    · exact .start
    · exact hOf.foreign (Nat.ne_of_lt hRun)

/-! ## Occasions -/

theorem visit (h : Isolates conduct before fresh none past links loop) (run : Nat) {act : Outsider σ}
    (hAct : act.IsLocal) :
    ∃ links', Isolates conduct before fresh none (past ++ [.visit run act]) links'
      (loop.visit run act) := by
  have hNoted : Isolates conduct before fresh (some run) (past ++ [.visit run act]) links loop :=
    (h.putUnderWay run).note rfl fun other hNe => if_neg fun hSame => hNe (congrArg some hSame)
  have hVisits :
      Occasion.visits run (past ++ [.visit run act]) = Occasion.visits run past ++ [act] := by
    rw [Occasion.visits_concat, Occasion.visit?, if_pos rfl]
    rfl
  have hRequests : Occasion.requests (past ++ [.visit run act]) = Occasion.requests past :=
    Occasion.requests_concat_of_none past rfl
  cases hRequest : (Occasion.requests past)[run]? with
  | some request =>
    obtain ⟨ν, hCarries⟩ := (h.tracked hRequest).visit hAct
    exact ⟨_, hNoted.carry (hRequests ▸ hRequest) (hVisits ▸ hCarries)⟩
  | none =>
    have hSame : loop.visit run act = loop := by
      simp only [Loop.visit, h.noRun hRequest]
    rw [hSame]
    refine ⟨links, { hNoted with tracks := fun other request hOther _ => ?_ }⟩
    refine hNoted.tracks other request hOther fun hUnderWay => ?_
    obtain rfl := Option.some.inj hUnderWay
    cases hRequest.symm.trans (hRequests ▸ hOther)

variable (hLocal : conduct.IsLocal) (hFresh : fresh.Matches before)

include hLocal hFresh

theorem call (h : Isolates conduct before fresh none past links loop)
    (hDefaults : before.pipeline.defaults.IsIn before.store) (hRequest : request.IsIn before.store) :
    ∃ links', Isolates conduct before fresh none (past ++ [.call request]) links'
      (loop.call conduct request) := by
  have hBrief : request.brief loop.shared.world.pipeline = request.brief before.pipeline :=
    Request.brief_eq h.roster_eq h.defaults_eq
  have hFreshBrief : request.brief fresh.pipeline = request.brief before.pipeline :=
    Request.brief_eq hFresh.roster_eq hFresh.defaults_eq
  have hCovers := hRequest.covers hDefaults
  have hCaller := h.callers hFresh
  have hNew := h.mirrors_new fresh
  have hUnused : links loop.runs.length = .empty := h.unused _ (Nat.le_refl _)
  have hMade : (Occasion.requests (past ++ [.call request]))[loop.runs.length]? = some request := by
    rw [Occasion.requests_concat, h.length_eq]
    exact List.getElem?_concat_length
  have hLast {state : RunState σ (Outcome ProcessResult)} :
      (loop.runs ++ [state])[loop.runs.length]? = some state := List.getElem?_concat_length
  -- Visits to a run that was not there yet changed nothing.
  have hOwn := Occasion.Single.called request
    (Occasion.visits loop.runs.length (past ++ [.call request]))
  have hServed : (Loop.ofWorld fresh).serve conduct
      ((Occasion.visits loop.runs.length (past ++ [.call request])).map (.visit 0) ++
        [.call request]) = (Loop.ofWorld fresh).call conduct request := by
    rw [Loop.serve_concat, Loop.serve_visits]
    rfl
  have hMode := hCaller.isBlocking_eq hCovers
  cases hBlocking : (request.brief before.pipeline).isBlocking loop.shared.world.store with
  | true =>
    obtain ⟨γ, hConcludes⟩ := Pairing.Stores.blocking hLocal hCaller hCovers
      (Link.stores_empty fresh.store loop.shared.world.store)
    have hSteps := hNew.withWorld hConcludes.moves
    rw [Loop.call_of_blocking hBrief hBlocking]
    refine ⟨_, (h.extend request _).carry hMade (ν := ⟨γ, []⟩)
      ⟨.begun hOwn ?_, ?_, rfl, fun _ _ => rfl⟩⟩
    · rw [hServed, Loop.call_of_blocking hFreshBrief (hMode.trans hBlocking)]
      exact ⟨hSteps.mirrors, _, _, rfl, hLast, .ended hConcludes.final⟩
    · rw [hUnused]
      exact hSteps.acts
  | false =>
    rw [Loop.call_of_not_blocking hBrief hBlocking]
    refine ⟨_, (h.extend request _).carry hMade
      ⟨.waiting hCovers hOwn ?_ hNew hLast, ?_, rfl, fun _ _ => rfl⟩⟩
    · rw [hServed, Loop.call_of_not_blocking hFreshBrief (hMode.trans hBlocking)]
      rfl
    · rw [hUnused]
      exact hNew.steps.acts

theorem start (h : Isolates conduct before fresh none past links loop) (run : Nat) :
    ∃ links', Isolates conduct before fresh none past links'
      (loop.perform conduct (.start run)) := by
  cases hRequest : (Occasion.requests past)[run]? with
  | some request =>
    obtain ⟨ν, hCarries⟩ := (h.tracked hRequest).start hLocal (h.callers hFresh)
    exact ⟨_, (h.putUnderWay run).carry hRequest hCarries⟩
  | none =>
    simp only [Loop.perform, h.noRun hRequest]
    exact ⟨links, h⟩

theorem work (h : Isolates conduct before fresh none past links loop) :
    ∃ links', Isolates conduct before fresh none past links' (loop.step conduct) := by
  obtain ⟨⟨world, queue, promises⟩, runs⟩ := loop
  cases queue with
  | nil => exact ⟨links, h⟩
  | cons job queue =>
    rcases h.queue job List.mem_cons_self with ⟨run, rfl⟩ | ⟨run, hRun, hOf⟩
    · exact Isolates.start hLocal hFresh (h.drop fun _ _ => .start) run
    · have hRequest := List.getElem?_eq_getElem (Nat.lt_of_lt_of_eq hRun h.length_eq)
      obtain ⟨ν, hCarries⟩ := (h.tracked hRequest).work hLocal hOf
      have hUnderWay : Isolates conduct before fresh (some run) past links
          ⟨⟨world, queue, promises⟩, runs⟩ :=
        h.drop fun other hNe => hOf.foreign fun hSame => hNe (congrArg some hSame)
      exact ⟨_, hUnderWay.carry hRequest hCarries⟩

theorem occur (h : Isolates conduct before fresh none past links loop)
    (hDefaults : before.pipeline.defaults.IsIn before.store) {occasion : Occasion σ}
    (hSound : occasion.IsSound before.store) :
    ∃ links', Isolates conduct before fresh none (past ++ [occasion]) links'
      (loop.occur conduct occasion) := by
  cases occasion with
  | call request => exact h.call hLocal hFresh hDefaults hSound
  | visit run act => exact h.visit run hSound
  | schedule run => exact ⟨links, (h.schedule run).note rfl fun _ _ => rfl⟩
  | start run =>
    obtain ⟨links', hStarted⟩ := h.start hLocal hFresh run
    exact ⟨links', hStarted.note rfl fun _ _ => rfl⟩
  | work =>
    obtain ⟨links', hWorked⟩ := h.work hLocal hFresh
    exact ⟨links', hWorked.note rfl fun _ _ => rfl⟩

theorem serve (hDefaults : before.pipeline.defaults.IsIn before.store)
    (occasions : List (Occasion σ)) (hSound : ∀ occasion ∈ occasions, occasion.IsSound before.store)
    (h : Isolates conduct before fresh none past links loop) :
    ∃ links', Isolates conduct before fresh none (past ++ occasions) links'
      (loop.serve conduct occasions) := by
  induction occasions generalizing past links loop with
  | nil =>
    rw [List.append_nil]
    exact ⟨links, h⟩
  | cons occasion occasions ih =>
    rw [List.forall_mem_cons] at hSound
    obtain ⟨links', hOccurred⟩ := h.occur hLocal hFresh hDefaults hSound.1
    rw [List.append_cons]
    exact ih hSound.2 hOccurred

end Isolates

end Hypertext
