import Hypertext.Proofs.Chain.Order
import Hypertext.Proofs.Chain.Upkeep
import Hypertext.Proofs.Tree.Attaching

/-! # One options object for each run

A run makes an options object of its own. Every tree that it hands to a plugin, and the one that it
renders, carries the handle of that object, whatever came back from the plugins before. What a plugin
does to the options is thus seen by all that come after it.
-/

namespace Hypertext

set_option autoImplicit false

open Chain

variable {σ : Type}

/-! ## Trees that carry a handle -/

def Called.Carries (handle : OptionsRef) (called : Called σ) : Prop :=
  called.world.store.optionsOf called.tree = some handle

def ChainEnd.Carries (handle : OptionsRef) (chain : ChainEnd σ) : Prop :=
  ∀ tree, chain.outcome = .ok tree → chain.world.store.optionsOf tree = some handle

namespace World

def KeepsHandles (before after : World σ) : Prop :=
  ∀ handle, Store.KeepsHandle handle before.store after.store

def AllCarry (handle : OptionsRef) (world : World (Recorded σ)) : Prop :=
  ∀ called ∈ world.calls, called.Carries handle

structure Beside (before after : World (Recorded σ)) : Prop where
  keeps : before.KeepsHandles after
  calls : after.calls = before.calls

structure Along (handle : OptionsRef) (before after : World (Recorded σ)) : Prop where
  keeps : Store.KeepsHandle handle before.store after.store
  calls : before.AllCarry handle → after.AllCarry handle

variable {handle : OptionsRef} {before after : World (Recorded σ)}

theorem Beside.along (h : before.Beside after) (handle : OptionsRef) :
    before.Along handle after where
  keeps := h.keeps handle
  calls hCarry := by
    intro called hCalled
    rw [h.calls] at hCalled
    exact hCarry called hCalled

theorem neutral_beside : Neutral (Beside (σ := σ)) where
  refl world := ⟨fun handle => .refl handle world.store, rfl⟩
  trans hFirst hSecond :=
    ⟨fun handle => (hFirst.keeps handle).trans (hSecond.keeps handle),
      hSecond.calls.trans hFirst.calls⟩
  write world _ _ _ _ _ := ⟨fun handle => .refl handle world.store, rfl⟩

theorem neutral_along (handle : OptionsRef) : Neutral (Along (σ := σ) handle) where
  refl world := (neutral_beside.refl world).along handle
  trans hFirst hSecond := ⟨hFirst.keeps.trans hSecond.keeps, fun h => hSecond.calls (hFirst.calls h)⟩
  write world logger level message extra failure :=
    (neutral_beside.write world logger level message extra failure).along handle

end World

/-- Plugins may do anything to their trees except give one another handle. -/
structure Conduct.KeepsHandles (conduct : Conduct σ) : Prop where
  call : ∀ plugin tree world, World.KeepsHandles world (conduct.plugin plugin tree world).world
  body : ∀ plugin tree world returned body,
    (conduct.plugin plugin tree world).outcome = .ok returned → returned.body? = some body →
      Body.Leads World.KeepsHandles body
  discard : ∀ plugin tree world returned,
    (conduct.plugin plugin tree world).outcome = .ok returned →
      ∀ later, World.KeepsHandles later (returned.discard later)

/-! ## Normalizing -/

section Normalizing

variable {world : World σ} {candidate previous : Slot} {handle : OptionsRef}
  {logger : Option Logger}

theorem normalize_cases (world : World σ) (candidate previous : Slot) (handle : OptionsRef)
    (logger : Option Logger) :
    (∃ log, normalize world candidate previous handle logger = (previous, { world with log })) ∨
      ∃ next store, world.store.attach candidate (some handle) = (.ok next, store) ∧
        normalize world candidate previous handle logger = (next, world.withStore store) := by
  unfold normalize
  split
  · exact .inl ⟨world.log, rfl⟩
  · split
    · rename_i next store hAttach
      exact .inr ⟨next, store, hAttach, rfl⟩
    · split
      · exact .inl ⟨world.log, rfl⟩
      · exact .inl ⟨_, rfl⟩

theorem normalize_carries (candidate : Slot) (logger : Option Logger)
    (hPrevious : world.store.optionsOf previous = some handle) :
    (normalize world candidate previous handle logger).2.store.optionsOf
        (normalize world candidate previous handle logger).1 = some handle ∧
      Store.KeepsHandle handle world.store
        (normalize world candidate previous handle logger).2.store := by
  rcases normalize_cases world candidate previous handle logger with
    ⟨log, hSame⟩ | ⟨next, store, hAttach, hNext⟩
  · rw [hSame]
    exact ⟨hPrevious, .refl handle world.store⟩
  · obtain ⟨hCarries, hKeeps, -⟩ := Store.attach_carries hAttach
    rw [hNext]
    exact ⟨hCarries, hKeeps⟩

theorem normalize_retains (world : World σ) (candidate previous : Slot) (handle : OptionsRef)
    (logger : Option Logger) :
    world.store.Retains (normalize world candidate previous handle logger).2.store := by
  rcases normalize_cases world candidate previous handle logger with
    ⟨log, hSame⟩ | ⟨next, store, hAttach, hNext⟩
  · rw [hSame]
    exact .refl world.store
  · rw [hNext]
    exact (Store.attach_carries hAttach).2.2

theorem normalize_copies (handle : OptionsRef) (logger : Option Logger) {r : Ref} {cell : Cell}
    (hCell : world.store.get? r = some cell) (hPlain : cell.isCapable = false)
    (hPrevious : previous ≠ .ref r) :
    ∃ copy, normalize world (.ref r) previous handle logger =
        (.ref copy, world.withStore (normalize world (.ref r) previous handle logger).2.store) ∧
      world.store.get? copy = none ∧
      (normalize world (.ref r) previous handle logger).2.store.get? r = some cell ∧
      (normalize world (.ref r) previous handle logger).2.store.get? copy =
        some (cell.bound handle) := by
  have hNormal : normalize world (.ref r) previous handle logger =
      (.ref ⟨world.store.cells.size⟩,
        world.withStore (world.store.alloc (cell.bound handle)).2) := by
    have hOther : ((Slot.ref r).isNone || (Slot.ref r).identical previous) = false := by
      cases previous with
      | atom a => rfl
      | ref other =>
        have hNe : r ≠ other := fun hSame => hPrevious (congrArg Slot.ref hSame.symm)
        simp [Slot.isNone, Slot.identical, hNe]
    rw [normalize.eq_def, hOther, Store.attach_plain hCell hPlain]
    rfl
  refine ⟨⟨world.store.cells.size⟩, ?_, ?_, ?_, ?_⟩
  · rw [hNormal]
    rfl
  · exact Array.getElem?_eq_none (Nat.le_refl _)
  · rw [hNormal]
    exact world.store.get?_alloc_of_some _ cell r hCell
  · rw [hNormal]
    exact world.store.get?_alloc_self _

end Normalizing

/-! ## Along a chain -/

namespace Conduct.KeepsHandles

variable {conduct : Conduct σ}

theorem beside (h : conduct.KeepsHandles) {plugin : Callable} {tree : Slot} {world : World σ}
    {returned : Returned σ} (hOutcome : (conduct.plugin plugin tree world).outcome = .ok returned)
    {body : Body (Recorded σ)} (hBody : (returned.recorded plugin).body? = some body) :
    Body.Leads World.Beside body := by
  obtain ⟨original, hOriginal, rfl⟩ := body?_recorded hBody
  intro stretch hStretch
  obtain ⟨stretch, hMem, rfl⟩ := List.mem_map.mp hStretch
  intro later
  exact ⟨h.body plugin tree world returned original hOutcome hOriginal stretch hMem later.bare,
    silent_recorded plugin stretch later⟩

theorem upkeep (h : conduct.KeepsHandles) (context : Context) :
    Upkeep conduct.recorded context World.Beside (World.Along context.options) fun world tree =>
      world.store.optionsOf tree = some context.options where
  toNeutral := World.neutral_along context.options
  acts hBeside := hBeside.along context.options
  fit hAlong hTree := hAlong.keeps _ hTree
  normalized world candidate previous logger hPrevious := by
    obtain ⟨hNext, hKeeps⟩ := normalize_carries candidate logger hPrevious
    refine ⟨⟨hKeeps, fun hCarry => ?_⟩, hNext⟩
    have hDeeds : (normalize world candidate previous context.options logger).2.deeds = world.deeds := by
      rcases normalize_cases world candidate previous context.options logger with
        ⟨log, hSame⟩ | ⟨next, store, hAttach, hNext⟩
      · rw [hSame]
        rfl
      · rw [hNext]
        rfl
    intro called hCalled
    rw [World.calls, hDeeds] at hCalled
    exact hCarry called hCalled
  call plugin tree world hTree := by
    refine ⟨h.call plugin tree world.bare context.options, fun hCarry called hCalled => ?_⟩
    rw [calls_plugin] at hCalled
    rcases List.mem_append.mp hCalled with hOld | hNew
    · exact hCarry called hOld
    · rw [List.mem_singleton.mp hNew]
      exact hTree
  body plugin tree world returned body hOutcome hBody := by
    obtain ⟨original, hOriginal, rfl⟩ := outcome_of_recorded_ok hOutcome
    exact h.beside hOriginal hBody
  discard plugin tree world returned hOutcome later := by
    obtain ⟨original, hOriginal, rfl⟩ := outcome_of_recorded_ok hOutcome
    have hReleased := original.discard_recorded plugin later.bare later.deeds
    refine World.Beside.along ?_ context.options
    have hKeeps := h.discard plugin tree world.bare original hOriginal later.bare
    refine ⟨?_, ?_⟩
    · intro handle
      have hStore : ((original.recorded plugin).discard later).store =
          (original.discard later.bare).store := congrArg World.store hReleased
      rw [hStore]
      exact hKeeps handle
    · have hDeeds : ((original.recorded plugin).discard later).deeds =
          later.deeds ++ original.releases plugin := congrArg World.deeds hReleased
      rw [World.calls, hDeeds, List.filterMap_append]
      cases original with
      | value | awaitable | coroutine | loopFuture | poolFuture => exact List.append_nil _

end Conduct.KeepsHandles

/-! ## The handle of a run -/

namespace Store

mutual

theorem options_new (store : Store) : ∀ value : Value, (store.new value).2.options = store.options
  | .atom _ => rfl
  | .seq _ items => options_newItems store items
  | .map _ entries => options_newEntries store entries

theorem options_newItems (store : Store) :
    ∀ items : List Value, (store.newItems items).2.options = store.options
  | [] => rfl
  | item :: rest => (options_newItems (store.new item).2 rest).trans (options_new store item)

theorem options_newEntries (store : Store) :
    ∀ entries : List (Value × Value), (store.newEntries entries).2.options = store.options
  | [] => rfl
  | (_, value) :: rest =>
    (options_newEntries (store.new value).2 rest).trans (options_new store value)

end

theorem newOptions_eq (store : Store) (options : Options) :
    (store.newOptions options).1 = ⟨store.options.size⟩ := by
  rw [← options_newItems store (Setting.all.map options.get)]
  rfl

end Store

namespace Processing

variable {conduct : Conduct σ} {brief : Brief} {context : Context} {world next : World σ}

theorem options_context (h : brief.context conduct world = .ok (context, next)) :
    context.options = ⟨world.store.options.size⟩ := by
  obtain ⟨options, hHandle, -⟩ := Brief.exists_newOptions h
  rw [hHandle]
  exact world.store.newOptions_eq options

theorem loadTree_carries {source tree : Slot}
    (h : loadTree conduct context source world = (.ok tree, next)) :
    next.store.optionsOf tree = some context.options := by
  unfold loadTree at h
  split at h
  · cases h
  · rename_i read last hRead
    cases hAttach : last.store.attach read (some context.options) with
    | mk outcome store =>
      rw [hAttach] at h
      cases h
      exact (Store.attach_carries hAttach).1

theorem writeTree_carried {tree : Slot} (h : world.store.optionsOf tree = some context.options) :
    writeTree conduct context tree world =
      if (world.store.getOptions context.options).skipRender.truthy then (.ok .none, world)
      else
        match (world.store.getOptions context.options).render with
        | .none => renderTree conduct.depth tree context.options context.correlationId world
        | renderer => callCollaborator conduct renderer tree context.options world := by
  unfold writeTree
  split
  · rename_i hNone
    cases h.symm.trans hNone
  · rename_i handle hHandle
    obtain rfl := Option.some.inj (h.symm.trans hHandle)
    rfl

theorem launch_prepare {prepared : World σ} {launch : Launch σ (Outcome ProcessResult)}
    (h : (routine conduct brief).prepare world = (prepared, .inr launch)) :
    launch.context.options = ⟨world.store.options.size⟩ ∧
      prepared.store.optionsOf launch.tree = some launch.context.options ∧
      launch.conclude = concludeLater conduct launch.context := by
  simp only [routine] at h
  split at h
  · cases h
  · rename_i context begun hContext
    split at h
    · cases h
    · rename_i tree last hLoad
      cases h
      exact ⟨options_context hContext, loadTree_carries hLoad, rfl⟩

theorem error_prepare {prepared : World σ} {result : Outcome ProcessResult}
    (h : (routine conduct brief).prepare world = (prepared, .inl result)) :
    ∃ fault, result = .error fault := by
  simp only [routine] at h
  split at h
  · cases h
    exact ⟨_, rfl⟩
  · split at h
    · cases h
      exact ⟨_, rfl⟩
    · cases h

/-- How a run in blocking mode ends: before it has a tree and calls a plugin, or with a chain all of
whose trees carry its own handle. -/
inductive EndsCarrying (conduct : Conduct (Recorded σ)) (brief : Brief)
    (world : World (Recorded σ)) : World (Recorded σ) × Outcome ProcessResult → Prop where
  | refused {fault : Fault} (hContext : brief.context conduct world = .error fault) :
    EndsCarrying conduct brief world (world, .error fault)
  | unloaded {context : Context} {begun loaded : World (Recorded σ)} {fault : Fault}
    (hContext : brief.context conduct world = .ok (context, begun))
    (hLoad : loadTree conduct context brief.source
      (logStart begun context brief.plugins "sync") = (.error fault, loaded))
    (hCalls : loaded.calls = world.calls) :
    EndsCarrying conduct brief world (fail loaded context.correlationId fault, .error fault)
  | concluded {context : Context} {begun : World (Recorded σ)} {chain : ChainEnd (Recorded σ)}
    (hContext : brief.context conduct world = .ok (context, begun))
    (hOwn : context.options = ⟨world.store.options.size⟩)
    (hCalls : chain.world.AllCarry context.options) (hTree : chain.Carries context.options) :
    EndsCarrying conduct brief world (conclude conduct context chain)

theorem blocking_carries {conduct : Conduct σ} (h : conduct.KeepsHandles) (brief : Brief)
    {world : World (Recorded σ)} (hCalls : world.calls = []) :
    EndsCarrying conduct.recorded brief world (blocking conduct.recorded brief world) := by
  rw [blocking]
  cases hContext : brief.context conduct.recorded world with
  | error fault => exact .refused hContext
  | ok begun =>
    obtain ⟨context, next⟩ := begun
    have hLoadDeeds := (stages_deeds conduct).loadTree context brief.source
      (logStart next context brief.plugins "sync")
    have hNext := (stages_deeds conduct).briefContext hContext
    dsimp only
    cases hLoad : loadTree conduct.recorded context brief.source
        (logStart next context brief.plugins "sync") with
    | mk outcome loaded =>
      rw [hLoad] at hLoadDeeds
      have hLoaded : loaded.calls = world.calls :=
        congrArg (List.filterMap Deed.called?) (hLoadDeeds.trans hNext)
      cases outcome with
      | error fault => exact .unloaded hContext hLoad hLoaded
      | ok tree =>
        have hCarry : loaded.AllCarry context.options := by
          intro called hCalled
          rw [hLoaded, hCalls] at hCalled
          cases hCalled
        dsimp only
        rw [Blocking.run]
        cases hAttach : loaded.store.attach tree (some context.options) with
        | mk attached store =>
          cases attached with
          | error fault => exact .concluded hContext (options_context hContext) hCarry (by rintro _ ⟨⟩)
          | ok first =>
            obtain ⟨hAlong, hTree⟩ := (h.upkeep context).runFrom brief.plugins 0 first .empty
              (loaded.withStore store) (Store.attach_carries hAttach).1
            exact .concluded hContext (options_context hContext) (hAlong.calls hCarry) hTree

end Processing

/-! ## Runs on a loop -/

/-- What comes from outside the loop gives no tree another handle. -/
def Happening.KeepsHandles : Happening σ → Prop
  | .change act => ∀ world, World.KeepsHandles world (act world)
  | .hand handed => handed.Leads World.KeepsHandles
  | _ => True

theorem Job.beside_recorded {job : Job σ} (h : job.Leads World.KeepsHandles) :
    job.recorded.Leads World.Beside := by
  match job with
  | .task id (.body body) =>
    intro stretch hStretch
    obtain ⟨stretch, hMem, rfl⟩ := List.mem_map.mp hStretch
    exact fun world => ⟨h stretch hMem world.bare, rfl⟩
  | .task _ (.relayed _) | .task _ (.ready _) => trivial
  | .start _ | .resume _ _ | .settle _ _ | .taskEnded _ _ | .relay _ _ => trivial

namespace Loop

open Processing

/-- Where the run of a document stands. Its trees carry the handle that it got when it was prepared. -/
inductive Carries (conduct : Conduct σ) (brief : Brief)
    (loop : Loop (Recorded σ) (Outcome ProcessResult)) : Prop where
  | fresh (hRuns : loop.runs = [.fresh (routine conduct.recorded brief)])
    (hCalls : loop.shared.world.calls = [])
  | refused {asked prepared : World (Recorded σ)} {fault : Fault}
    (hPrepare : (routine conduct.recorded brief).prepare asked = (prepared, .inl (.error fault)))
    (hRuns : loop.runs = [.ended (.error fault)]) (hCalls : loop.shared.world.calls = [])
  | active {asked prepared : World (Recorded σ)}
    {launch : Launch (Recorded σ) (Outcome ProcessResult)} {waiting : Paused (Recorded σ)}
    (hPrepare : (routine conduct.recorded brief).prepare asked = (prepared, .inr launch))
    (hRuns : loop.runs = [.active launch waiting])
    (hTree : loop.shared.world.store.optionsOf waiting.tree = some launch.context.options)
    (hCalls : loop.shared.world.AllCarry launch.context.options)
  | ended {asked prepared : World (Recorded σ)}
    {launch : Launch (Recorded σ) (Outcome ProcessResult)} {chain : ChainEnd (Recorded σ)}
    (hPrepare : (routine conduct.recorded brief).prepare asked = (prepared, .inr launch))
    (hRuns : loop.runs = [.ended (concludeLater conduct.recorded launch.context chain).2])
    (hTree : chain.Carries launch.context.options)
    (hCalls : loop.shared.world.AllCarry launch.context.options)

structure Carried (conduct : Conduct σ) (brief : Brief)
    (loop : Loop (Recorded σ) (Outcome ProcessResult)) : Prop where
  carries : loop.Carries conduct brief
  queue : loop.shared.Leads World.Beside
  waits : ∀ launch waiting, loop.runs = [.active launch waiting] → waiting.wait.Leads World.Beside

variable {conduct : Conduct σ} {brief : Brief} {loop : Loop (Recorded σ) (Outcome ProcessResult)}

theorem Carried.beside (h : loop.Carried conduct brief) (next : Shared (Recorded σ))
    (hNext : loop.shared.Upkept World.Beside World.Beside next) :
    Carried conduct brief ⟨next, loop.runs⟩ where
  queue := hNext.queue
  waits := h.waits
  carries := by
    have hAlong (handle : OptionsRef) := hNext.leads.along handle
    cases h.carries with
    | fresh hRuns hCalls => exact .fresh hRuns (hNext.leads.calls.trans hCalls)
    | refused hPrepare hRuns hCalls => exact .refused hPrepare hRuns (hNext.leads.calls.trans hCalls)
    | active hPrepare hRuns hTree hCalls =>
      exact .active hPrepare hRuns ((hAlong _).keeps _ hTree) ((hAlong _).calls hCalls)
    | ended hPrepare hRuns hTree hCalls => exact .ended hPrepare hRuns hTree ((hAlong _).calls hCalls)

theorem Carries.exists_runs (h : loop.Carries conduct brief) : ∃ state, loop.runs = [state] := by
  cases h with
  | fresh hRuns | refused _ hRuns | active _ hRuns | ended _ hRuns => exact ⟨_, hRuns⟩

theorem stand_carried {state : RunState (Recorded σ) (Outcome ProcessResult)}
    (hState : loop.runs = [state]) {asked prepared : World (Recorded σ)}
    {launch : Launch (Recorded σ) (Outcome ProcessResult)}
    (hPrepare : (routine conduct.recorded brief).prepare asked = (prepared, .inr launch))
    {step : Shared (Recorded σ) × Standing (Recorded σ)} (hQueue : step.1.Leads World.Beside)
    (hCalls : step.1.world.AllCarry launch.context.options)
    (hStanding : step.2.Fits World.Beside
      (fun world tree => world.store.optionsOf tree = some launch.context.options) step.1.world) :
    Carried conduct brief (loop.stand 0 launch step) := by
  have hSet (state : RunState (Recorded σ) (Outcome ProcessResult)) :
      loop.runs.set 0 state = [state] := by
    rw [hState]
    rfl
  obtain ⟨shared, standing⟩ := step
  cases standing with
  | paused waiting =>
    refine ⟨.active hPrepare (hSet _) hStanding.tree hCalls, hQueue, ?_⟩
    intro launch other hOther
    cases (hSet _).symm.trans hOther
    exact hStanding.wait
  | finished counted outcome =>
    have hConclude : launch.conclude = concludeLater conduct.recorded launch.context :=
      (launch_prepare hPrepare).2.2
    have hSilent := (isSilent_routine conduct brief).conclude asked prepared launch hPrepare
      ⟨shared.world, counted, outcome⟩
    have hRuns : (loop.stand 0 launch (shared, .finished counted outcome)).runs =
        [.ended (concludeLater conduct.recorded launch.context ⟨shared.world, counted, outcome⟩).2] := by
      rw [← hConclude]
      exact hSet _
    refine ⟨.ended hPrepare hRuns ?_ ?_, hQueue, ?_⟩
    · rintro tree hTree
      obtain rfl : outcome = .ok tree := hTree
      exact hStanding
    · intro called hCalled
      rw [World.AllCarry] at hCalls
      exact hCalls called (hSilent ▸ hCalled)
    · intro launch other hOther
      cases (hSet _).symm.trans hOther

theorem startRun_carried (h : conduct.KeepsHandles)
    (hRuns : loop.runs = [.fresh (routine conduct.recorded brief)])
    (hCalls : loop.shared.world.calls = []) (hQueue : loop.shared.Leads World.Beside) :
    Carried conduct brief (loop.startRun conduct.recorded 0 (routine conduct.recorded brief)) := by
  have hPrepared := ((isSilent_routine conduct brief).prepare loop.shared.world).trans hCalls
  rw [startRun]
  cases hPrepare : (routine conduct.recorded brief).prepare loop.shared.world with
  | mk prepared outcome =>
    rw [hPrepare] at hPrepared
    have hNone (handle : OptionsRef) : prepared.AllCarry handle := by
      intro called hCalled
      rw [hPrepared] at hCalled
      cases hCalled
    cases outcome with
    | inl result =>
      obtain ⟨fault, rfl⟩ := error_prepare hPrepare
      refine ⟨.refused hPrepare ?_ hPrepared, hQueue, ?_⟩
      · rw [hRuns]
        rfl
      · intro launch waiting hOther
        rw [hRuns] at hOther
        cases hOther
    | inr launch =>
      cases hAttach : prepared.store.attach launch.tree (some launch.context.options) with
      | mk attached store =>
        simp only [hAttach]
        cases attached with
        | error fault =>
          exact stand_carried hRuns hPrepare hQueue (hNone launch.context.options) trivial
        | ok first =>
          obtain ⟨⟨hAlong, hNext⟩, hStanding⟩ := (h.upkeep launch.context).advance 0
            (routine conduct.recorded brief).plugins 0 launch.metrics
            (loop.shared.withWorld (prepared.withStore store))
            (Store.attach_carries hAttach).1 hQueue
          exact stand_carried hRuns hPrepare hNext (hAlong.calls (hNone launch.context.options))
            hStanding

theorem perform_carried (h : conduct.KeepsHandles)
    (loop : Loop (Recorded σ) (Outcome ProcessResult)) (hLoop : loop.Carried conduct brief)
    (job : Job (Recorded σ)) (hJob : job.Leads World.Beside) :
    Carried conduct brief (loop.perform conduct.recorded job) := by
  obtain ⟨state, hState⟩ := hLoop.carries.exists_runs
  have hFirst {run : Nat} {other : RunState (Recorded σ) (Outcome ProcessResult)}
      (hOther : loop.runs[run]? = some other) : run = 0 ∧ loop.runs = [other] := by
    rw [hState] at hOther ⊢
    cases run with
    | zero =>
      cases hOther
      exact ⟨rfl, rfl⟩
    | succ run => cases hOther
  rcases World.neutral_beside.perform_cases conduct.recorded loop hLoop.queue hJob with
    ⟨run, fresh, rfl, hRun⟩ | ⟨run, outcome, launch, paused, rfl, hRun⟩ | ⟨next, hNext, hUpkept⟩
  · obtain ⟨rfl, hRuns⟩ := hFirst hRun
    rw [perform, hRun]
    cases hLoop.carries with
    | fresh hFresh hCalls =>
      cases hFresh.symm.trans hRuns
      exact startRun_carried h hFresh hCalls hLoop.queue
    | refused _ hOther | active _ hOther | ended _ hOther => cases hOther.symm.trans hRuns
  · obtain ⟨rfl, hRuns⟩ := hFirst hRun
    rw [perform, hRun]
    cases hLoop.carries with
    | fresh hOther | refused _ hOther | ended _ hOther => cases hOther.symm.trans hRuns
    | active hPrepare hActive hTree hCalls =>
      cases hActive.symm.trans hRuns
      obtain ⟨⟨hAlong, hQueue⟩, hStanding⟩ := (h.upkeep launch.context).wake 0
        loop.shared ⟨hTree, hLoop.waits launch paused hRuns⟩ hLoop.queue outcome
      exact stand_carried hRuns hPrepare hQueue (hAlong.calls hCalls) hStanding
  · rw [hNext]
    exact hLoop.beside next hUpkept

theorem happen_carried (h : conduct.KeepsHandles) (hLoop : loop.Carried conduct brief)
    {happening : Happening σ} (hHappening : happening.KeepsHandles) :
    Carried conduct brief (loop.happen conduct.recorded happening.recorded) := by
  cases happening with
  | start run => exact perform_carried h loop hLoop (.start run) trivial
  | change act =>
    exact hLoop.beside (loop.happen conduct.recorded (Happening.change act).recorded).shared
      ⟨⟨hHappening loop.shared.world.bare, rfl⟩, hLoop.queue⟩
  | hand job =>
    simp only [Happening.recorded, happen]
    split
    · exact hLoop.beside _ ⟨World.neutral_beside.refl _,
        Shared.Leads.post hLoop.queue (Job.beside_recorded hHappening)⟩
    · exact hLoop
  | job =>
    obtain ⟨⟨world, queue, promises⟩, runs⟩ := loop
    cases queue with
    | nil => exact hLoop
    | cons job queue =>
      obtain ⟨hJob, hQueue⟩ := List.forall_mem_cons.mp hLoop.queue
      exact perform_carried h ⟨⟨world, queue, promises⟩, runs⟩
        (hLoop.beside ⟨world, queue, promises⟩ ⟨World.neutral_beside.refl _, hQueue⟩) job hJob

theorem play_carried (h : conduct.KeepsHandles) (brief : Brief) (world : World σ)
    (schedule : List (Happening σ)) (hSchedule : ∀ happening ∈ schedule, happening.KeepsHandles) :
    Carried conduct brief ((ofRoutines (world.recorded []) [routine conduct.recorded brief]).play
      conduct.recorded (schedule.map Happening.recorded)) := by
  induction schedule using List.reverseRecOn with
  | nil =>
    refine ⟨.fresh rfl rfl, List.forall_mem_nil _, ?_⟩
    rintro launch waiting ⟨⟩
  | append_singleton schedule happening ih =>
    obtain ⟨hBefore, hLast⟩ := List.forall_mem_append.mp hSchedule
    rw [List.map_append, List.map_singleton, play_concat]
    exact happen_carried h (ih hBefore) (hLast happening (List.mem_singleton_self happening))

end Loop

/-! ## One handle -/

/-- In either mode, whatever the plugins give back, they are all called with capable trees that carry
the run's own new handle, and so is the renderer, which reads the options under that handle as they are
by then. Taking a result for the next tree changes no options, and nothing in what came back that is
not capable. What goes on beside the run keeps the handles too, so no other run is given a capable tree
of this one: it would give the tree its own handle. -/
theorem run_carries_handle {conduct : Conduct σ} (h : conduct.KeepsHandles) (brief : Brief)
    (world : World σ) :
    Processing.EndsCarrying conduct.recorded brief (world.recorded [])
      (Processing.blocking conduct.recorded brief (world.recorded [])) ∧
    (∀ schedule : List (Happening σ), (∀ happening ∈ schedule, happening.KeepsHandles) →
      ((Loop.ofRoutines (world.recorded []) [Processing.routine conduct.recorded brief]).play
        conduct.recorded (schedule.map Happening.recorded)).Carries conduct brief) ∧
    (∀ (asked prepared : World (Recorded σ)) launch,
      (Processing.routine conduct.recorded brief).prepare asked = (prepared, .inr launch) →
      launch.context.options = ⟨asked.store.options.size⟩ ∧
        launch.conclude = Processing.concludeLater conduct.recorded launch.context) ∧
    (∀ (context : Context) (tree : Slot) (later : World (Recorded σ)),
      later.store.optionsOf tree = some context.options →
      later.store.isCapable tree = true ∧
        Processing.writeTree conduct.recorded context tree later =
          if (later.store.getOptions context.options).skipRender.truthy then (.ok .none, later)
          else
            match (later.store.getOptions context.options).render with
            | .none =>
              Processing.renderTree conduct.depth tree context.options context.correlationId later
            | renderer =>
              Processing.callCollaborator conduct.recorded renderer tree context.options later) ∧
    ∀ (later : World σ) (candidate previous : Slot) (handle : OptionsRef) (logger : Option Logger),
      let normal := normalize later candidate previous handle logger
      later.store.Retains normal.2.store ∧
        ∀ r cell, candidate = .ref r → later.store.get? r = some cell → cell.isCapable = false →
          normal.2.store.get? r = some cell ∧
            (candidate ≠ previous → ∃ copy, normal.1 = .ref copy ∧ later.store.get? copy = none ∧
              normal.2.store.get? copy = some (cell.bound handle)) := by
  refine ⟨Processing.blocking_carries h brief rfl, ?_, ?_, ?_, ?_⟩
  · intro schedule hSchedule
    exact (Loop.play_carried h brief world schedule hSchedule).carries
  · intro asked prepared launch hPrepare
    obtain ⟨hOwn, -, hConclude⟩ := Processing.launch_prepare hPrepare
    exact ⟨hOwn, hConclude⟩
  · intro context tree later hTree
    exact ⟨Store.isCapable_of_optionsOf hTree, Processing.writeTree_carried hTree⟩
  · intro later candidate previous handle logger normal
    refine ⟨normalize_retains later candidate previous handle logger, ?_⟩
    rintro r cell rfl hCell hPlain
    by_cases hSame : Slot.ref r = previous
    · have hIdentical : ((Slot.ref r).isNone || (Slot.ref r).identical previous) = true := by
        subst hSame
        simp [Slot.identical]
      have hNormal : normal = (previous, later) := if_pos hIdentical
      rw [hNormal]
      exact ⟨hCell, fun hOther => absurd hSame hOther⟩
    · obtain ⟨copy, hNormal, hFresh, hKept, hCopy⟩ :=
        normalize_copies handle logger hCell hPlain (Ne.symm hSame)
      exact ⟨hKept, fun _ => ⟨copy, congrArg Prod.fst hNormal, hFresh, hCopy⟩⟩

/-- Every plugin wraps its tree in a new list and gives that back. -/
def Conduct.wrapping : Conduct Unit where
  plugin _ tree world :=
    let (list, store) := world.store.alloc (.seq .list [tree])
    ⟨world.withStore store, [], .ok (.value list)⟩
  collaborator _ subject _ world := (.ok subject, world)
  files _ := .missing
  freshId _ := ""
  depth := 1000

theorem Conduct.keepsHandles_wrapping : wrapping.KeepsHandles where
  call _ tree world handle := world.store.keepsHandle_alloc (.seq .list [tree]) handle
  body _ _ _ _ _ hOutcome hBody := by
    cases hOutcome
    cases hBody
  discard _ _ _ _ hOutcome later handle := by
    cases hOutcome
    exact .refl handle later.store

/-- Two plugins wrap what a text is read as, in either mode. -/
theorem run_carries_handle_wrapping :
    let wrap : Callable := ⟨0, .function, "wrap", none, false, []⟩
    let brief : Brief := ⟨.atom (.str "a"), .inl ⟨0⟩, [], [wrap, wrap]⟩
    let begun := World.made.recorded []
    let ended := Processing.blocking Conduct.wrapping.recorded brief begun
    let loop := (Loop.ofRoutines begun [Processing.routine Conduct.wrapping.recorded brief]).play
      Conduct.wrapping.recorded [.start 0]
    ended.1.calls.map (fun called => called.world.store.optionsOf called.tree) =
        [some ⟨1⟩, some ⟨1⟩] ∧
      loop.shared.world.calls.length = 2 ∧
      Processing.EndsCarrying Conduct.wrapping.recorded brief begun ended ∧
      loop.Carries Conduct.wrapping brief := by
  intro wrap brief begun ended loop
  obtain ⟨hEnded, hLoop, -⟩ := run_carries_handle Conduct.keepsHandles_wrapping brief World.made
  refine ⟨by decide +kernel, by decide +kernel, hEnded, ?_⟩
  exact hLoop [.start 0] (List.forall_mem_singleton.mpr trivial)

end Hypertext
