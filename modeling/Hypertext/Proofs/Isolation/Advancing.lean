import Hypertext.Proofs.Chain.Advance
import Hypertext.Proofs.Isolation.Linking

/-! # A run in step with its counterpart

Whatever a run does on the shared loop, it does on the loop of its own: it settles its promises,
goes on with its tasks and calls its plugins, and comes to stand in the same place.
-/

namespace Hypertext

set_option autoImplicit false

variable {σ : Type} {conduct : Conduct σ}

namespace Link

variable {κ ν : Link} {run : Nat} {alone shared : Shared σ} {context other : Context}

/-! ## Promises -/

theorem settles {id other : Nat} (hId : κ.promises[id]? = some other)
    {completions twins : List Completion}
    (hCompletions : List.Forall₂ κ.objects.Completions completions twins) :
    List.Forall₂ (κ.Jobs (σ := σ) run) (completions.map (.settle id))
      (twins.map (.settle other)) := by
  rw [List.forall₂_map_left_iff, List.forall₂_map_right_iff]
  exact hCompletions.imp fun _ _ hCompletion => .settle hId hCompletion

namespace Mirrors

variable (h : κ.Mirrors run alone shared)

include h

theorem promises_lt {other : Nat} (hOther : other ∈ κ.promises) :
    other < shared.promises.length := by
  obtain ⟨id, hId⟩ := List.getElem?_of_mem hOther
  obtain ⟨_, twin, -, hTwin, -⟩ := h.promises id other hId
  exact (List.getElem?_eq_some_iff.mp hTwin).1

theorem addPromise {promise twin : Promise} (hPromise : κ.Promises run promise twin) :
    κ.Steps run shared ⟨κ.objects, κ.promises ++ [shared.promises.length]⟩
      { alone with promises := alone.promises ++ [promise] }
      { shared with promises := shared.promises ++ [twin] } := by
  have hLe : κ ≤ ⟨κ.objects, κ.promises ++ [shared.promises.length]⟩ :=
    ⟨κ.objects.le_refl, List.prefix_append _ _⟩
  have hKeeps := Keeps.concat shared.promises hPromise.twin_run
  constructor
  · constructor
    · exact h.stores
    · rw [List.length_append, List.length_append, h.length_eq]
      rfl
    · refine List.pairwise_append.mpr ⟨h.sorted, List.pairwise_singleton _ _, ?_⟩
      intro other hOther new hNew
      rw [List.mem_singleton.mp hNew]
      exact h.promises_lt hOther
    · intro other new hNew hRun
      rw [List.mem_append, List.mem_singleton]
      by_cases hOld : other < shared.promises.length
      · rw [List.getElem?_append_left hOld] at hNew
        exact Or.inl (h.all other new hNew hRun)
      · have hLess := (List.getElem?_eq_some_iff.mp hNew).1
        rw [List.length_append] at hLess
        exact Or.inr (Nat.le_antisymm (Nat.le_of_lt_succ hLess) (Nat.le_of_not_lt hOld))
    · intro id other hId
      by_cases hLess : id < κ.promises.length
      · rw [List.getElem?_append_left hLess] at hId
        obtain ⟨old, oldTwin, hHere, hThere, hSame⟩ := h.promises id other hId
        refine ⟨old, oldTwin, ?_, ?_, hSame.mono hLe⟩
        · rw [List.getElem?_append_left (List.getElem?_eq_some_iff.mp hHere).1, hHere]
        · rw [List.getElem?_append_left (List.getElem?_eq_some_iff.mp hThere).1, hThere]
      · have hLength := Nat.le_of_not_lt hLess
        rw [List.getElem?_append_right hLength, List.getElem?_singleton] at hId
        split at hId
        · rename_i hZero
          obtain rfl := Option.some.inj hId
          obtain rfl : id = alone.promises.length :=
            (Nat.le_antisymm (Nat.le_of_sub_eq_zero hZero) hLength).trans h.length_eq
          exact ⟨promise, twin, List.getElem?_concat_length, List.getElem?_concat_length,
            hPromise.mono hLe⟩
        · cases hId
    · exact h.queue.keeps hLe hKeeps
  · exact { h.steps.acts with le := hLe, keeps := hKeeps,
                              queue := ⟨[], (List.append_nil _).symm, List.forall_mem_nil _⟩ }

theorem setPromise {id other : Nat} (hId : κ.promises[id]? = some other) {promise twin : Promise}
    (hPromise : κ.Promises run promise twin) :
    κ.Steps run shared κ { alone with promises := alone.promises.set id promise }
      { shared with promises := shared.promises.set other twin } := by
  obtain ⟨old, oldTwin, hHere, hThere, hOld⟩ := h.promises id other hId
  have hKeeps := Keeps.set hThere hOld.twin_run hPromise.twin_run
  constructor
  · constructor
    · exact h.stores
    · rw [List.length_set, h.length_eq]
    · exact h.sorted
    · intro other' new hNew hRun
      by_cases hSame : other = other'
      · subst hSame
        exact List.mem_of_getElem? hId
      · rw [List.getElem?_set_ne hSame] at hNew
        exact h.all other' new hNew hRun
    · intro id' other' hId'
      by_cases hSame : id = id'
      · subst hSame
        obtain rfl := Option.some.inj (hId.symm.trans hId')
        exact ⟨promise, twin, List.getElem?_set_self (List.getElem?_eq_some_iff.mp hHere).1,
          List.getElem?_set_self (List.getElem?_eq_some_iff.mp hThere).1, hPromise⟩
      · have hNe : other ≠ other' := by
          rintro rfl
          obtain ⟨hLess, hGet⟩ := List.getElem?_eq_some_iff.mp hId
          obtain ⟨hLess', hGet'⟩ := List.getElem?_eq_some_iff.mp hId'
          exact hSame (h.nodup.getElem_inj_iff.mp (hGet.trans hGet'.symm))
        rw [List.getElem?_set_ne hSame, List.getElem?_set_ne hNe]
        exact h.promises id' other' hId'
    · exact h.queue.keeps κ.le_refl hKeeps
  · exact { h.steps.acts with keeps := hKeeps,
                              queue := ⟨[], (List.append_nil _).symm, List.forall_mem_nil _⟩ }

theorem fulfil {id other : Nat} (hId : κ.promises[id]? = some other) {promise twin : Promise}
    (hPromise : κ.Promises run promise twin) {outcome otherOutcome : Outcome Slot}
    (hOutcome : κ.objects.Outcomes outcome otherOutcome) :
    κ.Steps run shared κ (alone.fulfil id promise outcome)
      (shared.fulfil other twin otherOutcome) := by
  have hSettled : κ.Promises run { promise with outcome := some outcome }
      { twin with outcome := some otherOutcome } := { hPromise with outcome := .some hOutcome }
  have hSet := h.setPromise hId hSettled
  obtain ⟨number, plugin, logger, before, awaited⟩ := promise
  obtain ⟨otherRun, otherPlugin, otherLogger, otherBefore, otherAwaited⟩ := twin
  obtain rfl : otherRun = run := hPromise.twin_run
  obtain rfl : number = 0 := hPromise.run_eq
  obtain rfl : awaited = otherAwaited := hPromise.awaited_eq
  unfold Shared.fulfil
  dsimp only
  split
  · exact hSet.trans (hSet.mirrors.post (.resume (.some hOutcome)))
  · exact hSet

theorem settle {id other : Nat} (hId : κ.promises[id]? = some other)
    {completion twin : Completion} (hCompletion : κ.objects.Completions completion twin) :
    κ.Steps run shared κ (alone.settle id completion) (shared.settle other twin) := by
  obtain ⟨promise, otherPromise, hHere, hThere, hPromise⟩ := h.promises id other hId
  simp only [Shared.settle, hHere, hThere, hPromise.outcome.isSome_eq]
  split
  · exact h.withWorld (h.stores.moves.aside rfl rfl rfl rfl)
  · rw [hPromise.plugin_eq]
    have hOutcome := h.stores.completionOutcome hCompletion otherPromise.plugin
    generalize completion.outcome? alone.world.store otherPromise.plugin = here at hOutcome ⊢
    generalize twin.outcome? shared.world.store otherPromise.plugin = there at hOutcome ⊢
    cases hOutcome with
    | none => exact h.steps
    | some hOutcome => exact h.fulfil hId hPromise hOutcome

theorem endTask {id other : Nat} (hId : κ.promises[id]? = some other)
    {outcome twin : Outcome Slot} (hOutcome : κ.objects.Outcomes outcome twin) :
    κ.Steps run shared κ (alone.endTask id outcome) (shared.endTask other twin) := by
  obtain ⟨promise, otherPromise, hHere, hThere, hPromise⟩ := h.promises id other hId
  cases hOutcome with
  | ok => exact h.steps
  | error fault =>
    simp only [Shared.endTask, hHere, hThere, hPromise.outcome.isSome_eq]
    split
    · exact h.steps
    · split
      · exact h.withWorld (h.stores.moves.aside rfl rfl rfl rfl)
      · exact h.fulfil hId hPromise (.error fault)

/-! ## Tasks -/

theorem stepTask {id other : Nat} (hId : κ.promises[id]? = some other) {task twin : Task σ}
    (hTask : κ.objects.Tasks task twin) :
    ∃ ν, κ.Steps run shared ν (alone.stepTask id task) (shared.stepTask other twin) := by
  cases hTask with
  | relayed hOutcome => exact ⟨κ, h.post (.relayTask hId hOutcome)⟩
  | ready hOutcome => exact ⟨κ, h.post (.taskEnded hId hOutcome.awaited)⟩
  | body hBody =>
    cases hBody with
    | nil => exact ⟨κ, h.post (.taskEnded hId (.ok (.atom .none)))⟩
    | @cons stretch twinStretch rest twins hStretch hRest =>
      obtain ⟨γ, hMoves, hCompletions, hEnding⟩ :=
        hStretch κ.objects alone.world shared.world κ.objects.le_refl h.stores
      simp only [Shared.stepTask]
      generalize stretch alone.world = here at hMoves hCompletions hEnding ⊢
      generalize twinStretch shared.world = there at hMoves hCompletions hEnding ⊢
      obtain ⟨w, completions, ending⟩ := here
      obtain ⟨v, twinCompletions, twinEnding⟩ := there
      have hWorld := h.withWorld hMoves
      have hCalled :=
        hWorld.trans (hWorld.mirrors.postAll (settles (κ := ⟨γ, κ.promises⟩) hId hCompletions))
      refine ⟨⟨γ, κ.promises⟩, ?_⟩
      cases (hEnding : γ.Endings ending twinEnding) with
      | none =>
        exact hCalled.trans (hCalled.mirrors.post
          (.task hId (.body (Pairing.bodies_mono hRest hMoves.le))))
      | some hOutcome =>
        exact hCalled.trans (hCalled.mirrors.post (.taskEnded hId hOutcome.leaving))

theorem postTask {id other : Nat} (hId : κ.promises[id]? = some other)
    {returned twin : Returned σ} (hReturns : κ.objects.Returns returned twin) :
    κ.Steps run shared κ (alone.postTask id returned) (shared.postTask other twin) := by
  cases hReturns with
  | value => exact h.steps
  | coroutine hBody | awaitable hBody => exact h.post (.task hId (.body hBody))
  | loopFuture hState =>
    cases hState with
    | settled hOutcome => exact h.post (.task hId (.ready hOutcome))
    | pending => exact h.steps
  | poolFuture hState =>
    cases hState with
    | settled hOutcome => exact h.post (.task hId (.relayed hOutcome))
    | pending => exact h.steps

end Mirrors

end Link

/-! ## Where a chain stands -/

namespace Pairing

inductive Waits (β : Pairing) : Wait σ → Wait σ → Prop where
  | body {rest twin : Body σ} (h : β.Bodies rest twin) : Waits β (.body rest) (.body twin)
  | promise : Waits β .promise .promise
  | relay : Waits β .relay .relay
  | pending : Waits β .pending .pending

inductive Pauses (β : Pairing) : Paused σ → Paused σ → Prop where
  | of (plugin : Callable) (rest : List Callable) (index : Nat) (metrics : Metrics)
    (kind : PluginKind) {tree twin : Slot} {wait other : Wait σ} (hTree : β.Slots tree twin)
    (hWait : β.Waits wait other) :
    Pauses β ⟨plugin, rest, index, tree, metrics, kind, wait⟩
      ⟨plugin, rest, index, twin, metrics, kind, other⟩

inductive Standings (β : Pairing) : Standing σ → Standing σ → Prop where
  | paused {paused twin : Paused σ} (h : β.Pauses paused twin) :
    Standings β (.paused paused) (.paused twin)
  | finished {metrics : Metrics} {outcome twin : Outcome Slot} (h : β.Outcomes outcome twin) :
    Standings β (.finished metrics outcome) (.finished metrics twin)

variable {β γ : Pairing}

theorem Waits.mono {wait twin : Wait σ} (h : β.Waits wait twin) (hLe : β ≤ γ) :
    γ.Waits wait twin := by
  cases h with
  | body h => exact .body (bodies_mono h hLe)
  | promise => exact .promise
  | relay => exact .relay
  | pending => exact .pending

theorem Pauses.mono {paused twin : Paused σ} (h : β.Pauses paused twin) (hLe : β ≤ γ) :
    γ.Pauses paused twin := by
  cases h with
  | of _ _ _ _ _ hTree hWait => exact .of _ _ _ _ _ (hTree.mono hLe) (hWait.mono hLe)

end Pairing

namespace Link

variable {κ ν μ : Link} {run : Nat} {alone shared : Shared σ} {context other : Context}

structure Comes (κ : Link) (run : Nat) (shared : Shared σ) (ν : Link)
    (here there : Shared σ × Standing σ) : Prop where
  steps : κ.Steps run shared ν here.1 there.1
  standing : ν.objects.Standings here.2 there.2

theorem Steps.comes {alone' shared' : Shared σ} {here there : Shared σ × Standing σ}
    (h : κ.Steps run shared ν alone' shared') (hComes : ν.Comes run shared' μ here there) :
    κ.Comes run shared μ here there :=
  ⟨h.trans hComes.steps, hComes.standing⟩

def Passes (conduct : Conduct σ) (run : Nat) (context other : Context) (plugins : List Callable) :
    Prop :=
  ∀ (κ : Link) (alone shared : Shared σ) (index : Nat) (tree twin : Slot) (metrics : Metrics),
    κ.Mirrors run alone shared → κ.objects.Contexts context other → κ.objects.Slots tree twin →
      ∃ ν, κ.Comes run shared ν (Chain.advance conduct 0 context plugins index tree metrics alone)
        (Chain.advance conduct run other plugins index twin metrics shared)

namespace Mirrors

variable (h : κ.Mirrors run alone shared)

include h

theorem getElem?_last (other : Nat) :
    (κ.promises ++ [other])[alone.promises.length]? = some other := by
  rw [← h.length_eq]
  exact List.getElem?_concat_length

theorem promised {γ : Pairing} {call twin : PluginCall σ}
    (hCalls : κ.objects.Calls shared.world γ call twin) (context other : Context)
    (plugin : Callable) (index : Nat) (awaited : Bool) :
    κ.Steps run shared ⟨γ, κ.promises ++ [shared.promises.length]⟩
      (alone.promised (context.promise 0 plugin index awaited) call)
      (shared.promised (other.promise run plugin index awaited) twin) := by
  have hWorld := h.withWorld hCalls.moves
  have hPromise : Promises ⟨γ, κ.promises⟩ run (context.promise 0 plugin index awaited)
      (other.promise run plugin index awaited) := ⟨rfl, rfl, rfl, rfl, .none⟩
  have hAdded := hWorld.trans (hWorld.mirrors.addPromise hPromise)
  exact hAdded.trans (hAdded.mirrors.postAll
    (settles (κ := ⟨γ, κ.promises ++ [shared.promises.length]⟩) (h.getElem?_last _)
      hCalls.completions))

theorem complete (hContext : κ.objects.Contexts context other) {tree twin : Slot}
    (hTree : κ.objects.Slots tree twin) {result otherResult : Slot}
    (hResult : κ.objects.Slots result otherResult) (plugin : Callable) (index : Nat)
    (metrics : Metrics) (kind : PluginKind) :
    ∃ ν next otherNext shared' alone' passed,
      Chain.complete context alone plugin index tree metrics kind result =
        (alone', next, passed) ∧
      Chain.complete other shared plugin index twin metrics kind otherResult =
        (shared', otherNext, passed) ∧
      κ.Steps run shared ν alone' shared' ∧ ν.objects.Slots next otherNext := by
  obtain ⟨γ, hNormal, hNext⟩ := h.stores.normalize hResult hTree hContext
    (context.pluginLogger plugin.displayName index) (other.pluginLogger plugin.displayName index)
  have hRecorded := hNormal.stores.recordPlugin metrics
    (context.pluginLogger plugin.displayName index) (other.pluginLogger plugin.displayName index)
    plugin.displayName index kind
  exact ⟨⟨γ, κ.promises⟩, _, _, _, _, _, rfl, rfl, h.withWorld (hNormal.trans hRecorded), hNext⟩

theorem finishStep {paused twin : Paused σ} (hPaused : κ.objects.Pauses paused twin)
    (hRest : Passes conduct run context other paused.rest)
    (hContext : κ.objects.Contexts context other) {outcome otherOutcome : Outcome Slot}
    (hOutcome : κ.objects.Outcomes outcome otherOutcome) :
    ∃ ν, κ.Comes run shared ν (Chain.finishStep conduct 0 context alone paused outcome)
      (Chain.finishStep conduct run other shared twin otherOutcome) := by
  cases hPaused with
  | of plugin rest index metrics kind hTree hWait =>
    cases hOutcome with
    | error fault => exact ⟨κ, h.steps, .finished (.error fault.leaving)⟩
    | ok hResult =>
      obtain ⟨ν, next, otherNext, shared', alone', passed, hHere, hThere, hSteps, hNext⟩ :=
        h.complete hContext hTree hResult plugin index metrics kind
      simp only [Chain.finishStep, hHere, hThere]
      obtain ⟨μ, hComes⟩ := hRest ν alone' shared' (index + 1) next otherNext passed hSteps.mirrors
        (hSteps.acts.le.1.2 hContext) hNext
      exact ⟨μ, hSteps.comes hComes⟩

theorem inPlace {body otherBody : Body σ} (hBody : κ.objects.Bodies body otherBody)
    {paused twin : Paused σ} (hPaused : κ.objects.Pauses paused twin)
    (hRest : Passes conduct run context other paused.rest)
    (hContext : κ.objects.Contexts context other) :
    ∃ ν w v,
      (∃ outcome otherOutcome, Chain.stepBody alone.world body = (w, .inl outcome) ∧
        Chain.stepBody shared.world otherBody = (v, .inl otherOutcome) ∧
        κ.Comes run shared ν
          (Chain.finishStep conduct 0 context (alone.withWorld w) paused outcome)
          (Chain.finishStep conduct run other (shared.withWorld v) twin otherOutcome)) ∨
      (∃ rest otherRest, Chain.stepBody alone.world body = (w, .inr rest) ∧
        Chain.stepBody shared.world otherBody = (v, .inr otherRest) ∧
        κ.Comes run shared ν
          ((alone.withWorld w).post (.resume 0 none), .paused { paused with wait := .body rest })
          ((shared.withWorld v).post (.resume run none),
            .paused { twin with wait := .body otherRest })) := by
  obtain ⟨γ, hMoves, hLeft⟩ := h.stores.stepBody hBody
  generalize Chain.stepBody alone.world body = here at hMoves hLeft ⊢
  generalize Chain.stepBody shared.world otherBody = there at hMoves hLeft ⊢
  obtain ⟨w, left⟩ := here
  obtain ⟨v, otherLeft⟩ := there
  have hWorld := h.withWorld hMoves
  cases (hLeft : γ.Lefts left otherLeft) with
  | ended hOutcome =>
    obtain ⟨ν, hComes⟩ := hWorld.mirrors.finishStep (hPaused.mono hMoves.le) hRest
      (hMoves.le.2 hContext) hOutcome
    exact ⟨ν, w, v, Or.inl ⟨_, _, rfl, rfl, hWorld.comes hComes⟩⟩
  | suspended hSuspended =>
    have hPosted := hWorld.trans (hWorld.mirrors.post (.resume .none))
    refine ⟨⟨γ, κ.promises⟩, w, v, Or.inr ⟨_, _, rfl, rfl, hPosted, .paused ?_⟩⟩
    cases hPaused with
    | of _ _ _ _ _ hTree _ => exact .of _ _ _ _ _ (hTree.mono hMoves.le) (.body hSuspended)

end Mirrors

theorem passes (hLocal : conduct.IsLocal) (plugins : List Callable) :
    Passes conduct run context other plugins := by
  induction plugins with
  | nil =>
    intro κ alone shared index tree twin metrics h _ hTree
    exact ⟨κ, h.steps, .finished (.ok hTree)⟩
  | cons plugin rest ih =>
    intro κ alone shared index tree twin metrics h hContext hTree
    obtain ⟨γ, hCalls⟩ := hLocal.plugin plugin κ.objects tree twin alone.world shared.world h.stores
      hTree
    rw [Chain.advance, Chain.advance]
    generalize conduct.plugin plugin tree alone.world = call at hCalls ⊢
    generalize conduct.plugin plugin twin shared.world = otherCall at hCalls ⊢
    obtain ⟨w, completions, outcome⟩ := call
    obtain ⟨v, otherCompletions, otherOutcome⟩ := otherCall
    have hMoves : κ.objects.Moves shared.world γ w v := hCalls.moves
    have hCalled := h.withWorld hMoves
    have hNow := hTree.mono hMoves.le
    have hOutcome : γ.Results outcome otherOutcome := hCalls.outcome
    by_cases hDeclared : plugin.declaredKind = .callback
    · simp only [hDeclared, if_true]
      cases hOutcome with
      | error fault =>
        exact ⟨_, h.promised hCalls context other plugin index false,
          .finished (.error fault.leaving)⟩
      | ok hReturns =>
        have hPromised := h.promised hCalls context other plugin index true
        have hTask := hPromised.mirrors.postTask (h.getElem?_last _) hReturns
        exact ⟨_, hPromised.trans hTask, .paused (.of _ _ _ _ _ hNow .promise)⟩
    · simp only [hDeclared, if_false]
      -- What comes after the plugin is the same, whichever way it came to its outcome.
      have hWaits {wait : Wait σ} (kind : PluginKind) (hWait : γ.Waits wait wait) :
          γ.Pauses ⟨plugin, rest, index, tree, metrics, kind, wait⟩
            ⟨plugin, rest, index, twin, metrics, kind, wait⟩ := .of _ _ _ _ _ hNow hWait
      have hThen (kind : PluginKind) {ended otherEnded : Outcome Slot}
          (hEnded : γ.Outcomes ended otherEnded) :=
        hCalled.mirrors.finishStep (hWaits kind .pending) ih
          (hMoves.le.2 hContext) hEnded
      have hInPlace {body otherBody : Body σ} (hBody : γ.Bodies body otherBody) :=
        hCalled.mirrors.inPlace hBody (hWaits .thenable .pending) ih
          (hMoves.le.2 hContext)
      cases hOutcome with
      | error fault => exact ⟨_, hCalled, .finished (.error fault.leaving)⟩
      | ok hReturns =>
        cases hReturns with
        | value hResult =>
          obtain ⟨ν, hComes⟩ := hThen .sync (.ok hResult)
          exact ⟨ν, hCalled.comes hComes⟩
        | coroutine hBody | awaitable hBody =>
          obtain ⟨ν, w', v', ⟨ended, otherEnded, hHere, hThere, hComes⟩ |
            ⟨left, otherLeft, hHere, hThere, hComes⟩⟩ := hInPlace hBody
          all_goals
            dsimp only
            rw [hHere, hThere]
            exact ⟨ν, hCalled.comes hComes⟩
        | loopFuture hState =>
          cases hState with
          | settled hEnded =>
            obtain ⟨ν, hComes⟩ := hThen .thenable hEnded.awaited
            exact ⟨ν, hCalled.comes hComes⟩
          | pending => exact ⟨_, hCalled, .paused (hWaits .thenable .pending)⟩
        | poolFuture hState =>
          cases hState with
          | settled hEnded =>
            exact ⟨_, hCalled.trans (hCalled.mirrors.post (.relayRun hEnded)),
              .paused (hWaits .thenable .relay)⟩
          | pending => exact ⟨_, hCalled, .paused (hWaits .thenable .pending)⟩

theorem Mirrors.wake (h : κ.Mirrors run alone shared) (hLocal : conduct.IsLocal)
    (hContext : κ.objects.Contexts context other) {paused twin : Paused σ}
    (hPaused : κ.objects.Pauses paused twin) {outcome otherOutcome : Option (Outcome Slot)}
    (hOutcome : κ.objects.Endings outcome otherOutcome) :
    ∃ ν, κ.Comes run shared ν (Chain.wake conduct 0 context alone paused outcome)
      (Chain.wake conduct run other shared twin otherOutcome) := by
  have hRest : Passes conduct run context other paused.rest := passes hLocal paused.rest
  have hStays : κ.Comes run shared κ (alone, .paused paused) (shared, .paused twin) :=
    ⟨h.steps, .paused hPaused⟩
  have hThen {ended otherEnded : Outcome Slot} (hEnded : κ.objects.Outcomes ended otherEnded) :=
    h.finishStep hPaused hRest hContext hEnded
  cases hPaused with
  | of plugin rest index metrics kind hTree hWait =>
    cases hWait with
    | body hBody =>
      cases hOutcome with
      | none =>
        obtain ⟨ν, w, v, ⟨ended, otherEnded, hHere, hThere, hComes⟩ |
          ⟨left, otherLeft, hHere, hThere, hComes⟩⟩ :=
            h.inPlace hBody (.of plugin rest index metrics kind hTree (.body hBody)) hRest hContext
        all_goals
          simp only [Chain.wake, hHere, hThere]
          exact ⟨ν, hComes⟩
      | some => exact ⟨κ, hStays⟩
    | promise | relay | pending =>
      cases hOutcome with
      | none => exact ⟨κ, hStays⟩
      | some hEnded => exact hThen hEnded.awaited

end Link

end Hypertext
