import Hypertext.Proofs.Chain.Happening

/-! # What a chain keeps up

A chain does little of its own: it writes to the log and turns results into trees. A relation between
worlds that holds whenever a plugin does something, and whenever the chain does one of these, holds
along the whole chain. So does a property of trees that such changes keep and that the next tree always
has.
-/

namespace Hypertext

set_option autoImplicit false

open Chain

variable {σ ρ : Type}

def Stretch.Leads (Leads : World σ → World σ → Prop) (stretch : Stretch σ) : Prop :=
  ∀ world, Leads world (stretch world).1

def Body.Leads (Leads : World σ → World σ → Prop) (body : Body σ) : Prop :=
  ∀ stretch ∈ body, Stretch.Leads Leads stretch

/-- A relation that holds whatever is written to the log. -/
structure Neutral (Leads : World σ → World σ → Prop) : Prop where
  refl : ∀ world, Leads world world
  trans : ∀ {first second third}, Leads first second → Leads second third → Leads first third
  write : ∀ world logger level message extra failure,
    Leads world (world.write logger level message extra failure)

/-- `Acts` holds of what coroutines do, `Leads` from any world to any later one, and `Fit` of the trees
of a chain. -/
structure Upkeep (conduct : Conduct σ) (context : Context) (Acts Leads : World σ → World σ → Prop)
    (Fit : World σ → Slot → Prop) : Prop extends Neutral Leads where
  acts : ∀ {before after}, Acts before after → Leads before after
  fit : ∀ {before after tree}, Leads before after → Fit before tree → Fit after tree
  normalized : ∀ world candidate previous logger, Fit world previous →
    Leads world (normalize world candidate previous context.options logger).2 ∧
      Fit (normalize world candidate previous context.options logger).2
        (normalize world candidate previous context.options logger).1
  call : ∀ plugin tree world, Fit world tree → Leads world (conduct.plugin plugin tree world).world
  body : ∀ plugin tree world returned body,
    (conduct.plugin plugin tree world).outcome = .ok returned → returned.body? = some body →
      Body.Leads Acts body
  discard : ∀ plugin tree world returned,
    (conduct.plugin plugin tree world).outcome = .ok returned →
      ∀ later, Leads later (returned.discard later)

/-! ## What is kept in a queue and by a run -/

def Job.Leads (Leads : World σ → World σ → Prop) : Job σ → Prop
  | .task _ (.body body) => Body.Leads Leads body
  | _ => True

def Shared.Leads (Leads : World σ → World σ → Prop) (shared : Shared σ) : Prop :=
  ∀ job ∈ shared.queue, job.Leads Leads

def Wait.Leads (Leads : World σ → World σ → Prop) : Wait σ → Prop
  | .body left => Body.Leads Leads left
  | _ => True

structure Paused.Fits (Acts : World σ → World σ → Prop) (Fit : World σ → Slot → Prop)
    (world : World σ) (paused : Paused σ) : Prop where
  tree : Fit world paused.tree
  wait : paused.wait.Leads Acts

def Standing.Fits (Acts : World σ → World σ → Prop) (Fit : World σ → Slot → Prop)
    (world : World σ) : Standing σ → Prop
  | .paused waiting => waiting.Fits Acts Fit world
  | .finished _ (.ok tree) => Fit world tree
  | .finished _ (.error _) => True

structure Shared.Upkept (Acts Leads : World σ → World σ → Prop) (shared next : Shared σ) :
    Prop where
  leads : Leads shared.world next.world
  queue : next.Leads Acts

structure Chain.Upkept (Acts Leads : World σ → World σ → Prop) (Fit : World σ → Slot → Prop)
    (shared : Shared σ) (step : Shared σ × Standing σ) : Prop extends
    shared.Upkept Acts Leads step.1 where
  standing : step.2.Fits Acts Fit step.1.world

namespace Shared.Leads

variable {Leads : World σ → World σ → Prop} {shared : Shared σ}

theorem postAll (h : shared.Leads Leads) {jobs : List (Job σ)}
    (hJobs : ∀ job ∈ jobs, job.Leads Leads) : (shared.postAll jobs).Leads Leads :=
  List.forall_mem_append.mpr ⟨h, hJobs⟩

theorem post (h : shared.Leads Leads) {job : Job σ} (hJob : job.Leads Leads) :
    (shared.post job).Leads Leads :=
  h.postAll (List.forall_mem_singleton.mpr hJob)

theorem settles (h : shared.Leads Leads) (id : Nat) (completions : List Completion) :
    (shared.postAll (completions.map (.settle id))).Leads Leads := by
  apply h.postAll
  intro job hJob
  obtain ⟨completion, -, rfl⟩ := List.mem_map.mp hJob
  trivial

theorem promised (h : shared.Leads Leads) (promise : Promise) (call : PluginCall σ) :
    (shared.promised promise call).Leads Leads :=
  h.settles shared.promises.length call.completions

theorem postTask (h : shared.Leads Leads) (id : Nat) {returned : Returned σ}
    (hBody : ∀ body, returned.body? = some body → Body.Leads Leads body) :
    (shared.postTask id returned).Leads Leads := by
  cases returned with
  | value => exact h
  | coroutine body | awaitable body => exact h.post (hBody body rfl)
  | loopFuture state | poolFuture state =>
    cases state with
    | settled => exact h.post trivial
    | pending => exact h

end Shared.Leads

namespace Upkeep

variable {conduct : Conduct σ} {context : Context} {Acts Leads : World σ → World σ → Prop}
  {Fit : World σ → Slot → Prop} {run : Nat} {shared : Shared σ}

/-! ## Plugins -/

theorem completed (h : Upkeep conduct context Acts Leads Fit) (plugin : Callable) (index : Nat)
    (metrics : Metrics) (kind : PluginKind) (result : Slot) {tree : Slot} {world : World σ}
    (hTree : Fit world tree) :
    let (next, _, after) := completed context plugin index tree metrics kind result world
    Leads world after ∧ Fit after next := by
  obtain ⟨hLeads, hFit⟩ := h.normalized world result tree
    (some (context.pluginLogger plugin.displayName index)) hTree
  have hWrite := h.write
    (normalize world result tree context.options
      (some (context.pluginLogger plugin.displayName index))).2
    (context.pluginLogger plugin.displayName index) .debug "Plugin completed"
    [("kind", .str kind.label)] none
  exact ⟨h.trans hLeads hWrite, h.fit hWrite hFit⟩

theorem stepBody (h : Upkeep conduct context Acts Leads Fit) {body : Body σ}
    (hBody : Body.Leads Acts body) (world : World σ) :
    Leads world (stepBody world body).1 ∧
      ∀ rest, (stepBody world body).2 = .inr rest → Body.Leads Acts rest := by
  cases body with
  | nil => exact ⟨h.refl world, by rintro rest ⟨⟩⟩
  | cons stretch rest =>
    obtain ⟨hFirst, hRest⟩ := List.forall_mem_cons.mp hBody
    have hLeads := h.acts (hFirst world)
    rw [Chain.stepBody]
    generalize stretch world = step at hLeads
    obtain ⟨next, completions, ending⟩ := step
    refine ⟨by cases ending <;> exact hLeads, ?_⟩
    cases ending with
    | some outcome => rintro left ⟨⟩
    | none =>
      rintro left ⟨⟩
      exact hRest

theorem answers (h : Upkeep conduct context Acts Leads Fit) {plugin : Callable} {tree : Slot}
    {world final : World σ} {kind : PluginKind} {outcome : Outcome Slot}
    (hAnswers : Answers conduct plugin tree world final kind outcome) (hTree : Fit world tree) :
    Leads world final := by
  have hCall := h.call plugin tree world hTree
  cases hAnswers with
  | raised | value | future => exact hCall
  | @body returned body _ _ hOutcome hBody hStep =>
    have hLater := (h.stepBody (h.body _ _ _ _ _ hOutcome hBody)
      (conduct.plugin plugin tree world).world).1
    rw [hStep] at hLater
    exact h.trans hCall hLater

theorem defers (h : Upkeep conduct context Acts Leads Fit) {plugin : Callable} {index : Nat} {tree : Slot}
    {next : Shared σ} {kind : PluginKind} {wait : Wait σ}
    (hDefers : Defers conduct run context plugin index tree shared next kind wait)
    (hTree : Fit shared.world tree) (hQueue : shared.Leads Acts) :
    shared.Upkept Acts Leads next ∧ wait.Leads Acts := by
  have hCall := h.call plugin tree shared.world hTree
  cases hDefers with
  | body _ hOutcome hBody hStep =>
    obtain ⟨hLater, hRest⟩ := h.stepBody (h.body _ _ _ _ _ hOutcome hBody)
      (conduct.plugin plugin tree shared.world).world
    rw [hStep] at hLater hRest
    exact ⟨⟨h.trans hCall hLater, hQueue.post trivial⟩, hRest _ rfl⟩
  | relay => exact ⟨⟨hCall, hQueue.post trivial⟩, trivial⟩
  | pending => exact ⟨⟨hCall, hQueue⟩, trivial⟩
  | @callback returned _ hOutcome =>
    refine ⟨⟨?_, (hQueue.promised _ _).postTask _ fun body => h.body _ _ _ _ body hOutcome⟩, trivial⟩
    cases returned with
    | value | coroutine | awaitable => exact hCall
    | loopFuture state | poolFuture state => cases state <;> exact hCall

/-! ## Chains -/

theorem advances (h : Upkeep conduct context Acts Leads Fit) {plugins : List Callable} {index : Nat}
    {tree : Slot} {metrics : Metrics} {step : Shared σ × Standing σ}
    (hAdvances : Advances conduct run context plugins index tree metrics shared step)
    (hTree : Fit shared.world tree) (hQueue : shared.Leads Acts) :
    Chain.Upkept Acts Leads Fit shared step := by
  induction hAdvances with
  | ended => exact ⟨⟨h.refl _, hQueue⟩, hTree⟩
  | failed _ hAnswers => exact ⟨⟨h.answers hAnswers hTree, hQueue⟩, trivial⟩
  | refused => exact ⟨⟨h.call _ _ _ hTree, hQueue.promised _ _⟩, trivial⟩
  | deferred hDefers =>
    obtain ⟨hUpkept, hWait⟩ := h.defers hDefers hTree hQueue
    exact ⟨hUpkept, h.fit hUpkept.leads hTree, hWait⟩
  | @answered plugin rest index tree result metrics shared final kind step _ hAnswers _ ih =>
    have hCall := h.answers hAnswers hTree
    obtain ⟨hLeads, hFit⟩ := h.completed plugin index metrics kind result (h.fit hCall hTree)
    obtain ⟨⟨hRest, hNext⟩, hStanding⟩ := ih hFit hQueue
    exact ⟨⟨h.trans hCall (h.trans hLeads hRest), hNext⟩, hStanding⟩

theorem advance (h : Upkeep conduct context Acts Leads Fit) (run : Nat) (plugins : List Callable)
    (index : Nat) (metrics : Metrics) {tree : Slot} (shared : Shared σ)
    (hTree : Fit shared.world tree) (hQueue : shared.Leads Acts) :
    Chain.Upkept Acts Leads Fit shared
      (advance conduct run context plugins index tree metrics shared) :=
  h.advances (advance_advances plugins index tree metrics shared) hTree hQueue

theorem finishStep (h : Upkeep conduct context Acts Leads Fit) (run : Nat) (shared : Shared σ)
    {paused : Paused σ} (hTree : Fit shared.world paused.tree) (hQueue : shared.Leads Acts)
    (outcome : Outcome Slot) :
    Chain.Upkept Acts Leads Fit shared (finishStep conduct run context shared paused outcome) := by
  cases outcome with
  | error fault => exact ⟨⟨h.refl _, hQueue⟩, trivial⟩
  | ok result =>
    obtain ⟨hLeads, hFit⟩ := h.completed paused.plugin paused.index paused.metrics paused.kind result
      hTree
    obtain ⟨⟨hRest, hNext⟩, hStanding⟩ := h.advance run paused.rest (paused.index + 1) _
      (shared.withWorld _) hFit hQueue
    exact ⟨⟨h.trans hLeads hRest, hNext⟩, hStanding⟩

theorem wake (h : Upkeep conduct context Acts Leads Fit) (run : Nat) (shared : Shared σ)
    {paused : Paused σ} (hPaused : paused.Fits Acts Fit shared.world) (hQueue : shared.Leads Acts)
    (outcome : Option (Outcome Slot)) :
    Chain.Upkept Acts Leads Fit shared (wake conduct run context shared paused outcome) := by
  unfold Chain.wake
  split
  · rename_i body hWait
    have hBody : Body.Leads Acts body := by
      have hBody := hPaused.wait
      rwa [hWait] at hBody
    obtain ⟨hLeads, hRest⟩ := h.stepBody hBody shared.world
    generalize Chain.stepBody shared.world body = step at hLeads hRest
    obtain ⟨world, ended | rest⟩ := step
    · obtain ⟨⟨hLater, hNext⟩, hStanding⟩ := h.finishStep run (shared.withWorld world)
        (h.fit hLeads hPaused.tree) hQueue ended
      exact ⟨⟨h.trans hLeads hLater, hNext⟩, hStanding⟩
    · exact ⟨⟨hLeads, hQueue.post trivial⟩, h.fit hLeads hPaused.tree, hRest _ rfl⟩
  · exact h.finishStep run shared hPaused.tree hQueue _
  · exact h.finishStep run shared hPaused.tree hQueue _
  · exact h.finishStep run shared hPaused.tree hQueue _
  · exact ⟨⟨h.refl _, hQueue⟩, hPaused⟩

theorem runFrom (h : Upkeep conduct context Acts Leads Fit) (plugins : List Callable) (index : Nat)
    (tree : Slot) (metrics : Metrics) (world : World σ) (hTree : Fit world tree) :
    let chain := Blocking.runFrom conduct context plugins index tree metrics world
    Leads world chain.world ∧ ∀ last, chain.outcome = .ok last → Fit chain.world last := by
  induction plugins generalizing index tree metrics world with
  | nil =>
    refine ⟨h.refl world, ?_⟩
    rintro last ⟨⟩
    exact hTree
  | cons plugin rest ih =>
    have hCall := h.call plugin tree world hTree
    intro chain
    cases hDeclared : plugin.declaredKind with
    | callback | thenable =>
      have hChain : chain = _ := Blocking.runFrom.eq_def _ _ _ _ _ _ _
      simp only [hDeclared] at hChain
      rw [hChain]
      exact ⟨h.write _ _ _ _ _ _, by rintro last ⟨⟩⟩
    | sync =>
      have hChain : chain = _ := Blocking.runFrom.eq_def _ _ _ _ _ _ _
      simp only [hDeclared] at hChain
      cases hOutcome : (conduct.plugin plugin tree world).outcome with
      | error fault =>
        rw [hChain, hOutcome]
        exact ⟨hCall, by rintro last ⟨⟩⟩
      | ok returned =>
        have hDiscard := h.trans (h.discard plugin tree world returned hOutcome _)
          (h.write (returned.discard (conduct.plugin plugin tree world).world)
            (context.pluginLogger plugin.displayName index) .warning
            "Plugin returned an awaitable in sync mode" [] none)
        cases returned with
        | value result =>
          obtain ⟨hLeads, hFit⟩ := h.completed plugin index metrics .sync result
            (h.fit hCall hTree)
          obtain ⟨hRest, hLast⟩ := ih (index + 1) _ _ _ hFit
          rw [hChain, hOutcome]
          exact ⟨h.trans hCall (h.trans hLeads hRest), hLast⟩
        | coroutine | awaitable | loopFuture | poolFuture =>
          rw [hChain, hOutcome]
          exact ⟨h.trans hCall hDiscard, by rintro last ⟨⟩⟩

end Upkeep

/-! ## Jobs -/

namespace Neutral

variable {Acts : World σ → World σ → Prop} {shared : Shared σ}

theorem fulfil (h : Neutral Acts) (hQueue : shared.Leads Acts) (id : Nat)
    (promise : Promise) (outcome : Outcome Slot) :
    shared.Upkept Acts Acts (shared.fulfil id promise outcome) := by
  rw [Shared.fulfil]
  split
  · refine ⟨h.refl _, Shared.Leads.post ?_ trivial⟩
    exact hQueue
  · exact ⟨h.refl _, hQueue⟩

theorem settle (h : Neutral Acts) (hQueue : shared.Leads Acts) (id : Nat)
    (completion : Completion) : shared.Upkept Acts Acts (shared.settle id completion) := by
  rw [Shared.settle]
  split
  · exact ⟨h.refl _, hQueue⟩
  · split
    · exact ⟨h.write _ _ _ _ _ _, hQueue⟩
    · split
      · exact h.fulfil hQueue _ _ _
      · exact ⟨h.refl _, hQueue⟩

theorem endTask (h : Neutral Acts) (hQueue : shared.Leads Acts) (id : Nat)
    (outcome : Outcome Slot) : shared.Upkept Acts Acts (shared.endTask id outcome) := by
  unfold Shared.endTask
  split
  · split
    · exact ⟨h.refl _, hQueue⟩
    · split
      · exact ⟨h.write _ _ _ _ _ _, hQueue⟩
      · exact h.fulfil hQueue _ _ _
  · exact ⟨h.refl _, hQueue⟩

theorem stepTask (h : Neutral Acts) (hQueue : shared.Leads Acts) (id : Nat)
    {task : Task σ} (hTask : (Job.task id task).Leads Acts) :
    shared.Upkept Acts Acts (shared.stepTask id task) := by
  cases task with
  | relayed | ready => exact ⟨h.refl _, hQueue.post trivial⟩
  | body body =>
    cases body with
    | nil => exact ⟨h.refl _, hQueue.post trivial⟩
    | cons stretch rest =>
      obtain ⟨hFirst, hRest⟩ := List.forall_mem_cons.mp hTask
      have hLeads := hFirst shared.world
      rw [Shared.stepTask]
      generalize stretch shared.world = step at hLeads
      obtain ⟨world, completions, ending⟩ := step
      have hSettles : ((shared.withWorld world).postAll (completions.map (.settle id))).Leads Acts :=
        Shared.Leads.settles hQueue id completions
      cases ending with
      | none => exact ⟨hLeads, hSettles.post hRest⟩
      | some outcome => exact ⟨hLeads, hSettles.post trivial⟩

theorem perform_cases (h : Neutral Acts) (conduct : Conduct σ) (loop : Loop σ ρ)
    (hQueue : loop.shared.Leads Acts) {job : Job σ} (hJob : job.Leads Acts) :
    (∃ run routine, job = .start run ∧ loop.runs[run]? = some (.fresh routine)) ∨
      (∃ run outcome launch paused, job = .resume run outcome ∧
        loop.runs[run]? = some (.active launch paused)) ∨
      ∃ next, loop.perform conduct job = ⟨next, loop.runs⟩ ∧ loop.shared.Upkept Acts Acts next := by
  have hSame : loop.shared.Upkept Acts Acts loop.shared := ⟨h.refl _, hQueue⟩
  cases job with
  | settle id completion => exact .inr (.inr ⟨_, rfl, h.settle hQueue id completion⟩)
  | taskEnded id outcome => exact .inr (.inr ⟨_, rfl, h.endTask hQueue id outcome⟩)
  | task id task => exact .inr (.inr ⟨_, rfl, h.stepTask hQueue id hJob⟩)
  | relay waiter outcome =>
    cases hTaken : outcome.transferred? with
    | none => exact .inr (.inr ⟨_, Loop.perform_refused conduct loop waiter hTaken, hSame⟩)
    | some taken =>
      simp only [Loop.perform, hTaken]
      cases waiter with
      | run | task => exact .inr (.inr ⟨_, rfl, h.refl _, hQueue.post trivial⟩)
  | start run =>
    cases hState : loop.runs[run]? with
    | some state =>
      cases state with
      | fresh routine => exact .inl ⟨run, routine, rfl, hState⟩
      | active | ended => exact .inr (.inr ⟨_, by simp only [Loop.perform, hState], hSame⟩)
    | none => exact .inr (.inr ⟨_, by simp only [Loop.perform, hState], hSame⟩)
  | resume run outcome =>
    cases hState : loop.runs[run]? with
    | some state =>
      cases state with
      | active launch paused => exact .inr (.inl ⟨run, outcome, launch, paused, rfl, hState⟩)
      | fresh | ended => exact .inr (.inr ⟨_, by simp only [Loop.perform, hState], hSame⟩)
    | none => exact .inr (.inr ⟨_, by simp only [Loop.perform, hState], hSame⟩)

end Neutral

end Hypertext
