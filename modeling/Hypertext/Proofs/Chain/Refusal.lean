import Hypertext.Proofs.Chain.Recording

/-! # Blocking runs call nothing that completes later

A blocking run passes from plugin to plugin as long as each of them completes in its call, and is
stopped by the first that does not. One that is declared to complete later is not called at all; one
that turns out to is let go of, and no stretch of it is run. The record of a run is its calls in
order, with what it took to let go of the last one behind them.
-/

namespace Hypertext

set_option autoImplicit false

open Chain

variable {σ : Type}

def ChainEnd.recorded (chain : ChainEnd σ) (deeds : List (Deed σ)) : ChainEnd (Recorded σ) :=
  ⟨chain.world.recorded deeds, chain.metrics, chain.outcome⟩

/-- Plugins that complete in their calls, each of them called with the tree to which the result of
the one before was normalized, and in the world that this left. -/
inductive Passed (conduct : Conduct σ) (context : Context) :
    Nat → Slot → Metrics → World σ → List (Called σ) → Slot → Metrics → World σ → Prop where
  | nil {index : Nat} {tree : Slot} {metrics : Metrics} {world : World σ} :
    Passed conduct context index tree metrics world [] tree metrics world
  | cons {plugin : Callable} {index : Nat} {tree result last : Slot} {metrics counted : Metrics}
    {world called final : World σ} {completions : List Completion} {calls : List (Called σ)}
    (hDeclared : plugin.declaredKind = .sync)
    (hCall : conduct.plugin plugin tree world = ⟨called, completions, .ok (.value result)⟩)
    (hRest : Passed conduct context (index + 1)
      (completed context plugin index tree metrics .sync result called).1
      (completed context plugin index tree metrics .sync result called).2.1
      (completed context plugin index tree metrics .sync result called).2.2
      calls last counted final) :
    Passed conduct context index tree metrics world (⟨plugin, tree, world⟩ :: calls) last counted
      final

/-- Why a blocking run stops at a plugin: the world and the fault it ends with, and what was done
with the plugin. -/
inductive Refuses (conduct : Conduct σ) (context : Context) (plugin : Callable) (index : Nat)
    (tree : Slot) (world : World σ) : World σ → Fault → List (Deed σ) → Prop where
  | declared (hDeclared : plugin.declaredKind ≠ .sync) :
    Refuses conduct context plugin index tree world
      (world.write (context.pluginLogger plugin.displayName index) .warning
        "Async plugin rejected in sync mode" [("kind", .str plugin.declaredKind.label)] none)
      (.modeViolation plugin.displayName) []
  | raised {called : World σ} {completions : List Completion} {fault : Fault}
    (hDeclared : plugin.declaredKind = .sync)
    (hCall : conduct.plugin plugin tree world = ⟨called, completions, .error fault⟩) :
    Refuses conduct context plugin index tree world called fault [.call ⟨plugin, tree, world⟩]
  | thenable {called : World σ} {completions : List Completion} {returned : Returned σ}
    (hDeclared : plugin.declaredKind = .sync)
    (hCall : conduct.plugin plugin tree world = ⟨called, completions, .ok returned⟩)
    (hThenable : returned.isThenable = true) :
    Refuses conduct context plugin index tree world
      ((returned.discard called).write (context.pluginLogger plugin.displayName index) .warning
        "Plugin returned an awaitable in sync mode" [] none)
      (.modeViolation plugin.displayName)
      (.call ⟨plugin, tree, world⟩ :: returned.releases plugin)

/-- How a blocking run ends, and what its plugins were made to do. -/
inductive EndsInCall (conduct : Conduct σ) (context : Context) (plugins : List Callable)
    (index : Nat) (tree : Slot) (metrics : Metrics) (world : World σ) :
    ChainEnd σ → List (Deed σ) → Prop where
  | passed {calls : List (Called σ)} {last : Slot} {counted : Metrics} {final : World σ}
    (hPlugins : plugins = calls.map (·.plugin))
    (hPassed : Passed conduct context index tree metrics world calls last counted final) :
    EndsInCall conduct context plugins index tree metrics world ⟨final, counted, .ok last⟩
      (calls.map .call)
  | refused {calls : List (Called σ)} {plugin : Callable} {later : List Callable} {last : Slot}
    {counted : Metrics} {before final : World σ} {fault : Fault} {stops : List (Deed σ)}
    (hPlugins : plugins = calls.map (·.plugin) ++ plugin :: later)
    (hPassed : Passed conduct context index tree metrics world calls last counted before)
    (hRefuses : Refuses conduct context plugin (index + calls.length) last before final fault stops) :
    EndsInCall conduct context plugins index tree metrics world ⟨final, counted, .error fault⟩
      (calls.map .call ++ stops)

variable {conduct : Conduct σ} {context : Context}

theorem EndsInCall.stopped {plugin : Callable} {later : List Callable} {index : Nat} {tree : Slot}
    {metrics : Metrics} {world final : World σ} {fault : Fault} {stops : List (Deed σ)}
    (h : Refuses conduct context plugin index tree world final fault stops) :
    EndsInCall conduct context (plugin :: later) index tree metrics world
      ⟨final, metrics, .error fault⟩ stops := by
  have hEnds : EndsInCall conduct context (plugin :: later) index tree metrics world
      ⟨final, metrics, .error fault⟩ (([] : List (Called σ)).map .call ++ stops) :=
    .refused (by rfl) .nil h
  exact hEnds

theorem EndsInCall.cons {plugin : Callable} {rest : List Callable} {index : Nat}
    {tree result : Slot} {metrics : Metrics} {world called : World σ}
    {completions : List Completion} {chain : ChainEnd σ} {deeds : List (Deed σ)}
    (hDeclared : plugin.declaredKind = .sync)
    (hCall : conduct.plugin plugin tree world = ⟨called, completions, .ok (.value result)⟩)
    (h : EndsInCall conduct context rest (index + 1)
      (completed context plugin index tree metrics .sync result called).1
      (completed context plugin index tree metrics .sync result called).2.1
      (completed context plugin index tree metrics .sync result called).2.2 chain deeds) :
    EndsInCall conduct context (plugin :: rest) index tree metrics world chain
      (.call ⟨plugin, tree, world⟩ :: deeds) := by
  cases h with
  | @passed calls last counted final hPlugins hPassed =>
    exact .passed (congrArg (plugin :: ·) hPlugins) (.cons hDeclared hCall hPassed)
  | @refused calls stop later last counted before final fault stops hPlugins hPassed hRefuses =>
    have hLength : index + (⟨plugin, tree, world⟩ :: calls : List (Called σ)).length =
        index + 1 + calls.length := by
      rw [List.length_cons, ← Nat.add_assoc, Nat.add_right_comm]
    exact .refused (congrArg (plugin :: ·) hPlugins) (.cons hDeclared hCall hPassed)
      (hLength ▸ hRefuses)

theorem runFrom_passed {plugin : Callable} {index : Nat} {tree result : Slot} {world called : World σ}
    {completions : List Completion} (rest : List Callable) (metrics : Metrics)
    (hDeclared : plugin.declaredKind = .sync)
    (hCall : conduct.plugin plugin tree world = ⟨called, completions, .ok (.value result)⟩) :
    Blocking.runFrom conduct context (plugin :: rest) index tree metrics world =
      Blocking.runFrom conduct context rest (index + 1)
        (completed context plugin index tree metrics .sync result called).1
        (completed context plugin index tree metrics .sync result called).2.1
        (completed context plugin index tree metrics .sync result called).2.2 := by
  rw [Blocking.runFrom]
  simp only [hDeclared, hCall]
  rfl

theorem runFrom_endsInCall (plugins : List Callable) (index : Nat) (tree : Slot)
    (metrics : Metrics) (world : World σ) (deeds : List (Deed σ)) :
    ∃ done,
      EndsInCall conduct context plugins index tree metrics world
        (Blocking.runFrom conduct context plugins index tree metrics world) done ∧
      Blocking.runFrom conduct.recorded context plugins index tree metrics (world.recorded deeds) =
        (Blocking.runFrom conduct context plugins index tree metrics world).recorded
          (deeds ++ done) := by
  induction plugins generalizing index tree metrics world deeds with
  | nil =>
    have hEnds : EndsInCall conduct context [] index tree metrics world ⟨world, metrics, .ok tree⟩
        (([] : List (Called σ)).map .call) := .passed (by rfl) .nil
    refine ⟨[], hEnds, ?_⟩
    rw [List.append_nil]
    rfl
  | cons plugin rest ih =>
    cases hDeclared : plugin.declaredKind with
    | callback | thenable =>
      have hRefuses := @Refuses.declared _ conduct context plugin index tree world
        (by rw [hDeclared]; rintro ⟨⟩)
      rw [hDeclared] at hRefuses
      simp only [Blocking.runFrom, hDeclared]
      refine ⟨[], .stopped hRefuses, ?_⟩
      rw [List.append_nil]
      rfl
    | sync =>
      cases hCall : conduct.plugin plugin tree world with
      | mk called completions outcome =>
        have hRecorded := Conduct.plugin_recorded conduct plugin tree world deeds
        rw [hCall] at hRecorded
        cases outcome with
        | error fault =>
          simp only [Blocking.runFrom, hDeclared, hCall, hRecorded]
          exact ⟨_, .stopped (.raised hDeclared hCall), rfl⟩
        | ok returned =>
          have hReleased := returned.discard_recorded plugin called
            (deeds ++ [.call ⟨plugin, tree, world⟩])
          rw [List.append_assoc] at hReleased
          cases returned with
          | value result =>
            obtain ⟨done, hEnds, hRest⟩ := ih (index + 1)
              (completed context plugin index tree metrics .sync result called).1
              (completed context plugin index tree metrics .sync result called).2.1
              (completed context plugin index tree metrics .sync result called).2.2
              (deeds ++ [.call ⟨plugin, tree, world⟩])
            refine ⟨.call ⟨plugin, tree, world⟩ :: done, ?_, ?_⟩
            · rw [runFrom_passed rest metrics hDeclared hCall]
              exact .cons hDeclared hCall hEnds
            · rw [runFrom_passed rest metrics hDeclared hRecorded,
                runFrom_passed rest metrics hDeclared hCall, completed_recorded, hRest,
                List.append_assoc]
              rfl
          | coroutine | awaitable | loopFuture | poolFuture =>
            simp only [Blocking.runFrom, hDeclared, hCall, hRecorded]
            exact ⟨_, .stopped (.thenable hDeclared hCall rfl), congrArg (fun world =>
              (⟨world.write (context.pluginLogger plugin.displayName index) .warning
                "Plugin returned an awaitable in sync mode" [] none, metrics,
                .error (.modeViolation plugin.displayName)⟩ : ChainEnd (Recorded σ))) hReleased⟩

/-! ## The record of a run -/

theorem Passed.counted_eq {index : Nat} {tree last : Slot} {metrics counted : Metrics}
    {world final : World σ} {calls : List (Called σ)}
    (h : Passed conduct context index tree metrics world calls last counted final) :
    counted = ⟨metrics.timings ++ (calls.zipIdx index).map fun call =>
        ⟨call.1.plugin.displayName, call.2, "sync", .int 0⟩,
      metrics.executed + calls.length⟩ := by
  induction h with
  | nil => simp
  | @cons plugin index tree result last metrics counted world called final completions calls
      hDeclared hCall hRest ih =>
    have hMetrics : (completed context plugin index tree metrics .sync result called).2.1 =
        ⟨metrics.timings ++ [⟨plugin.displayName, index, "sync", .int 0⟩], metrics.executed + 1⟩ :=
      rfl
    rw [ih, hMetrics, List.zipIdx_cons, List.map_cons, List.append_assoc, List.length_cons]
    simp only [Metrics.mk.injEq, List.singleton_append, true_and]
    omega

theorem Refuses.stretch_not_mem {plugin other : Callable} {index : Nat} {tree : Slot}
    {world final : World σ} {fault : Fault} {stops : List (Deed σ)}
    (h : Refuses conduct context plugin index tree world final fault stops) :
    .stretch other ∉ stops := by
  cases h with
  | declared => exact List.not_mem_nil
  | raised =>
    intro hMem
    cases List.mem_singleton.mp hMem
  | @thenable called completions returned =>
    intro hMem
    rcases List.mem_cons.mp hMem with hCall | hRelease
    · cases hCall
    · cases returned with
      | value | awaitable => cases hRelease
      | coroutine | loopFuture | poolFuture => cases List.mem_singleton.mp hRelease

theorem EndsInCall.stretch_not_mem {plugins : List Callable} {index : Nat} {tree : Slot}
    {metrics : Metrics} {world : World σ} {chain : ChainEnd σ} {done : List (Deed σ)}
    (h : EndsInCall conduct context plugins index tree metrics world chain done)
    (other : Callable) : .stretch other ∉ done := by
  have hCalls (calls : List (Called σ)) : Deed.stretch other ∉ calls.map Deed.call := by
    intro hMem
    obtain ⟨call, -, hCall⟩ := List.mem_map.mp hMem
    cases hCall
  cases h with
  | passed => exact hCalls _
  | refused _ _ hRefuses =>
    intro hMem
    rcases List.mem_append.mp hMem with hMem | hMem
    · exact hCalls _ hMem
    · exact hRefuses.stretch_not_mem hMem

/-- A blocking run ends with its record as `done`. The plugins up to some index completed in their
calls, one timing was added for each of them, and the one behind them stopped the run; no stretch of
a coroutine was run, and recording left the run as it was. -/
theorem blocking_run_record (conduct : Conduct σ) (context : Context) (plugins : List Callable)
    (tree : Slot) (metrics : Metrics) (world : World σ) :
    let ended := Blocking.run conduct context plugins tree metrics world
    ∃ done,
      Blocking.run conduct.recorded context plugins tree metrics (world.recorded []) =
        ended.recorded done ∧
      (∀ plugin, .stretch plugin ∉ done) ∧
      match world.store.attach tree (some context.options) with
      | (.error fault, _) => done = [] ∧ ended = ⟨world, metrics, .error fault⟩
      | (.ok first, store) =>
        ∃ calls last counted before,
          Passed conduct context 0 first metrics (world.withStore store) calls last counted
            before ∧
          counted = ⟨metrics.timings ++ calls.zipIdx.map fun call =>
              ⟨call.1.plugin.displayName, call.2, "sync", .int 0⟩,
            metrics.executed + calls.length⟩ ∧
          ((plugins = calls.map (·.plugin) ∧ done = calls.map .call ∧
              ended = ⟨before, counted, .ok last⟩) ∨
            ∃ plugin later final fault stops,
              plugins = calls.map (·.plugin) ++ plugin :: later ∧
              Refuses conduct context plugin calls.length last before final fault stops ∧
              done = calls.map .call ++ stops ∧ ended = ⟨final, counted, .error fault⟩) := by
  intro ended
  cases hAttach : world.store.attach tree (some context.options) with
  | mk attached store =>
    cases attached with
    | error fault =>
      refine ⟨[], ?_, fun _ => List.not_mem_nil, rfl, ?_⟩
      · simp only [ended, Blocking.run, World.store_recorded, hAttach]
        rfl
      · simp only [ended, Blocking.run, hAttach]
    | ok first =>
      obtain ⟨done, hEnds, hRecorded⟩ := @runFrom_endsInCall _ conduct context plugins 0 first
        metrics (world.withStore store) []
      rw [List.nil_append] at hRecorded
      have hEnded : ended = Blocking.runFrom conduct context plugins 0 first metrics
          (world.withStore store) := by
        simp only [ended, Blocking.run, hAttach]
      rw [← hEnded] at hEnds hRecorded
      refine ⟨done, ?_, hEnds.stretch_not_mem, ?_⟩
      · rw [← hRecorded]
        simp only [Blocking.run, World.store_recorded, hAttach, World.withStore_recorded]
      · generalize ended = chain at hEnds
        cases hEnds with
        | passed hPlugins hPassed =>
          exact ⟨_, _, _, _, hPassed, hPassed.counted_eq, Or.inl ⟨hPlugins, rfl, rfl⟩⟩
        | refused hPlugins hPassed hRefuses =>
          rw [Nat.zero_add] at hRefuses
          exact ⟨_, _, _, _, hPassed, hPassed.counted_eq,
            Or.inr ⟨_, _, _, _, _, hPlugins, hRefuses, rfl, rfl⟩⟩

end Hypertext
