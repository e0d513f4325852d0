import Hypertext.Proofs.Isolation.Local

/-! # Chains of local plugins

A chain that is given counterparts passes the same plugins on both sides, with the same timings, and
comes to counterparts or to the same fault. What differs is the log.
-/

namespace Hypertext

set_option autoImplicit false

variable {σ : Type}

namespace Pairing

variable {β γ : Pairing} {w v : World σ} {conduct : Conduct σ} {context other : Context}

def Contexts (β : Pairing) (context other : Context) : Prop :=
  (context.options, other.options) ∈ β.options

/-! ## One plugin -/

theorem Stores.normalize (h : β.Stores w.store v.store) {candidate otherCandidate previous
    otherPrevious : Slot} (hCandidate : β.Slots candidate otherCandidate)
    (hPrevious : β.Slots previous otherPrevious) (hContext : β.Contexts context other)
    (logger otherLogger : Logger) :
    ∃ γ, β.Moves v γ
        (normalize w candidate previous context.options (some logger)).2
        (normalize v otherCandidate otherPrevious other.options (some otherLogger)).2 ∧
      γ.Slots (normalize w candidate previous context.options (some logger)).1
        (normalize v otherCandidate otherPrevious other.options (some otherLogger)).1 := by
  unfold Hypertext.normalize
  rw [hCandidate.isNone_eq, h.identical_eq hCandidate hPrevious]
  split
  · exact ⟨β, h.moves, hPrevious⟩
  · obtain ⟨γ, hLeads, hOutcome⟩ := h.attach hCandidate hContext
    generalize w.store.attach candidate (some context.options) = here at hLeads hOutcome ⊢
    generalize v.store.attach otherCandidate (some other.options) = there at hLeads hOutcome ⊢
    obtain ⟨outcome, store⟩ := here
    obtain ⟨otherOutcome, otherStore⟩ := there
    cases hOutcome with
    | ok hTree => exact ⟨γ, hLeads.moves, hTree⟩
    | error => exact ⟨β, h.moves.aside rfl rfl rfl rfl, hPrevious⟩

theorem Stores.recordPlugin (h : β.Stores w.store v.store) (metrics : Metrics)
    (logger otherLogger : Logger) (name : String) (index : Nat) (kind : PluginKind) :
    β.Moves v β (recordPlugin w metrics logger name index kind).1
      (recordPlugin v metrics otherLogger name index kind).1 :=
  h.moves.aside rfl rfl rfl rfl

/-! ## Blocking chains -/

structure Ends (β : Pairing) (v : World σ) (γ : Pairing) (chain twin : ChainEnd σ) : Prop where
  moves : β.Moves v γ chain.world twin.world
  metrics_eq : chain.metrics = twin.metrics
  outcome : γ.Outcomes chain.outcome twin.outcome

theorem Moves.ends {u : World σ} {δ : Pairing} {w' v' : World σ} {chain twin : ChainEnd σ}
    (h : β.Moves u γ w' v') (hEnds : γ.Ends v' δ chain twin) : β.Ends u δ chain twin :=
  ⟨h.trans hEnds.moves, hEnds.metrics_eq, hEnds.outcome⟩

theorem Returns.discard {returned twin : Returned σ} (h : β.Returns returned twin)
    (hStores : β.Stores w.store v.store) :
    ∃ γ, β.Moves v γ (returned.discard w) (twin.discard v) := by
  cases h with
  | value | awaitable => exact ⟨β, hStores.moves⟩
  | coroutine _ hRelease | loopFuture _ hRelease | poolFuture _ hRelease =>
    exact hRelease β w v β.le_refl hStores

theorem Stores.runFrom (hLocal : conduct.IsLocal) (plugins : List Callable) :
    ∀ {β : Pairing} {w v : World σ} (index : Nat) {tree twin : Slot} (metrics : Metrics),
      β.Stores w.store v.store → β.Slots tree twin → β.Contexts context other →
      ∃ γ, β.Ends v γ (Blocking.runFrom conduct context plugins index tree metrics w)
        (Blocking.runFrom conduct other plugins index twin metrics v) := by
  induction plugins with
  | nil =>
    intro β w v index tree twin metrics h hTree _
    exact ⟨β, h.moves, rfl, .ok hTree⟩
  | cons plugin rest ih =>
    intro β w v index tree twin metrics h hTree hContext
    rw [Blocking.runFrom, Blocking.runFrom]
    split
    · obtain ⟨γ, hCalls⟩ := hLocal.plugin plugin β tree twin w v h hTree
      generalize conduct.plugin plugin tree w = call at hCalls ⊢
      generalize conduct.plugin plugin twin v = otherCall at hCalls ⊢
      obtain ⟨called, completions, outcome⟩ := call
      obtain ⟨otherCalled, otherCompletions, otherOutcome⟩ := otherCall
      have hMoves : β.Moves v γ called otherCalled := hCalls.moves
      cases (hCalls.outcome : γ.Results outcome otherOutcome) with
      | error fault => exact ⟨γ, hMoves, rfl, .error fault⟩
      | ok hReturns =>
        -- Whatever could be waited for is let go of.
        have hRefused {returned otherReturned : Returned σ}
            (hReturns : γ.Returns returned otherReturned) (logger otherLogger : Logger) :
            ∃ δ, β.Ends v δ
              ⟨(returned.discard called).write logger .warning
                "Plugin returned an awaitable in sync mode" [] none, metrics,
                .error (.modeViolation plugin.displayName)⟩
              ⟨(otherReturned.discard otherCalled).write otherLogger .warning
                "Plugin returned an awaitable in sync mode" [] none, metrics,
                .error (.modeViolation plugin.displayName)⟩ := by
          obtain ⟨δ, hRelease⟩ := hReturns.discard hMoves.stores
          exact ⟨δ, (hMoves.trans hRelease).aside rfl rfl rfl rfl, rfl, .error _⟩
        cases hReturns with
        | value hResult =>
          obtain ⟨δ, hNormal, hNext⟩ := hMoves.stores.normalize hResult (hTree.mono hMoves.le)
            (hMoves.le.2 hContext) (context.pluginLogger plugin.displayName index)
            (other.pluginLogger plugin.displayName index)
          have hRecorded := hNormal.stores.recordPlugin metrics
            (context.pluginLogger plugin.displayName index)
            (other.pluginLogger plugin.displayName index) plugin.displayName index .sync
          have hPassed := (hMoves.trans hNormal).trans hRecorded
          obtain ⟨ε, hEnds⟩ := ih (index + 1)
            (metrics.add ⟨plugin.displayName, index, PluginKind.sync.label, .int 0⟩)
            hPassed.stores hNext (hPassed.le.2 hContext)
          exact ⟨ε, hPassed.ends hEnds⟩
        | coroutine hBody hClose => exact hRefused (.coroutine hBody hClose) _ _
        | awaitable hBody => exact hRefused (.awaitable hBody) _ _
        | loopFuture hState hCancel => exact hRefused (.loopFuture hState hCancel) _ _
        | poolFuture hState hCancel => exact hRefused (.poolFuture hState hCancel) _ _
    · exact ⟨β, h.moves.aside rfl rfl rfl rfl, rfl, .error _⟩

theorem Stores.run (hLocal : conduct.IsLocal) (h : β.Stores w.store v.store) {tree twin : Slot}
    (hTree : β.Slots tree twin) (hContext : β.Contexts context other) (plugins : List Callable)
    (metrics : Metrics) :
    ∃ γ, β.Ends v γ (Blocking.run conduct context plugins tree metrics w)
      (Blocking.run conduct other plugins twin metrics v) := by
  unfold Blocking.run
  obtain ⟨γ, hLeads, hOutcome⟩ := h.attach hTree hContext
  generalize w.store.attach tree (some context.options) = here at hLeads hOutcome ⊢
  generalize v.store.attach twin (some other.options) = there at hLeads hOutcome ⊢
  obtain ⟨outcome, store⟩ := here
  obtain ⟨otherOutcome, otherStore⟩ := there
  cases hOutcome with
  | error fault => exact ⟨β, h.moves, rfl, .error fault⟩
  | ok hTree =>
    have hMoves : β.Moves v γ (w.withStore store) (v.withStore otherStore) := hLeads.moves
    obtain ⟨δ, hEnds⟩ := Stores.runFrom hLocal plugins 0 metrics hMoves.stores hTree
      (hMoves.le.2 hContext)
    exact ⟨δ, hMoves.ends hEnds⟩

end Pairing

end Hypertext
