import Hypertext.Pipeline.Processing
import Hypertext.Proofs.Isolation.Making

/-! # Local conduct

A plugin is local if all that it does depends only on the tree it is given and on what can be come to
from there. Given counterparts it does the same on both sides, and its results, completions and
coroutines are counterparts again. It may change what it was given in any way; other objects, and the
pipeline, are not in its reach. What a coroutine does later depends on the objects of that time, so
its stretches are taken to be run with any later pairing.
-/

namespace Hypertext

set_option autoImplicit false

variable {σ : Type}

namespace Pairing

/-- Two worlds come to be counterparts by a larger pairing. The pipeline of the second keeps its
plugins and its defaults. -/
structure Moves (β : Pairing) (v : World σ) (γ : Pairing) (w' v' : World σ) : Prop where
  leads : β.Leads v.store γ w'.store v'.store
  roster_eq : v'.pipeline.roster = v.pipeline.roster
  defaults_eq : v'.pipeline.defaults = v.pipeline.defaults

structure Completions (β : Pairing) (completion twin : Completion) : Prop where
  failure : β.Slots completion.failure twin.failure
  result : β.Slots completion.result twin.result

inductive Endings (β : Pairing) : Option (Outcome Slot) → Option (Outcome Slot) → Prop where
  | none : Endings β none none
  | some {outcome twin : Outcome Slot} (h : β.Outcomes outcome twin) :
    Endings β (some outcome) (some twin)

def Stretches (β : Pairing) (stretch twin : Stretch σ) : Prop :=
  ∀ (γ : Pairing) (w v : World σ), β ≤ γ → γ.Stores w.store v.store →
    ∃ δ, γ.Moves v δ (stretch w).1 (twin v).1 ∧
      List.Forall₂ δ.Completions (stretch w).2.1 (twin v).2.1 ∧
      δ.Endings (stretch w).2.2 (twin v).2.2

abbrev Bodies (β : Pairing) (body twin : Body σ) : Prop := List.Forall₂ β.Stretches body twin

def Releases (β : Pairing) (release twin : World σ → World σ) : Prop :=
  ∀ (γ : Pairing) (w v : World σ), β ≤ γ → γ.Stores w.store v.store →
    ∃ δ, γ.Moves v δ (release w) (twin v)

inductive Futures (β : Pairing) : FutureState → FutureState → Prop where
  | settled {outcome twin : Outcome Slot} (h : β.Outcomes outcome twin) :
    Futures β (.settled outcome) (.settled twin)
  | pending : Futures β .pending .pending

inductive Returns (β : Pairing) : Returned σ → Returned σ → Prop where
  | value {slot twin : Slot} (h : β.Slots slot twin) : Returns β (.value slot) (.value twin)
  | coroutine {body twin : Body σ} {close other : World σ → World σ} (h : β.Bodies body twin)
    (hClose : β.Releases close other) : Returns β (.coroutine body close) (.coroutine twin other)
  | awaitable {body twin : Body σ} (h : β.Bodies body twin) :
    Returns β (.awaitable body) (.awaitable twin)
  | loopFuture {state twin : FutureState} {cancel other : World σ → World σ}
    (h : β.Futures state twin) (hCancel : β.Releases cancel other) :
    Returns β (.loopFuture state cancel) (.loopFuture twin other)
  | poolFuture {state twin : FutureState} {cancel other : World σ → World σ}
    (h : β.Futures state twin) (hCancel : β.Releases cancel other) :
    Returns β (.poolFuture state cancel) (.poolFuture twin other)

inductive Results (β : Pairing) : Outcome (Returned σ) → Outcome (Returned σ) → Prop where
  | ok {returned twin : Returned σ} (h : β.Returns returned twin) :
    Results β (.ok returned) (.ok twin)
  | error (fault : Fault) : Results β (.error fault) (.error fault)

structure Yields (β : Pairing) (v : World σ) (γ : Pairing) (here there : Outcome Slot × World σ) :
    Prop where
  moves : β.Moves v γ here.2 there.2
  outcome : γ.Outcomes here.1 there.1

structure Calls (β : Pairing) (v : World σ) (γ : Pairing) (call twin : PluginCall σ) : Prop where
  moves : β.Moves v γ call.world twin.world
  completions : List.Forall₂ γ.Completions call.completions twin.completions
  outcome : γ.Results call.outcome twin.outcome

end Pairing

/-- Plugins and collaborators depend only on what they are given. -/
structure Conduct.IsLocal (conduct : Conduct σ) : Prop where
  plugin : ∀ (plugin : Callable) (β : Pairing) (tree twin : Slot) (w v : World σ),
    β.Stores w.store v.store → β.Slots tree twin →
      ∃ γ, β.Calls v γ (conduct.plugin plugin tree w) (conduct.plugin plugin twin v)
  collaborator : ∀ (collaborator : Callable) (β : Pairing) (subject twin : Slot)
    (handle other : OptionsRef) (w v : World σ),
    β.Stores w.store v.store → β.Slots subject twin → (handle, other) ∈ β.options →
      ∃ γ, β.Yields v γ (conduct.collaborator collaborator subject handle w)
        (conduct.collaborator collaborator twin other v)

namespace Pairing

variable {β γ δ : Pairing} {w w' w'' v v' v'' : World σ}

theorem Stores.moves (h : β.Stores w.store v.store) : β.Moves v β w v := ⟨h.leads, rfl, rfl⟩

namespace Moves

theorem stores (h : β.Moves v γ w' v') : γ.Stores w'.store v'.store := h.leads.stores

theorem le (h : β.Moves v γ w' v') : β ≤ γ := h.leads.le

theorem trans (h : β.Moves v γ w' v') (h' : γ.Moves v' δ w'' v'') : β.Moves v δ w'' v'' where
  leads := h.leads.trans h'.leads
  roster_eq := h'.roster_eq.trans h.roster_eq
  defaults_eq := h'.defaults_eq.trans h.defaults_eq

/-- The log and the counts of the pipeline may be anything. -/
theorem aside (h : β.Moves v γ w' v') (hHere : w''.store = w'.store) (hThere : v''.store = v'.store)
    (hRoster : v''.pipeline.roster = v'.pipeline.roster)
    (hDefaults : v''.pipeline.defaults = v'.pipeline.defaults) : β.Moves v γ w'' v'' where
  leads := by
    rw [hHere, hThere]
    exact h.leads
  roster_eq := hRoster.trans h.roster_eq
  defaults_eq := hDefaults.trans h.defaults_eq

end Moves

theorem Leads.moves {s' t' : Store} (h : β.Leads v.store γ s' t') :
    β.Moves v γ (w.withStore s') (v.withStore t') := ⟨h, rfl, rfl⟩

/-! ## Later pairings -/

theorem Completions.mono {completion twin : Completion} (h : β.Completions completion twin)
    (hLe : β ≤ γ) : γ.Completions completion twin :=
  ⟨h.failure.mono hLe, h.result.mono hLe⟩

theorem Endings.mono {ending twin : Option (Outcome Slot)} (h : β.Endings ending twin)
    (hLe : β ≤ γ) : γ.Endings ending twin := by
  cases h with
  | none => exact .none
  | some h => exact .some (h.mono hLe)

theorem Endings.isSome_eq {ending twin : Option (Outcome Slot)} (h : β.Endings ending twin) :
    ending.isSome = twin.isSome := by
  cases h <;> rfl

theorem Stretches.mono {stretch twin : Stretch σ} (h : β.Stretches stretch twin) (hLe : β ≤ γ) :
    γ.Stretches stretch twin :=
  fun δ w v hLe' hStores => h δ w v (le_trans hLe hLe') hStores

theorem bodies_mono {body twin : Body σ} (h : β.Bodies body twin) (hLe : β ≤ γ) :
    γ.Bodies body twin :=
  h.imp fun _ _ h => h.mono hLe

/-! ## Completions and coroutines -/

theorem Stores.completionOutcome (h : β.Stores w.store v.store) {completion twin : Completion}
    (hCompletion : β.Completions completion twin) (plugin : String) :
    β.Endings (completion.outcome? w.store plugin) (twin.outcome? v.store plugin) := by
  obtain ⟨failure, result⟩ := completion
  obtain ⟨otherFailure, otherResult⟩ := twin
  simp only [Completion.outcome?, h.truthy_eq hCompletion.failure]
  split
  · have hFailure : β.Slots failure otherFailure := hCompletion.failure
    have hView := h.view_eq hFailure
    cases hFailure with
    | atom a =>
      cases a with
      | failure failure =>
        dsimp only
        split
        · exact .none
        · exact .some (.error _)
      | _ =>
        simp only [hView]
        exact .some (.error _)
    | ref =>
      simp only [hView]
      exact .some (.error _)
  · exact .some (.ok hCompletion.result)

section

variable {outcome twin : Outcome Slot} (h : β.Outcomes outcome twin)

include h

theorem Outcomes.leaving :
    β.Outcomes (outcome.mapError Fault.leaving) (twin.mapError Fault.leaving) := by
  cases h with
  | ok hSlot => exact .ok hSlot
  | error fault => exact .error fault.leaving

theorem Outcomes.awaited : β.Outcomes outcome.awaited twin.awaited := by
  cases h with
  | ok hSlot => exact .ok hSlot
  | error fault =>
    rcases Outcome.awaited_cases (.error fault) with hSame | ⟨failure, -, -, hStop⟩
    · rw [hSame]
      exact .error fault
    · rw [hStop]
      exact .ok (.atom _)

theorem Outcomes.transferred : β.Endings outcome.transferred? twin.transferred? := by
  cases h with
  | ok hSlot => exact .some (.ok hSlot)
  | error fault =>
    cases fault with
    | raised failure =>
      rw [Outcome.transferred?]
      cases failure.transferred? with
      | none => exact .none
      | some taken => exact .some (.error _)
    | _ => exact .some (.error _)

end

inductive Lefts (β : Pairing) : Outcome Slot ⊕ Body σ → Outcome Slot ⊕ Body σ → Prop where
  | ended {outcome twin : Outcome Slot} (h : β.Outcomes outcome twin) :
    Lefts β (.inl outcome) (.inl twin)
  | suspended {rest twin : Body σ} (h : β.Bodies rest twin) : Lefts β (.inr rest) (.inr twin)

theorem Stores.stepBody (h : β.Stores w.store v.store) {body twin : Body σ}
    (hBody : β.Bodies body twin) :
    ∃ γ, β.Moves v γ (Chain.stepBody w body).1 (Chain.stepBody v twin).1 ∧
      γ.Lefts (Chain.stepBody w body).2 (Chain.stepBody v twin).2 := by
  cases hBody with
  | nil => exact ⟨β, h.moves, .ended (.ok (.atom .none))⟩
  | @cons stretch other rest twins hStretch hRest =>
    obtain ⟨γ, hMoves, -, hEnding⟩ := hStretch β w v β.le_refl h
    refine ⟨γ, ?_⟩
    rw [Chain.stepBody, Chain.stepBody]
    generalize stretch w = step at hMoves hEnding ⊢
    generalize other v = otherStep at hMoves hEnding ⊢
    obtain ⟨next, completions, ending⟩ := step
    obtain ⟨otherNext, otherCompletions, otherEnding⟩ := otherStep
    cases hEnding with
    | none => exact ⟨hMoves, .suspended (bodies_mono hRest hMoves.le)⟩
    | some hOutcome => exact ⟨hMoves, .ended hOutcome⟩

end Pairing

end Hypertext
