import Hypertext.Proofs.Isolation.Chains

/-! # Documents under local conduct

Making options, loading a tree, passing plugins and rendering lead from counterparts to
counterparts, with the same faults, the same timings and the same markup. What differs are ids and
logs.
-/

namespace Hypertext

set_option autoImplicit false

variable {σ : Type}

namespace Brief

theorem eq_of_namedOverrides {entries : List (Value × Value)} {named : List (String × Value)}
    (h : namedOverrides entries = .ok named) :
    entries = named.map fun entry => (.str entry.1, entry.2) := by
  induction entries generalizing named with
  | nil =>
    cases h
    rfl
  | cons entry rest ih =>
    unfold namedOverrides at h
    split at h
    · rename_i hEmpty
      cases hEmpty
    · rename_i name value others hEntries
      obtain ⟨rfl, rfl⟩ := List.cons.inj hEntries
      obtain ⟨left, hRest, hLeft⟩ := Outcome.bind_eq_ok.mp h
      cases hLeft
      rw [List.map_cons, ← ih hRest]
    · cases h

theorem isBare_named {brief : Brief} {store : Store} {named : List (String × Value)}
    (h : namedOverrides (brief.viewedOverrides store) = .ok named) :
    ∀ change ∈ named, change.2.IsBare := by
  intro change hChange
  have hEntry : (Value.str change.1, change.2) ∈ brief.viewedOverrides store := by
    rw [eq_of_namedOverrides h]
    exact List.mem_map_of_mem hChange
  obtain ⟨given, -, hGiven⟩ := List.mem_map.mp hEntry
  rw [← congrArg Prod.snd hGiven]
  exact store.isBare_view _

end Brief

namespace Pairing

variable {β γ : Pairing} {w v : World σ} {conduct : Conduct σ} {context other : Context}

/-! ## Making options -/

/-- What a run is to begin with is the caller's, and no object but the source is a tree. -/
structure Covers (β : Pairing) (brief : Brief) : Prop where
  source : ∃ a, brief.source = .atom a
  base : ∀ handle, brief.base = .inl handle → (handle, handle) ∈ β.options
  overrides : ∀ entry ∈ brief.overrides, β.Slots entry.2 entry.2

variable {brief : Brief}

theorem Covers.slots_source (h : β.Covers brief) (γ : Pairing) :
    γ.Slots brief.source brief.source := by
  obtain ⟨a, hSource⟩ := h.source
  rw [hSource]
  exact .atom a

theorem Stores.viewedOverrides_eq {s t : Store} (h : β.Stores s t) (hBrief : β.Covers brief) :
    brief.viewedOverrides s = brief.viewedOverrides t := by
  apply List.map_congr_left
  intro entry hEntry
  rw [h.view_eq (hBrief.overrides entry hEntry)]

theorem at?_mem {entries : List (Value × Slot)} {key : String} {slot : Slot}
    (h : Entries.at? entries key = some slot) : ∃ entry ∈ entries, entry.2 = slot := by
  obtain ⟨entry, hFind, hSlot⟩ := Option.map_eq_some_iff.mp h
  exact ⟨entry, List.mem_of_find?_eq_some hFind, hSlot⟩

theorem Stores.isBlocking_eq {s t : Store} (h : β.Stores s t) (hBrief : β.Covers brief) :
    brief.isBlocking s = brief.isBlocking t := by
  unfold Brief.isBlocking
  split
  · rename_i value hValue
    obtain ⟨entry, hEntry, rfl⟩ := at?_mem hValue
    exact h.truthy_eq (hBrief.overrides entry hEntry)
  · rename_i base _ hBase
    rw [h.getOptions_eq (hBrief.base base hBase)]
  · rfl

/-- The caller's objects are counterparts by one pairing. Those of the run are new, and are by
another. -/
theorem Stores.briefContext {caller : Pairing} (hCaller : caller.Stores w.store v.store)
    (hBrief : caller.Covers brief) (h : β.Stores w.store v.store) :
    (∃ fault, brief.context conduct w = .error fault ∧ brief.context conduct v = .error fault) ∨
      ∃ (γ : Pairing) (context other : Context) (w' v' : World σ),
        brief.context conduct w = .ok (context, w') ∧ brief.context conduct v = .ok (other, v') ∧
        β.Moves v γ w' v' ∧ γ.Contexts context other := by
  unfold Brief.context
  cases hBase : brief.base with
  | inr value => exact Or.inl ⟨_, rfl, rfl⟩
  | inl base =>
    simp only [hCaller.viewedOverrides_eq hBrief, hCaller.getOptions_eq (hBrief.base base hBase)]
    cases hNamed : Brief.namedOverrides (brief.viewedOverrides v.store) with
    | error fault => exact Or.inl ⟨fault, rfl, rfl⟩
    | ok overrides =>
      simp only [bind, Except.bind]
      cases hOptions : (v.store.getOptions base).override overrides with
      | error fault => exact Or.inl ⟨fault, rfl, rfl⟩
      | ok options =>
        have hBare : options.IsBare :=
          Options.isBare_override (v.store.isBare_getOptions base) (Brief.isBare_named hNamed)
            hOptions
        obtain ⟨γ, hLeads, hPair⟩ := h.newOptions hBare
        exact Or.inr ⟨γ, _, _, _, _, rfl, rfl, hLeads.moves, hPair⟩

/-! ## Loading and rendering -/

open Processing

theorem Stores.parseSource (h : β.Stores w.store v.store) (files : FileSystem) {source twin : Slot}
    (hSource : β.Slots source twin) {o p : OptionsRef} (hPair : (o, p) ∈ β.options)
    (id otherId : Value) :
    ∃ γ, β.Yields v γ (Processing.parseSource files source o id w)
      (Processing.parseSource files twin p otherId v) := by
  unfold Processing.parseSource
  rw [h.view_eq hSource, h.getOptions_eq hPair]
  split
  · exact ⟨β, h.moves, .error _⟩
  · rename_i text _
    obtain ⟨γ, hLeads, hItems⟩ :=
      h.newItems _ (Item.areBare_toValues (parse (v.store.getOptions p).reading text).forest)
    obtain ⟨δ, hNext, hTree⟩ :=
      hLeads.stores.alloc (.seq (.tree (.some (hLeads.le.2 hPair))) hItems)
    have hMoves := (hLeads.trans hNext).moves (w := w)
    exact ⟨δ, hMoves.aside rfl rfl rfl rfl, .ok hTree⟩

theorem Stores.renderTree (h : β.Stores w.store v.store) (depth : Nat) {tree twin : Slot}
    (hTree : β.Slots tree twin) {o p : OptionsRef} (hPair : (o, p) ∈ β.options) (id otherId : Value) :
    β.Yields v β (Processing.renderTree depth tree o id w)
      (Processing.renderTree depth twin p otherId v) := by
  have hMarkup : (w.store.markup · depth tree) = (v.store.markup · depth twin) :=
    funext fun style => h.markup_eq style depth hTree
  unfold Processing.renderTree
  rw [hMarkup, h.getOptions_eq hPair]
  split
  · exact ⟨h.moves, .error _⟩
  · exact ⟨h.moves.aside rfl rfl rfl rfl, .ok (.atom _)⟩

section

variable (hLocal : conduct.IsLocal)

include hLocal

theorem Stores.callCollaborator (h : β.Stores w.store v.store) (collaborator : Value)
    {subject twin : Slot} (hSubject : β.Slots subject twin) {o p : OptionsRef}
    (hPair : (o, p) ∈ β.options) :
    ∃ γ, β.Yields v γ (Processing.callCollaborator conduct collaborator subject o w)
      (Processing.callCollaborator conduct collaborator twin p v) := by
  unfold Processing.callCollaborator
  split
  · exact hLocal.collaborator _ β subject twin o p w v h hSubject hPair
  · exact ⟨β, h.moves, .error _⟩

theorem Stores.readSource (h : β.Stores w.store v.store) (hContext : β.Contexts context other)
    {source twin : Slot} (hSource : β.Slots source twin) :
    ∃ γ, β.Yields v γ (Processing.readSource conduct context source w)
      (Processing.readSource conduct other twin v) := by
  unfold Processing.readSource
  rw [h.getOptions_eq hContext]
  dsimp only
  split
  · exact ⟨β, h.moves, .ok hSource⟩
  · split
    · exact h.parseSource conduct.files hSource hContext _ _
    · exact h.callCollaborator hLocal _ hSource hContext

theorem Stores.loadTree (h : β.Stores w.store v.store) (hContext : β.Contexts context other)
    {source twin : Slot} (hSource : β.Slots source twin) :
    ∃ γ, β.Yields v γ (Processing.loadTree conduct context source w)
      (Processing.loadTree conduct other twin v) := by
  unfold Processing.loadTree
  obtain ⟨γ, hMoves, hOutcome⟩ := h.readSource hLocal hContext hSource
  generalize Processing.readSource conduct context source w = here at hMoves hOutcome ⊢
  generalize Processing.readSource conduct other twin v = there at hMoves hOutcome ⊢
  obtain ⟨outcome, w'⟩ := here
  obtain ⟨otherOutcome, v'⟩ := there
  cases hOutcome with
  | error fault => exact ⟨γ, hMoves, .error fault⟩
  | ok hTree =>
    obtain ⟨δ, hLeads, hAttached⟩ := hMoves.stores.attach hTree (hMoves.le.2 hContext)
    exact ⟨δ, hMoves.trans hLeads.moves, hAttached⟩

theorem Stores.writeTree (h : β.Stores w.store v.store) (context other : Context) {tree twin : Slot}
    (hTree : β.Slots tree twin) :
    ∃ γ, β.Yields v γ (Processing.writeTree conduct context tree w)
      (Processing.writeTree conduct other twin v) := by
  have hHandles := h.optionsOf hTree
  unfold Processing.writeTree
  generalize w.store.optionsOf tree = handle at hHandles ⊢
  generalize v.store.optionsOf twin = otherHandle at hHandles ⊢
  cases hHandles with
  | none => exact ⟨β, h.moves, .error _⟩
  | some hHandle =>
    dsimp only
    rw [h.getOptions_eq hHandle]
    split
    · exact ⟨β, h.moves, .ok (.atom .none)⟩
    · split
      · exact ⟨β, h.renderTree conduct.depth hTree hHandle _ _⟩
      · exact h.callCollaborator hLocal _ hTree hHandle

end

/-! ## Results -/

inductive Finals (β : Pairing) : Outcome ProcessResult → Outcome ProcessResult → Prop where
  | ok {tree twin html other : Slot} {metrics : Metrics} (hTree : β.Slots tree twin)
    (hHtml : β.Slots html other) : Finals β (.ok ⟨tree, html, metrics⟩) (.ok ⟨twin, other, metrics⟩)
  | error (fault : Fault) : Finals β (.error fault) (.error fault)

theorem Finals.mono {outcome twin : Outcome ProcessResult} (h : β.Finals outcome twin)
    (hLe : β ≤ γ) : γ.Finals outcome twin := by
  cases h with
  | ok hTree hHtml => exact .ok (hTree.mono hLe) (hHtml.mono hLe)
  | error fault => exact .error fault

theorem Finals.leaving {outcome twin : Outcome ProcessResult} (h : β.Finals outcome twin) :
    β.Finals (outcome.mapError Fault.leaving) (twin.mapError Fault.leaving) := by
  cases h with
  | ok hTree hHtml => exact .ok hTree hHtml
  | error fault => exact .error fault.leaving

theorem Moves.fail {u : World σ} (h : β.Moves u γ w v) (id otherId : Value) (fault : Fault) :
    β.Moves u γ (Processing.fail w id fault) (Processing.fail v otherId fault) := by
  unfold Processing.fail
  split
  · exact h.aside rfl rfl rfl rfl
  · exact h

structure Concludes (β : Pairing) (v : World σ) (γ : Pairing)
    (here there : World σ × Outcome ProcessResult) : Prop where
  moves : β.Moves v γ here.1 there.1
  final : γ.Finals here.2 there.2

theorem Moves.concludes {u : World σ} {δ : Pairing} {here there : World σ × Outcome ProcessResult}
    (h : β.Moves u γ w v) (hConcludes : γ.Concludes v δ here there) : β.Concludes u δ here there :=
  ⟨h.trans hConcludes.moves, hConcludes.final⟩

section

variable (hLocal : conduct.IsLocal)

include hLocal

theorem Stores.conclude (context other : Context) (chain twin : ChainEnd σ)
    (h : β.Stores chain.world.store twin.world.store) (hMetrics : chain.metrics = twin.metrics)
    (hOutcome : β.Outcomes chain.outcome twin.outcome) :
    ∃ γ, β.Concludes twin.world γ (Processing.conclude conduct context chain)
      (Processing.conclude conduct other twin) := by
  obtain ⟨w, metrics, outcome⟩ := chain
  obtain ⟨v, otherMetrics, otherOutcome⟩ := twin
  obtain rfl : metrics = otherMetrics := hMetrics
  unfold Processing.conclude
  cases (hOutcome : β.Outcomes outcome otherOutcome) with
  | error fault => exact ⟨β, h.moves.fail _ _ fault, .error fault⟩
  | ok hTree =>
    obtain ⟨γ, hMoves, hRendered⟩ := Stores.writeTree hLocal h context other hTree
    dsimp only
    unfold Processing.finish
    generalize Processing.writeTree conduct context _ w = here at hMoves hRendered ⊢
    generalize Processing.writeTree conduct other _ v = there at hMoves hRendered ⊢
    obtain ⟨rendered, w'⟩ := here
    obtain ⟨otherRendered, v'⟩ := there
    cases hRendered with
    | error fault => exact ⟨γ, hMoves.fail _ _ fault, .error fault⟩
    | ok hHtml => exact ⟨γ, hMoves.aside rfl rfl rfl rfl, .ok (hTree.mono hMoves.le) hHtml⟩

theorem Stores.concludeLater (context other : Context) (chain twin : ChainEnd σ)
    (h : β.Stores chain.world.store twin.world.store) (hMetrics : chain.metrics = twin.metrics)
    (hOutcome : β.Outcomes chain.outcome twin.outcome) :
    ∃ γ, β.Concludes twin.world γ (Processing.concludeLater conduct context chain)
      (Processing.concludeLater conduct other twin) := by
  obtain ⟨γ, hMoves, hFinal⟩ :=
    Stores.conclude hLocal context other chain twin h hMetrics hOutcome
  exact ⟨γ, hMoves, hFinal.leaving⟩

/-! ## Runs -/

variable {caller : Pairing} (hCaller : caller.Stores w.store v.store) (hBrief : caller.Covers brief)
  (h : β.Stores w.store v.store)

include hCaller hBrief h

theorem Stores.begin (mode : String) :
    (∃ fault, brief.context conduct w = .error fault ∧ brief.context conduct v = .error fault) ∨
      ∃ (γ : Pairing) (context other : Context) (w' v' : World σ),
        brief.context conduct w = .ok (context, w') ∧ brief.context conduct v = .ok (other, v') ∧
        γ.Contexts context other ∧
        β.Yields v γ
          (Processing.loadTree conduct context brief.source
            (Processing.logStart w' context brief.plugins mode))
          (Processing.loadTree conduct other brief.source
            (Processing.logStart v' other brief.plugins mode)) := by
  rcases hCaller.briefContext hBrief h with
    hRefused | ⟨γ, context, other, w', v', hHere, hThere, hMoves, hContext⟩
  · exact Or.inl hRefused
  · have hStart : β.Moves v γ (Processing.logStart w' context brief.plugins mode)
        (Processing.logStart v' other brief.plugins mode) := hMoves.aside rfl rfl rfl rfl
    obtain ⟨δ, hLoad, hLoaded⟩ := hStart.stores.loadTree hLocal hContext (hBrief.slots_source γ)
    exact Or.inr ⟨δ, context, other, w', v', hHere, hThere, hLoad.le.2 hContext,
      hStart.trans hLoad, hLoaded⟩

theorem Stores.blocking :
    ∃ γ, β.Concludes v γ (Processing.blocking conduct brief w)
      (Processing.blocking conduct brief v) := by
  unfold Processing.blocking
  rcases Stores.begin hLocal hCaller hBrief h "sync" with
    ⟨fault, hHere, hThere⟩ | ⟨γ, context, other, w', v', hHere, hThere, hContext, hBegun, hLoaded⟩
  · rw [hHere, hThere]
    exact ⟨β, h.moves, .error fault⟩
  · rw [hHere, hThere]
    dsimp only
    generalize Processing.loadTree conduct context brief.source _ = here at hBegun hLoaded ⊢
    generalize Processing.loadTree conduct other brief.source _ = there at hBegun hLoaded ⊢
    obtain ⟨loaded, w''⟩ := here
    obtain ⟨otherLoaded, v''⟩ := there
    cases hLoaded with
    | error fault => exact ⟨γ, hBegun.fail _ _ fault, .error fault⟩
    | ok hTree =>
      obtain ⟨δ, hEnds⟩ := hBegun.stores.run hLocal hTree hContext brief.plugins .empty
      have hPassed := hBegun.trans hEnds.moves
      obtain ⟨ε, hConcludes⟩ := Stores.conclude hLocal context other _ _ hEnds.moves.stores
        hEnds.metrics_eq hEnds.outcome
      exact ⟨ε, hPassed.concludes hConcludes⟩

inductive Launches (conduct : Conduct σ) (β : Pairing) :
    Outcome ProcessResult ⊕ Launch σ (Outcome ProcessResult) →
      Outcome ProcessResult ⊕ Launch σ (Outcome ProcessResult) → Prop where
  | refused (fault : Fault) : Launches conduct β (.inl (.error fault)) (.inl (.error fault))
  | ready {context other : Context} {tree twin : Slot} (hContext : β.Contexts context other)
    (hTree : β.Slots tree twin) :
    Launches conduct β (.inr ⟨context, tree, .empty, Processing.concludeLater conduct context⟩)
      (.inr ⟨other, twin, .empty, Processing.concludeLater conduct other⟩)

theorem Stores.prepare :
    ∃ γ, β.Moves v γ ((routine conduct brief).prepare w).1 ((routine conduct brief).prepare v).1 ∧
      γ.Launches conduct ((routine conduct brief).prepare w).2
        ((routine conduct brief).prepare v).2 := by
  unfold routine
  dsimp only
  rcases Stores.begin hLocal hCaller hBrief h "async" with
    ⟨fault, hHere, hThere⟩ | ⟨γ, context, other, w', v', hHere, hThere, hContext, hBegun, hLoaded⟩
  · rw [hHere, hThere]
    exact ⟨β, h.moves.fail _ _ fault, .refused fault.leaving⟩
  · rw [hHere, hThere]
    dsimp only
    generalize Processing.loadTree conduct context brief.source _ = here at hBegun hLoaded ⊢
    generalize Processing.loadTree conduct other brief.source _ = there at hBegun hLoaded ⊢
    obtain ⟨loaded, w''⟩ := here
    obtain ⟨otherLoaded, v''⟩ := there
    cases hLoaded with
    | error fault => exact ⟨γ, hBegun.fail _ _ fault, .refused fault.leaving⟩
    | ok hTree => exact ⟨γ, hBegun, .ready hContext hTree⟩

end

end Pairing

end Hypertext
