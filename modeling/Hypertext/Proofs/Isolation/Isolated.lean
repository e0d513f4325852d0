import Hypertext.Proofs.Isolation.Interleaving

/-! # Runs are isolated

However runs are interleaved, each comes to what it would come to alone, and the pipeline and the
objects of its caller are as they were.
-/

namespace Hypertext

set_option autoImplicit false

variable {σ : Type} {conduct : Conduct σ}

/-- The pipeline and the objects of its caller are as they were, and look as they did. -/
structure World.Spares (before after : World σ) : Prop where
  get?_eq : ∀ r : Ref, (Slot.ref r).IsIn before.store → after.store.get? r = before.store.get? r
  slots?_eq : ∀ handle : OptionsRef, handle.IsIn before.store →
    after.store.slots? handle = before.store.slots? handle
  view_eq : ∀ slot : Slot, slot.IsIn before.store → after.store.view slot = before.store.view slot
  getOptions_eq : ∀ handle : OptionsRef, handle.IsIn before.store →
    after.store.getOptions handle = before.store.getOptions handle
  roster_eq : after.pipeline.roster = before.pipeline.roster
  defaults_eq : after.pipeline.defaults = before.pipeline.defaults

/-- A run has come as far as the only run of another loop. Where there is nothing left to do for it
on the shared loop, there is nothing left to do on the other. -/
structure Loop.Agrees (loop : Loop σ (Outcome ProcessResult)) (run : Nat)
    (alone : Loop σ (Outcome ProcessResult)) : Prop where
  progress_eq : loop.progress? run = alone.progress? 0
  settled : loop.shared.queue = [] → alone.shared.queue = []

/-! ## What is seen of counterparts -/

namespace Pairing

variable {β : Pairing} {s t : Store}

theorem Stores.report_eq (h : β.Stores s t) {outcome twin : Outcome ProcessResult}
    (hFinals : β.Finals outcome twin) :
    (outcome.map fun result => result.report s) = twin.map fun result => result.report t := by
  cases hFinals with
  | error fault => rfl
  | @ok tree otherTree html otherHtml metrics hTree hHtml =>
    have hOptions :
        (s.optionsOf tree).map s.getOptions = (t.optionsOf otherTree).map t.getOptions := by
      have hHandles := h.optionsOf hTree
      generalize s.optionsOf tree = handle at hHandles ⊢
      generalize t.optionsOf otherTree = otherHandle at hHandles ⊢
      cases hHandles with
      | none => rfl
      | some hPair => exact congrArg some (h.getOptions_eq hPair)
    simp only [Except.map, ProcessResult.report, h.view_eq hTree, h.view_eq hHtml, hOptions]

theorem Stores.progress_eq (h : β.Stores s t) {here there : RunState σ (Outcome ProcessResult)}
    (hStates : β.States conduct here there) : here.progress s = there.progress t := by
  cases hStates with
  | active => rfl
  | ended hFinals => exact congrArg Progress.ended (h.report_eq hFinals)

variable {store : Store}

theorem Slots.eq_of_diagonal {slot twin : Slot} (h : (diagonal store).Slots slot twin) :
    slot = twin := by
  cases h with
  | atom a => rfl
  | ref hPair => rw [(mem_cells_diagonal.mp hPair).1]

theorem Handles.eq_of_diagonal {handle twin : Option OptionsRef}
    (h : (diagonal store).Handles handle twin) : handle = twin := by
  cases h with
  | none => rfl
  | some hPair => rw [(mem_options_diagonal.mp hPair).1]

theorem Cells.eq_of_diagonal {cell twin : Cell} (h : (diagonal store).Cells cell twin) :
    cell = twin := by
  cases h with
  | @seq kind twin items twins hKind hItems =>
    have hSame : items = twins := by
      rw [← List.forall₂_eq_eq_eq]
      exact hItems.imp fun _ _ hSlot => hSlot.eq_of_diagonal
    cases hKind with
    | list | tuple => rw [hSame]
    | tree hHandle => rw [hSame, hHandle.eq_of_diagonal]
  | @map kind twin entries twins hKind hEntries =>
    have hSame : entries = twins := by
      rw [← List.forall₂_eq_eq_eq]
      exact hEntries.imp fun _ _ hEntry => Prod.ext hEntry.key hEntry.value.eq_of_diagonal
    cases hKind with
    | dict | node => rw [hSame]
    | root hHandle => rw [hSame, hHandle.eq_of_diagonal]

end Pairing

theorem Link.Tracks.agrees {κ : Link} {run : Nat} {fresh : World σ} {caller : Pairing}
    {request : Request Slot} {acts : List (Outsider σ)} {loop : Loop σ (Outcome ProcessResult)}
    (h : κ.Tracks conduct fresh caller request acts run loop) :
    ∃ own, Occasion.Single request acts own ∧
      loop.Agrees run ((Loop.ofWorld fresh).serve conduct own) := by
  cases h with
  | @waiting brief _ own hOwn hAlone _ hRun =>
    refine ⟨own, hOwn, ?_, ?_⟩
    · rw [hAlone, Loop.progress?, hRun]
      rfl
    · intro _
      rw [hAlone]
  | @begun own hOwn hFollows =>
    obtain ⟨here, there, hHere, hThere, hStates⟩ := hFollows.state
    refine ⟨own, hOwn, ?_, ?_⟩
    · rw [Loop.progress?, hThere, Loop.progress?, hHere]
      exact congrArg some (hFollows.mirrors.stores.progress_eq hStates).symm
    · intro hEmpty
      have hQueue := hFollows.mirrors.queue
      rw [hEmpty] at hQueue
      generalize ((Loop.ofWorld fresh).serve conduct own).shared.queue = jobs at hQueue ⊢
      cases hQueue
      rfl

theorem Isolates.spares {before fresh : World σ} {underWay : Option Nat} {past : List (Occasion σ)}
    {links : Nat → Link} {loop : Loop σ (Outcome ProcessResult)}
    (h : Isolates conduct before fresh underWay past links loop) :
    before.Spares loop.shared.world where
  get?_eq := by
    intro r hr
    obtain ⟨cell, twin, hHere, hThere, hCells⟩ :=
      h.caller.cells (Pairing.mem_cells_diagonal.mpr ⟨rfl, hr⟩)
    rw [hHere, hThere, hCells.eq_of_diagonal]
  slots?_eq := by
    intro handle hHandle
    obtain ⟨slots, twins, hHere, hThere, hSlots⟩ :=
      h.caller.options (Pairing.mem_options_diagonal.mpr ⟨rfl, hHandle⟩)
    rw [hHere, hThere, funext fun setting => (hSlots setting).eq_of_diagonal]
  view_eq := fun slot hSlot => (h.caller.view_eq (Pairing.slots_diagonal hSlot)).symm
  getOptions_eq := fun handle hHandle =>
    (h.caller.getOptions_eq (Pairing.mem_options_diagonal.mpr ⟨rfl, hHandle⟩)).symm
  roster_eq := h.roster_eq
  defaults_eq := h.defaults_eq

/-! ## Plugins that change what they are given -/

namespace Store

def push (store : Store) (slot : Slot) (a : Atom) : Store :=
  match slot with
  | .atom _ => store
  | .ref r =>
    match store.get? r with
    | some (.seq kind items) => store.put r (.seq kind (items ++ [.atom a]))
    | _ => store

/-- Appends to a tree and to the single tags of its options, and puts the single tags in the place of
another setting. -/
def meddle (store : Store) (tree : Slot) : Store :=
  let store := store.push tree (.str "meddled")
  match store.optionsOf tree with
  | none => store
  | some handle =>
    let tags := store.settingAt handle .singleTags
    (store.push tags (.str "meddled")).assignSetting handle .closingSingleTag tags

end Store

namespace Pairing.Stores

variable {β : Pairing} {s t : Store} {slot twin : Slot}

theorem push (h : β.Stores s t) (hSlot : β.Slots slot twin) (a : Atom) :
    β.Leads t β (s.push slot a) (t.push twin a) := by
  cases h.sights hSlot with
  | atom => exact h.leads
  | seq hPair hHere hThere hKind hItems =>
    simp only [Store.push, hHere, hThere]
    exact h.put hPair (.seq hKind (List.rel_append hItems (.cons (.atom a) .nil)))
  | map _ hHere hThere =>
    simp only [Store.push, hHere, hThere]
    exact h.leads

theorem settingAt (h : β.Stores s t) {o p : OptionsRef} (hPair : (o, p) ∈ β.options)
    (setting : Setting) : β.Slots (s.settingAt o setting) (t.settingAt p setting) := by
  obtain ⟨slots, twins, hHere, hThere, hSlots⟩ := h.options hPair
  simp only [Store.settingAt, hHere, hThere]
  exact hSlots setting

theorem meddle (h : β.Stores s t) (hSlot : β.Slots slot twin) :
    β.Leads t β (s.meddle slot) (t.meddle twin) := by
  have hTree := h.push hSlot (.str "meddled")
  have hHandles := hTree.stores.optionsOf hSlot
  simp only [Store.meddle]
  generalize (s.push slot (.str "meddled")).optionsOf slot = handle at hHandles ⊢
  generalize (t.push twin (.str "meddled")).optionsOf twin = other at hHandles ⊢
  cases hHandles with
  | none => exact hTree
  | some hPair =>
    have hTags := hTree.stores.settingAt hPair .singleTags
    have hPushed := hTree.trans (hTree.stores.push hTags (.str "meddled"))
    exact hPushed.trans (hPushed.stores.assignSetting hPair .closingSingleTag hTags)

end Pairing.Stores

namespace Conduct

/-- Every plugin meddles with its tree when it is called and once more after it was suspended. -/
def meddling : Conduct Unit where
  plugin _ tree world :=
    ⟨world.withStore (world.store.meddle tree), [],
      .ok (.awaitable [fun later => (later, [], none),
        fun later => (later.withStore (later.store.meddle tree), [], some (.ok .none))])⟩
  collaborator _ subject _ world := (.ok subject, world)
  files _ := .missing
  freshId _ := ""
  depth := 1000

theorem isLocal_meddling : meddling.IsLocal where
  plugin := by
    intro _ β tree twin w v h hTree
    have hBody : β.Bodies (σ := Unit)
        [fun later => (later, [], none),
          fun later => (later.withStore (later.store.meddle tree), [], some (.ok .none))]
        [fun later => (later, [], none),
          fun later => (later.withStore (later.store.meddle twin), [], some (.ok .none))] := by
      refine .cons ?_ (.cons ?_ .nil)
      · intro γ w v _ h
        exact ⟨γ, h.moves, .nil, .none⟩
      · intro γ w v hLe h
        exact ⟨γ, (h.meddle (hTree.mono hLe)).moves, .nil, .some (.ok (.atom .none))⟩
    exact ⟨β, (h.meddle hTree).moves, .nil, .ok (.awaitable hBody)⟩
  collaborator := by
    intro _ β subject twin _ _ w v h hSubject _
    exact ⟨β, h.moves, .ok hSubject⟩

end Conduct

def Outsider.meddling : Outsider Unit :=
  fun tree world => (world.withStore (world.store.meddle tree), [])

theorem Outsider.isLocal_meddling : Outsider.meddling.IsLocal := by
  intro β tree twin w v h hTree
  exact ⟨β, (h.meddle hTree).moves, .nil⟩

/-- An options object whose single tags are the only other object. -/
def Store.ofTag (tag : String) : Store where
  cells := #[.seq .list [.atom (.str tag)]]
  options := #[fun setting =>
    if setting = .singleTags then .ref ⟨0⟩ else .none]

theorem Store.closed_ofTag (tag : String) : (Store.ofTag tag).Closed := by
  have hCell {r : Ref} {cell : Cell} (hCell : (Store.ofTag tag).get? r = some cell) :
      cell = .seq .list [.atom (.str tag)] := by
    simp only [Store.get?, Store.ofTag, Array.getElem?_singleton] at hCell
    split at hCell
    · exact (Option.some.inj hCell).symm
    · cases hCell
  constructor
  · intro r cell h slot hSlot
    rw [hCell h] at hSlot
    rw [List.mem_singleton.mp hSlot]
    trivial
  · intro r cell h handle hHandle
    rw [hCell h] at hHandle
    cases hHandle
  · intro handle slots h setting
    simp only [Store.slots?, Store.ofTag, Array.getElem?_singleton] at h
    split at h
    · obtain rfl := Option.some.inj h
      cases setting with
      | singleTags => exact Nat.one_pos
      | _ => trivial
    · cases h

/-! ## Any number of calls -/

namespace Loop

theorem isolates_ofWorld {before fresh : World σ} (hClosed : before.store.Closed) :
    Isolates conduct before fresh none [] (fun _ => .empty) (ofWorld before) where
  caller := Pairing.stores_diagonal hClosed
  roster_eq := rfl
  defaults_eq := rfl
  length_eq := rfl
  unused := fun _ _ => rfl
  stores := fun _ => ⟨before.store, Link.stores_empty _ _⟩
  ofCaller := fun _ => Link.apart_empty _
  apart := fun _ _ _ => Link.apart_empty _
  promises := List.forall_mem_nil _
  queue := List.forall_mem_nil _
  tracks := by
    intro run request hRequest
    cases hRequest

/-- Plugins may change in any way what they are given. At any time the pipeline and the objects of its
caller are as they were, and every run is where it is, and has come to the tree, the markup, the
options or the fault that it has come to, when the same call is the only one that is made of a fresh
pipeline. -/
theorem serve_isolates (hLocal : conduct.IsLocal) {before fresh : World σ}
    (hClosed : before.store.Closed) (hDefaults : before.pipeline.defaults.IsIn before.store)
    (hFresh : fresh.Matches before) (occasions : List (Occasion σ))
    (hSound : ∀ occasion ∈ occasions, occasion.IsSound before.store) :
    before.Spares ((ofWorld before).serve conduct occasions).shared.world ∧
      ((ofWorld before).serve conduct occasions).runs.length =
        (Occasion.requests occasions).length ∧
      ∀ (run : Nat) (request : Request Slot),
        (Occasion.requests occasions)[run]? = some request →
          ∃ own, Occasion.Single request (Occasion.visits run occasions) own ∧
            ((ofWorld before).serve conduct occasions).Agrees run
              ((ofWorld fresh).serve conduct own) := by
  obtain ⟨links, h⟩ := (isolates_ofWorld hClosed).serve hLocal hFresh hDefaults occasions hSound
  rw [List.nil_append] at h
  refine ⟨h.spares, h.length_eq, ?_⟩
  intro run request hRequest
  exact (h.tracked hRequest).agrees

/-- Two runs and a run in blocking mode are given the same tags, in different ways. -/
theorem serve_isolates_meddling :
    let meddler : Callable := ⟨0, .function, "meddler", none, false, []⟩
    let before : World Unit := ⟨.ofTag "br", [], ⟨[meddler, meddler], ⟨0⟩, none, 0, 0⟩, ()⟩
    let fresh : World Unit := ⟨.ofTag "br", [], ⟨[meddler, meddler], ⟨0⟩, some "id", 7, 5⟩, ()⟩
    let first : Request Slot := ⟨.atom (.str "<p>a</p>"), .inherit, []⟩
    let second : Request Slot :=
      ⟨.atom (.str "<br>"), .object ⟨0⟩, [(.str "single_tags", .ref ⟨0⟩)]⟩
    let third : Request Slot :=
      ⟨.atom (.str "<hr>"), .settings [(.str "single_tags", .ref ⟨0⟩)],
        [(.str "sync", .atom (.bool true))]⟩
    let occasions : List (Occasion Unit) :=
      [.call first, .call second, .schedule 0, .start 1, .work, .call third, .visit 1 .meddling,
        .work, .work, .work]
    before.Spares ((ofWorld before).serve .meddling occasions).shared.world ∧
      ((ofWorld before).serve .meddling occasions).runs.length = 3 ∧
      ∀ (run : Nat) (request : Request Slot), [first, second, third][run]? = some request →
        ∃ own, Occasion.Single request (Occasion.visits run occasions) own ∧
          ((ofWorld before).serve .meddling occasions).Agrees run
            ((ofWorld fresh).serve .meddling own) := by
  intro meddler before fresh first second third occasions
  have hFirst : first.IsIn before.store := ⟨⟨_, rfl⟩, trivial, List.forall_mem_nil _⟩
  have hSecond : second.IsIn before.store :=
    ⟨⟨_, rfl⟩, Nat.one_pos, List.forall_mem_singleton.mpr Nat.one_pos⟩
  have hThird : third.IsIn before.store :=
    ⟨⟨_, rfl⟩, List.forall_mem_singleton.mpr Nat.one_pos, List.forall_mem_singleton.mpr trivial⟩
  have hSound : ∀ occasion ∈ occasions, occasion.IsSound before.store := by
    simp only [occasions, List.forall_mem_cons]
    exact ⟨hFirst, hSecond, trivial, trivial, trivial, hThird, Outsider.isLocal_meddling, trivial,
      trivial, trivial, List.forall_mem_nil _⟩
  have hClosed : before.store.Closed := Store.closed_ofTag "br"
  have hFresh : fresh.Matches before := ⟨rfl, rfl, rfl⟩
  exact serve_isolates Conduct.isLocal_meddling hClosed Nat.one_pos hFresh occasions hSound

end Loop

end Hypertext
