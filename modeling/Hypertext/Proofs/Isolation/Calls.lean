import Hypertext.Proofs.Isolation.Documents

/-! # Calls of a pipeline

A pipeline is called any number of times, with objects of its caller. A call in blocking mode ends
at once; any other makes a run, which begins in place or as a job of the loop. In between the loop
does its jobs one by one, and timers and threads that plugins have started come back to their runs.
-/

namespace Hypertext

set_option autoImplicit false

variable {σ : Type} {conduct : Conduct σ}

/-! ## The caller's objects -/

def Slot.IsIn (store : Store) : Slot → Prop
  | .atom _ => True
  | .ref r => r.index < store.cells.size

def OptionsRef.IsIn (store : Store) (handle : OptionsRef) : Prop :=
  handle.index < store.options.size

namespace Cell

def slots : Cell → List Slot
  | .seq _ items => items
  | .map _ entries => entries.map (·.2)

def handle? : Cell → Option OptionsRef
  | .seq (.tree handle) _ | .map (.root handle) _ => handle
  | _ => none

end Cell

structure Store.Closed (store : Store) : Prop where
  slots : ∀ (r : Ref) (cell : Cell), store.get? r = some cell → ∀ slot ∈ cell.slots, slot.IsIn store
  handles : ∀ (r : Ref) (cell : Cell), store.get? r = some cell →
    ∀ handle ∈ cell.handle?, handle.IsIn store
  settings : ∀ (handle : OptionsRef) (slots : Setting → Slot), store.slots? handle = some slots →
    ∀ setting, (slots setting).IsIn store

def GivenOptions.IsIn (store : Store) : GivenOptions Slot → Prop
  | .settings entries => ∀ entry ∈ entries, entry.2.IsIn store
  | .object handle => handle.IsIn store
  | .inherit | .other _ => True

/-- A source is a leaf, and the options and their values are objects of the caller. -/
structure Request.IsIn (store : Store) (request : Request Slot) : Prop where
  source : ∃ a, request.source = .atom a
  options : request.options.IsIn store
  overrides : ∀ entry ∈ request.overrides, entry.2.IsIn store

namespace Pairing

def diagonal (store : Store) : Pairing where
  cells := (List.range store.cells.size).map fun index => (⟨index⟩, ⟨index⟩)
  options := (List.range store.options.size).map fun index => (⟨index⟩, ⟨index⟩)

variable {store : Store}

theorem mem_cells_diagonal {r q : Ref} :
    (r, q) ∈ (diagonal store).cells ↔ r = q ∧ r.index < store.cells.size := by
  simp only [diagonal, List.mem_map, List.mem_range, Prod.mk.injEq]
  constructor
  · rintro ⟨index, hIndex, rfl, rfl⟩
    exact ⟨rfl, hIndex⟩
  · rintro ⟨rfl, hIndex⟩
    exact ⟨r.index, hIndex, rfl, rfl⟩

theorem mem_options_diagonal {o p : OptionsRef} :
    (o, p) ∈ (diagonal store).options ↔ o = p ∧ o.IsIn store := by
  simp only [diagonal, List.mem_map, List.mem_range, Prod.mk.injEq]
  constructor
  · rintro ⟨index, hIndex, rfl, rfl⟩
    exact ⟨rfl, hIndex⟩
  · rintro ⟨rfl, hIndex⟩
    exact ⟨o.index, hIndex, rfl, rfl⟩

theorem slots_diagonal {slot : Slot} (h : slot.IsIn store) : (diagonal store).Slots slot slot := by
  cases slot with
  | atom a => exact .atom a
  | ref r => exact .ref (mem_cells_diagonal.mpr ⟨rfl, h⟩)

theorem handles_diagonal {handle : Option OptionsRef} (h : ∀ o ∈ handle, o.IsIn store) :
    (diagonal store).Handles handle handle := by
  cases handle with
  | none => exact .none
  | some o => exact .some (mem_options_diagonal.mpr ⟨rfl, h o rfl⟩)

theorem cells_diagonal {cell : Cell} (hSlots : ∀ slot ∈ cell.slots, slot.IsIn store)
    (hHandle : ∀ handle ∈ cell.handle?, handle.IsIn store) : (diagonal store).Cells cell cell := by
  cases cell with
  | seq kind items =>
    refine .seq ?_ (List.forall₂_same.mpr fun slot hSlot => slots_diagonal (hSlots slot hSlot))
    cases kind with
    | list => exact .list
    | tuple => exact .tuple
    | tree handle => exact .tree (handles_diagonal hHandle)
  | map kind entries =>
    refine .map ?_ (List.forall₂_same.mpr fun entry hEntry => ⟨rfl, slots_diagonal ?_⟩)
    · cases kind with
      | dict => exact .dict
      | node => exact .node
      | root handle => exact .root (handles_diagonal hHandle)
    · exact hSlots entry.2 (List.mem_map_of_mem hEntry)

theorem stores_diagonal (h : store.Closed) : (diagonal store).Stores store store where
  cells := by
    intro r q hPair
    obtain ⟨rfl, hIndex⟩ := mem_cells_diagonal.mp hPair
    have hCell : store.get? r = some store.cells[r.index] := Array.getElem?_eq_getElem hIndex
    exact ⟨_, _, hCell, hCell, cells_diagonal (h.slots r _ hCell) (h.handles r _ hCell)⟩
  options := by
    intro o p hPair
    obtain ⟨rfl, hIndex⟩ := mem_options_diagonal.mp hPair
    have hSlots : store.slots? o = some store.options[o.index] := Array.getElem?_eq_getElem hIndex
    exact ⟨_, _, hSlots, hSlots, fun setting => slots_diagonal (h.settings o _ hSlots setting)⟩
  cellsOnce := by
    intro r r' q q' hPair hPair'
    rw [(mem_cells_diagonal.mp hPair).1, (mem_cells_diagonal.mp hPair').1]
  optionsOnce := by
    intro o o' p p' hPair hPair'
    rw [(mem_options_diagonal.mp hPair).1, (mem_options_diagonal.mp hPair').1]

end Pairing

namespace Entries

variable {β : Type} {P : β → Prop} {entries : List (Value × β)}

theorem forall_set (h : ∀ entry ∈ entries, P entry.2) (key : Value) {value : β} (hValue : P value) :
    ∀ entry ∈ set entries key value, P entry.2 := by
  intro entry hEntry
  unfold set at hEntry
  split at hEntry
  · obtain ⟨old, hOld, rfl⟩ := List.mem_map.mp hEntry
    split
    · exact hValue
    · exact h old hOld
  · rcases List.mem_append.mp hEntry with hOld | hNew
    · exact h entry hOld
    · rw [List.mem_singleton.mp hNew]
      exact hValue

theorem forall_merged (h : ∀ entry ∈ entries, P entry.2) {more : List (Value × β)}
    (hMore : ∀ entry ∈ more, P entry.2) :
    ∀ entry ∈ more.foldl (fun merged entry => set merged entry.1 entry.2) entries, P entry.2 := by
  induction more generalizing entries with
  | nil => exact h
  | cons entry more ih =>
    rw [List.forall_mem_cons] at hMore
    exact ih (forall_set h entry.1 hMore.1) hMore.2

end Entries

namespace Request

variable {store : Store} {request : Request Slot}

theorem IsIn.covers (h : request.IsIn store) {pipeline : Pipeline}
    (hDefaults : pipeline.defaults.IsIn store) :
    (Pairing.diagonal store).Covers (request.brief pipeline) := by
  obtain ⟨source, options, overrides⟩ := request
  have hOverrides : ∀ entry ∈ overrides, entry.2.IsIn store := h.overrides
  have hOptions : options.IsIn store := h.options
  have hGiven {entries : List (Value × Slot)} (hEntries : ∀ entry ∈ entries, entry.2.IsIn store) :
      ∀ entry ∈ entries, (Pairing.diagonal store).Slots entry.2 entry.2 :=
    fun entry hEntry => Pairing.slots_diagonal (hEntries entry hEntry)
  have hBase {base : OptionsRef} (hBase : base.IsIn store) (handle : OptionsRef)
      (hSame : (.inl base : OptionsRef ⊕ Value) = .inl handle) :
      (handle, handle) ∈ (Pairing.diagonal store).options := by
    cases hSame
    exact Pairing.mem_options_diagonal.mpr ⟨rfl, hBase⟩
  cases options with
  | inherit => exact ⟨h.source, hBase hDefaults, hGiven hOverrides⟩
  | object handle => exact ⟨h.source, hBase hOptions, hGiven hOverrides⟩
  | other value =>
    refine ⟨h.source, ?_, hGiven hOverrides⟩
    intro handle hSame
    cases hSame
  | settings entries =>
    have hNone : ∀ entry ∈ ([] : List (Value × Slot)), entry.2.IsIn store := List.forall_mem_nil _
    exact ⟨h.source, hBase hDefaults,
      hGiven (Entries.forall_merged (Entries.forall_merged hNone hOptions) hOverrides)⟩

theorem brief_eq {pipeline other : Pipeline} (hRoster : pipeline.roster = other.roster)
    (hDefaults : pipeline.defaults = other.defaults) :
    request.brief pipeline = request.brief other := by
  simp only [brief, hRoster, hDefaults]

end Request

/-! ## Calls -/

namespace Loop

/-- Calls the pipeline. A run that does not end at once has not begun yet. -/
def call (conduct : Conduct σ) (loop : Loop σ (Outcome ProcessResult)) (request : Request Slot) :
    Loop σ (Outcome ProcessResult) :=
  match Processing.process conduct request loop.shared.world with
  | (world, .inl result) => ⟨loop.shared.withWorld world, loop.runs ++ [.ended result]⟩
  | (world, .inr routine) => ⟨loop.shared.withWorld world, loop.runs ++ [.fresh routine]⟩

variable {loop : Loop σ (Outcome ProcessResult)} {request : Request Slot} {brief : Brief}

theorem call_of_blocking (hBrief : request.brief loop.shared.world.pipeline = brief)
    (hBlocking : brief.isBlocking loop.shared.world.store = true) :
    loop.call conduct request =
      ⟨loop.shared.withWorld (Processing.blocking conduct brief loop.shared.world).1,
        loop.runs ++ [.ended (Processing.blocking conduct brief loop.shared.world).2]⟩ := by
  simp only [call, Processing.process, hBrief, hBlocking, if_true]

theorem call_of_not_blocking (hBrief : request.brief loop.shared.world.pipeline = brief)
    (hBlocking : brief.isBlocking loop.shared.world.store = false) :
    loop.call conduct request =
      ⟨loop.shared, loop.runs ++ [.fresh (Processing.routine conduct brief)]⟩ := by
  simp only [call, Processing.process, hBrief, hBlocking, Bool.false_eq_true, if_false]
  rfl

end Loop

/-! ## What comes from outside the loop -/

/-- What a timer or another thread hands to a run: a call of a completion callback that the run once
gave to a plugin, or the outcome of the future that it waits for. -/
inductive Delivery where
  | completion (position : Nat) (completion : Completion)
  | outcome (outcome : Outcome Slot)

/-- A timer or another thread: what it does with the tree of a run, and what it hands over. -/
abbrev Outsider (σ : Type) := Slot → World σ → World σ × List Delivery

namespace Pairing

inductive Deliveries (β : Pairing) : Delivery → Delivery → Prop where
  | completion (position : Nat) {completion twin : Completion} (h : β.Completions completion twin) :
    Deliveries β (.completion position completion) (.completion position twin)
  | outcome {outcome twin : Outcome Slot} (h : β.Outcomes outcome twin) :
    Deliveries β (.outcome outcome) (.outcome twin)

end Pairing

/-- An outsider depends only on the tree, as plugins do that are local. -/
def Outsider.IsLocal (act : Outsider σ) : Prop :=
  ∀ (β : Pairing) (tree twin : Slot) (w v : World σ), β.Stores w.store v.store → β.Slots tree twin →
    ∃ γ, β.Moves v γ (act tree w).1 (act twin v).1 ∧
      List.Forall₂ γ.Deliveries (act tree w).2 (act twin v).2

namespace RunState

def tree? : RunState σ (Outcome ProcessResult) → Option Slot
  | .active _ paused => some paused.tree
  | .ended (.ok result) => some result.tree
  | _ => none

def awaitsFuture : RunState σ (Outcome ProcessResult) → Bool
  | .active _ ⟨_, _, _, _, _, _, .pending⟩ => true
  | _ => false

end RunState

namespace Shared

/-- The promises of a run, in the order in which they were made. -/
def promisesOf (shared : Shared σ) (run : Nat) : List Nat :=
  (List.range shared.promises.length).filter fun id =>
    (shared.promises[id]?.map Promise.run) = some run

def delivery? (shared : Shared σ) (run : Nat) (awaitsFuture : Bool) : Delivery → Option (Job σ)
  | .completion position completion =>
    (shared.promisesOf run)[position]?.map fun id => .settle id completion
  | .outcome outcome => if awaitsFuture then some (.resume run (some outcome)) else none

end Shared

namespace Loop

/-- A run that has no tree cannot be visited. -/
def visit (loop : Loop σ (Outcome ProcessResult)) (run : Nat) (act : Outsider σ) :
    Loop σ (Outcome ProcessResult) :=
  match loop.runs[run]? with
  | none => loop
  | some state =>
    match state.tree? with
    | none => loop
    | some tree =>
      let (world, deliveries) := act tree loop.shared.world
      let jobs := deliveries.filterMap (loop.shared.delivery? run state.awaitsFuture)
      { loop with shared := (loop.shared.withWorld world).postAll jobs }

end Loop

/-! ## Occasions -/

inductive Occasion (σ : Type) where
  | call (request : Request Slot)
  /-- A run is handed to the loop, to be begun by it. -/
  | schedule (run : Nat)
  /-- A run is begun in place. -/
  | start (run : Nat)
  /-- The loop does the first of its jobs. -/
  | work
  | visit (run : Nat) (act : Outsider σ)

namespace Occasion

def request? : Occasion σ → Option (Request Slot)
  | call request => some request
  | _ => none

def visit? (run : Nat) : Occasion σ → Option (Outsider σ)
  | visit other act => if other = run then some act else none
  | _ => none

/-- Requests are made with objects of the caller, and who visits a run is local. -/
def IsSound (store : Store) : Occasion σ → Prop
  | call request => request.IsIn store
  | visit _ act => act.IsLocal
  | _ => True

def requests (occasions : List (Occasion σ)) : List (Request Slot) :=
  occasions.filterMap request?

def visits (run : Nat) (occasions : List (Occasion σ)) : List (Outsider σ) :=
  occasions.filterMap (visit? run)

theorem requests_concat (occasions : List (Occasion σ)) (occasion : Occasion σ) :
    requests (occasions ++ [occasion]) = requests occasions ++ occasion.request?.toList := by
  rw [requests, List.filterMap_append, requests]
  cases hRequest : occasion.request? <;>
    simp only [List.filterMap_cons, hRequest, List.filterMap_nil, Option.toList]

theorem requests_concat_of_none (occasions : List (Occasion σ)) {occasion : Occasion σ}
    (h : occasion.request? = none) : requests (occasions ++ [occasion]) = requests occasions := by
  rw [requests_concat, h]
  exact List.append_nil _

theorem visits_concat (run : Nat) (occasions : List (Occasion σ)) (occasion : Occasion σ) :
    visits run (occasions ++ [occasion]) =
      visits run occasions ++ (occasion.visit? run).toList := by
  rw [visits, List.filterMap_append, visits]
  cases hVisit : occasion.visit? run <;>
    simp only [List.filterMap_cons, hVisit, List.filterMap_nil, Option.toList]

theorem visits_concat_of_none {run : Nat} (occasions : List (Occasion σ)) {occasion : Occasion σ}
    (h : occasion.visit? run = none) :
    visits run (occasions ++ [occasion]) = visits run occasions := by
  rw [visits_concat, h]
  exact List.append_nil _

/-- Occasions with one call, whose run is visited as another run is. -/
structure Single (request : Request Slot) (acts : List (Outsider σ)) (occasions : List (Occasion σ)) :
    Prop where
  requests_eq : requests occasions = [request]
  visits_eq : visits 0 occasions = acts

end Occasion

namespace Loop

def occur (conduct : Conduct σ) (loop : Loop σ (Outcome ProcessResult)) :
    Occasion σ → Loop σ (Outcome ProcessResult)
  | .call request => loop.call conduct request
  | .schedule run => { loop with shared := loop.shared.post (.start run) }
  | .start run => loop.perform conduct (.start run)
  | .work => loop.step conduct
  | .visit run act => loop.visit run act

def serve (conduct : Conduct σ) (loop : Loop σ (Outcome ProcessResult))
    (occasions : List (Occasion σ)) : Loop σ (Outcome ProcessResult) :=
  occasions.foldl (occur conduct) loop

theorem serve_concat (conduct : Conduct σ) (loop : Loop σ (Outcome ProcessResult))
    (occasions : List (Occasion σ)) (occasion : Occasion σ) :
    loop.serve conduct (occasions ++ [occasion]) =
      (loop.serve conduct occasions).occur conduct occasion := by
  rw [serve, List.foldl_append]
  rfl

theorem serve_visits (conduct : Conduct σ) (world : World σ) (visits : List (Outsider σ)) :
    (ofWorld world).serve conduct (visits.map (.visit 0)) = ofWorld world := by
  induction visits with
  | nil => rfl
  | cons _ _ ih => exact ih

end Loop

namespace Occasion.Single

variable {request : Request Slot} {acts : List (Outsider σ)} {occasions : List (Occasion σ)}

theorem concat (h : Single request acts occasions) {occasion : Occasion σ}
    (hRequest : occasion.request? = none) (hVisit : occasion.visit? 0 = none) :
    Single request acts (occasions ++ [occasion]) where
  requests_eq := (requests_concat_of_none occasions hRequest).trans h.requests_eq
  visits_eq := (visits_concat_of_none occasions hVisit).trans h.visits_eq

theorem visited (h : Single request acts occasions) (act : Outsider σ) :
    Single request (acts ++ [act]) (occasions ++ [.visit 0 act]) where
  requests_eq := (requests_concat_of_none occasions rfl).trans h.requests_eq
  visits_eq := by
    rw [visits_concat, h.visits_eq]
    rfl

theorem called (request : Request Slot) (acts : List (Outsider σ)) :
    Single request acts (acts.map (.visit 0) ++ [.call request]) where
  requests_eq := by
    induction acts with
    | nil => rfl
    | cons _ _ ih => exact ih
  visits_eq := by
    induction acts with
    | nil => rfl
    | cons act acts ih => exact congrArg (act :: ·) ih

end Occasion.Single

/-! ## What a caller sees -/

/-- The content of a result, with the options that its tree carries. -/
structure Report where
  tree : Value
  html : Value
  options : Option Options
  metrics : Metrics

def ProcessResult.report (result : ProcessResult) (store : Store) : Report where
  tree := store.view result.tree
  html := store.view result.html
  options := (store.optionsOf result.tree).map store.getOptions
  metrics := result.metrics

inductive Progress where
  | waiting
  | running
  | ended (outcome : Outcome Report)

def RunState.progress (state : RunState σ (Outcome ProcessResult)) (store : Store) : Progress :=
  match state with
  | .fresh _ => .waiting
  | .active _ _ => .running
  | .ended outcome => .ended (outcome.map fun result => result.report store)

def Loop.progress? (loop : Loop σ (Outcome ProcessResult)) (run : Nat) : Option Progress :=
  loop.runs[run]?.map fun state => state.progress loop.shared.world.store

end Hypertext
