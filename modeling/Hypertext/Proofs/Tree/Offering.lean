import Hypertext.Tree.Walk

/-! # What a walk offers

A recorded visitor does what the visitor does and keeps every call with its outcome. Recording is of no
consequence to a walk. Whatever the visitor does, the walk itself writes nothing but positions of
sequences that can change.
-/

namespace Hypertext

set_option autoImplicit false

/-- A call of a visitor: the item it was offered, its outcome, and the stores it found and left. -/
structure Call where
  before : Store
  item : Slot
  outcome : Except Fault Answer
  after : Store

namespace Call

/-- What the call puts in the place of its item, if it returns. -/
def answer (call : Call) : Except Fault (Option Slot) :=
  call.outcome.map (Walk.replacement? call.item)

end Call

variable {σ τ α β : Type}

def Visitor.recorded (visitor : Visitor σ) : Visitor (σ × List Call) := fun item => do
  let (before, memory, calls) ← get
  let (outcome, after, memory) := (visitor item).run (before, memory)
  set (after, memory, calls ++ [⟨before, item, outcome, after⟩])
  ExceptT.mk (pure outcome)

theorem Visitor.recorded_run {visitor : Visitor σ} {item : Slot} {before after : Store}
    {memory kept : σ} {outcome : Except Fault Answer}
    (h : visitor item (before, memory) = (outcome, after, kept)) (calls : List Call) :
    visitor.recorded item (before, memory, calls) =
      (outcome, after, kept, calls ++ [⟨before, item, outcome, after⟩]) := by
  have hRun : (visitor item).run (before, memory) = (outcome, after, kept) := h
  change (match (visitor item).run (before, memory) with
    | (outcome, after, memory) =>
      ((do
        set (after, memory, calls ++ [(⟨before, item, outcome, after⟩ : Call)])
        ExceptT.mk (pure outcome)) : Walking (σ × List Call) Answer)) (before, memory, calls) = _
  rw [hRun]
  rfl

namespace Walk

/-! ## Steps of a walk, one after the other -/

theorem getStore_bind (next : Store → Walking τ α) (state : Store × τ) :
    (getStore >>= next) state = next state.1 state := rfl

theorem bind_ok {step : Walking τ α} {next : α → Walking τ β} {state after : Store × τ} {a : α}
    (h : step state = (.ok a, after)) : (step >>= next) state = next a after := by
  change ExceptT.bindCont next (step state).1 (step state).2 = next a after
  rw [h]
  rfl

theorem bind_error {step : Walking τ α} {next : α → Walking τ β} {state after : Store × τ}
    {fault : Fault} (h : step state = (.error fault, after)) :
    (step >>= next) state = (.error fault, after) := by
  change ExceptT.bindCont next (step state).1 (step state).2 = (.error fault, after)
  rw [h]
  rfl

theorem replaceAt_refused {state : Store × τ} {r : Ref} {kind : SeqKind} {items : List Slot}
    (hCell : state.1.get? r = some (.seq kind items)) (hKind : kind.isMutable = false) (index : Nat)
    (slot : Slot) : replaceAt r index slot state = (.error .immutableContent, state) := by
  rw [replaceAt, getStore_bind]
  simp only [hCell, hKind]
  rfl

theorem replaceAt_written {state : Store × τ} {r : Ref} {kind : SeqKind} {items : List Slot}
    (hCell : state.1.get? r = some (.seq kind items)) (hKind : kind.isMutable = true) {index : Nat}
    (hIndex : index < items.length) (slot : Slot) :
    replaceAt r index slot state =
      (.ok (), state.1.put r (.seq kind (items.set index slot)), state.2) := by
  rw [replaceAt, getStore_bind]
  simp only [hCell, hKind, if_pos hIndex]
  rfl

theorem replaceAt_cases (store : Store) (r : Ref) (index : Nat) (slot : Slot) :
    (∃ fault, ∀ {τ : Type} (memory : τ),
      replaceAt r index slot (store, memory) = (.error fault, store, memory)) ∨
    ∃ kind items, store.get? r = some (.seq kind items) ∧ kind.isMutable = true ∧
      ∀ {τ : Type} (memory : τ), replaceAt r index slot (store, memory) =
        (.ok (), store.put r (.seq kind (items.set index slot)), memory) := by
  match hCell : store.get? r with
  | some (.seq kind items) =>
    cases hKind : kind.isMutable with
    | false =>
      exact .inl ⟨.immutableContent, fun memory =>
        @replaceAt_refused _ (store, memory) r kind items hCell hKind index slot⟩
    | true =>
      by_cases hIndex : index < items.length
      · exact .inr ⟨kind, items, rfl, hKind, fun memory =>
          @replaceAt_written _ (store, memory) r kind items hCell hKind index hIndex slot⟩
      · refine .inl ⟨.badIndex true, fun _ => ?_⟩
        rw [replaceAt, getStore_bind]
        simp only [hCell, hKind, if_neg hIndex]
        rfl
  | some (.map kind entries) | none =>
    refine .inl ⟨.badIndex true, fun _ => ?_⟩
    rw [replaceAt, getStore_bind]
    simp only [hCell]
    rfl

/-- What follows an answer at a position: it is put there, and the walk goes on from what stands there. -/
def settle (onward : Slot → Walking τ Unit) (r : Ref) (index : Nat) (item : Slot) (answer : Answer) :
    Walking τ Unit :=
  match replacement? item answer with
  | none => onward item
  | some slot => replaceAt r index slot >>= fun _ => onward slot

theorem settle_pass {onward : Slot → Walking τ Unit} {r : Ref} {index : Nat} {item : Slot}
    {answer : Answer} (h : replacement? item answer = none) :
    settle onward r index item answer = onward item := by
  rw [settle, h]

theorem settle_put {onward : Slot → Walking τ Unit} {r : Ref} {index : Nat} {item slot : Slot}
    {answer : Answer} (h : replacement? item answer = some slot) :
    settle onward r index item answer = replaceAt r index slot >>= fun _ => onward slot := by
  rw [settle, h]

theorem sweep_succ (visitor : Visitor τ) (enter : Slot → Walking τ Unit) (r : Ref)
    (fuel index : Nat) :
    sweep visitor enter r (fuel + 1) index = getStore >>= fun store =>
      match itemAt? store r index with
      | none => pure ()
      | some item => visitor item >>= settle (fun slot => enter slot >>= fun _ =>
          sweep visitor enter r fuel (index + 1)) r index item := by
  rw [sweep]
  refine congrArg (getStore >>= ·) (funext fun store => ?_)
  cases itemAt? store r index with
  | none => rfl
  | some item =>
    refine congrArg (visitor item >>= ·) (funext fun answer => ?_)
    cases hAnswer : replacement? item answer <;> simp only [settle, hAnswer]

/-! ## What is written -/

/-- What becomes of a store when the calls are made in order and nothing is done on the walk's own
account but to write positions of sequences that can change. -/
inductive Reaches (store : Store) : List Call → Store → Prop where
  | start : Reaches store [] store
  | call {calls : List Call} {last : Call} (h : Reaches store calls last.before) :
    Reaches store (calls ++ [last]) last.after
  | write {calls : List Call} {next : Store} {r : Ref} {kind : SeqKind} {items : List Slot}
    (h : Reaches store calls next) (hCell : next.get? r = some (.seq kind items))
    (hKind : kind.isMutable = true) (index : Nat) (slot : Slot) :
    Reaches store calls (next.put r (.seq kind (items.set index slot)))

theorem Reaches.trans {store middle last : Store} {calls more : List Call}
    (h : Reaches store calls middle) (hMore : Reaches middle more last) :
    Reaches store (calls ++ more) last := by
  induction hMore with
  | start => rwa [List.append_nil]
  | call _ ih =>
    rw [← List.append_assoc]
    exact .call ih
  | write _ hCell hKind index slot ih => exact .write ih hCell hKind index slot

/-- A step with a record does what the step does, and its record accounts for the store. -/
def Recounts (told : Walking (σ × List Call) α) (step : Walking σ α) : Prop :=
  ∀ (store : Store) (memory : σ) (calls : List Call), ∃ outcome after kept made,
    step (store, memory) = (outcome, after, kept) ∧
      told (store, memory, calls) = (outcome, after, kept, calls ++ made) ∧
      Reaches store made after

namespace Recounts

variable {told : Walking (σ × List Call) α} {step : Walking σ α}
  {toldNext : α → Walking (σ × List Call) β} {next : α → Walking σ β}

theorem bind (hStep : Recounts told step) (hNext : ∀ a, Recounts (toldNext a) (next a)) :
    Recounts (told >>= toldNext) (step >>= next) := by
  intro store memory calls
  obtain ⟨outcome, middle, kept, made, hRun, hTold, hReaches⟩ := hStep store memory calls
  cases outcome with
  | error fault => exact ⟨_, _, _, made, bind_error hRun, bind_error hTold, hReaches⟩
  | ok a =>
    obtain ⟨outcome, after, last, more, hRest, hToldRest, hMore⟩ := hNext a middle kept (calls ++ made)
    refine ⟨outcome, after, last, made ++ more, (bind_ok hRun).trans hRest, ?_, hReaches.trans hMore⟩
    rw [← List.append_assoc]
    exact (bind_ok hTold).trans hToldRest

theorem bind_cases (hStep : Recounts told step) (hNext : ∀ a, Recounts (toldNext a) (next a))
    {store after : Store} {memory last : σ} {calls made : List Call} {result : Except Fault β}
    (h : (told >>= toldNext) (store, memory, calls) = (result, after, last, calls ++ made)) :
    (∃ fault, told (store, memory, calls) = (.error fault, after, last, calls ++ made) ∧
      result = .error fault) ∨
    ∃ a middle kept first rest, told (store, memory, calls) = (.ok a, middle, kept, calls ++ first) ∧
      toldNext a (middle, kept, calls ++ first) = (result, after, last, calls ++ first ++ rest) ∧
      made = first ++ rest := by
  obtain ⟨outcome, middle, kept, first, -, hTold, -⟩ := hStep store memory calls
  cases outcome with
  | error fault =>
    obtain ⟨hResult, hState⟩ := Prod.mk.inj ((bind_error hTold).symm.trans h)
    rw [hState] at hTold
    exact .inl ⟨fault, hTold, hResult.symm⟩
  | ok a =>
    rw [bind_ok hTold] at h
    obtain ⟨_, _, _, rest, -, hRest, -⟩ := hNext a middle kept (calls ++ first)
    have hCalls := congrArg (·.2.2.2) (hRest.symm.trans h)
    rw [List.append_assoc] at hCalls
    cases List.append_cancel_left hCalls
    rw [← List.append_assoc] at h
    exact .inr ⟨a, middle, kept, first, rest, hTold, h, rfl⟩

theorem pure (a : α) :
    Recounts (Pure.pure a : Walking (σ × List Call) α) (Pure.pure a : Walking σ α) := by
  intro store memory calls
  refine ⟨.ok a, store, memory, [], rfl, ?_, .start⟩
  rw [List.append_nil]
  rfl

theorem throw (fault : Fault) :
    Recounts (MonadExcept.throw fault : Walking (σ × List Call) α)
      (MonadExcept.throw fault : Walking σ α) := by
  intro store memory calls
  refine ⟨.error fault, store, memory, [], rfl, ?_, .start⟩
  rw [List.append_nil]
  rfl

theorem getStore : Recounts (Walk.getStore : Walking (σ × List Call) Store) Walk.getStore := by
  intro store memory calls
  refine ⟨.ok store, store, memory, [], rfl, ?_, .start⟩
  rw [List.append_nil]
  rfl

theorem replaceAt (r : Ref) (index : Nat) (slot : Slot) :
    Recounts (Walk.replaceAt r index slot : Walking (σ × List Call) Unit)
      (Walk.replaceAt r index slot) := by
  intro store memory calls
  rcases replaceAt_cases store r index slot with ⟨fault, hRun⟩ | ⟨kind, items, hCell, hKind, hRun⟩
  · refine ⟨.error fault, store, memory, [], hRun memory, ?_, .start⟩
    rw [List.append_nil]
    exact hRun (memory, calls)
  · refine ⟨.ok (), _, memory, [], hRun memory, ?_, .write .start hCell hKind index slot⟩
    rw [List.append_nil]
    exact hRun (memory, calls)

theorem visitor (visitor : Visitor σ) (item : Slot) :
    Recounts (visitor.recorded item) (visitor item) := fun store _ calls =>
  ⟨_, _, _, [⟨store, item, _, _⟩], rfl, Visitor.recorded_run rfl calls,
    @Reaches.call store [] ⟨store, item, _, _⟩ .start⟩

theorem settle {toldOnward : Slot → Walking (σ × List Call) Unit} {onward : Slot → Walking σ Unit}
    (hOnward : ∀ slot, Recounts (toldOnward slot) (onward slot)) (r : Ref) (index : Nat) (item : Slot)
    (answer : Answer) :
    Recounts (Walk.settle toldOnward r index item answer) (Walk.settle onward r index item answer) := by
  cases hAnswer : replacement? item answer with
  | none =>
    rw [settle_pass hAnswer, settle_pass hAnswer]
    exact hOnward item
  | some slot =>
    rw [settle_put hAnswer, settle_put hAnswer]
    exact .bind (.replaceAt r index slot) fun _ => hOnward slot

theorem sweep (visitor : Visitor σ) {toldEnter : Slot → Walking (σ × List Call) Unit}
    {enter : Slot → Walking σ Unit} (hEnter : ∀ slot, Recounts (toldEnter slot) (enter slot)) (r : Ref)
    (fuel index : Nat) :
    Recounts (Walk.sweep visitor.recorded toldEnter r fuel index)
      (Walk.sweep visitor enter r fuel index) := by
  induction fuel generalizing index with
  | zero => exact .throw .exhausted
  | succ fuel ih =>
    rw [sweep_succ, sweep_succ]
    refine .bind .getStore fun store => ?_
    cases itemAt? store r index with
    | none => exact .pure ()
    | some item =>
      exact .bind (.visitor visitor item)
        (.settle (fun slot => .bind (hEnter slot) fun _ => ih (index + 1)) r index item)

theorem enter (visitor : Visitor σ) (length depth : Nat) (slot : Slot) :
    Recounts (Walk.enter visitor.recorded length depth slot) (Walk.enter visitor length depth slot) := by
  induction depth generalizing slot with
  | zero => exact .throw .exhausted
  | succ depth ih =>
    rw [Walk.enter, Walk.enter]
    refine .bind .getStore fun store => ?_
    split
    · exact .sweep visitor ih _ length 0
    · split
      · split
        · exact .pure ()
        · exact ih _
      · exact .pure ()
    · exact .pure ()

end Recounts

end Walk

end Hypertext
