import Hypertext.Proofs.Chain.Advance
import Hypertext.Proofs.Chain.Recording

/-! # The calls on record

Of a record the calls are looked at here. A call of a plugin adds itself; nothing else that plugins
do and nothing that a chain does of its own adds one. What a recorded plugin comes to is what the
plugin comes to in the bare world.
-/

namespace Hypertext

set_option autoImplicit false

open Chain

variable {σ : Type}

def Deed.called? : Deed σ → Option (Called σ)
  | call called => some called
  | _ => none

def World.calls (world : World (Recorded σ)) : List (Called σ) := world.deeds.filterMap Deed.called?

def Silent (stretch : Stretch (Recorded σ)) : Prop :=
  ∀ world, (stretch world).1.calls = world.calls

theorem silent_recorded (plugin : Callable) (stretch : Stretch σ) :
    Silent (stretch.recorded plugin) := by
  intro world
  rw [World.calls, Stretch.recorded, World.deeds_recorded, List.filterMap_append]
  exact List.append_nil _

theorem completed_bare (context : Context) (plugin : Callable) (index : Nat) (tree : Slot)
    (metrics : Metrics) (kind : PluginKind) (result : Slot) (world : World (Recorded σ)) :
    completed context plugin index tree metrics kind result world =
      ((completed context plugin index tree metrics kind result world.bare).1,
        (completed context plugin index tree metrics kind result world.bare).2.1,
        (completed context plugin index tree metrics kind result world.bare).2.2.recorded
          world.deeds) :=
  completed_recorded context plugin index tree metrics kind result world.bare world.deeds

/-! ## Coroutines -/

theorem stepBody_recorded (plugin : Callable) (body : Body σ) (world : World (Recorded σ)) :
    ∃ deeds : List (Deed σ), deeds.filterMap Deed.called? = world.calls ∧
      stepBody world (body.map (Stretch.recorded plugin)) =
        ((stepBody world.bare body).1.recorded deeds,
          (stepBody world.bare body).2.map id (List.map (Stretch.recorded plugin))) := by
  cases body with
  | nil => exact ⟨world.deeds, rfl, rfl⟩
  | cons stretch rest =>
    refine ⟨world.deeds ++ [.stretch plugin], ?_, ?_⟩
    · rw [List.filterMap_append]
      exact List.append_nil _
    · rw [List.map_cons, stepBody, stepBody, Stretch.recorded]
      obtain ⟨next, completions, ending⟩ := stretch world.bare
      cases ending <;> rfl

theorem stepBody_ended {plugin : Callable} {body : Body σ} {world final : World (Recorded σ)}
    {outcome : Outcome Slot}
    (h : stepBody world (body.map (Stretch.recorded plugin)) = (final, .inl outcome)) :
    stepBody world.bare body = (final.bare, .inl outcome) ∧ final.calls = world.calls := by
  obtain ⟨deeds, hDeeds, hStep⟩ := stepBody_recorded plugin body world
  rw [h] at hStep
  cases hBare : stepBody world.bare body with
  | mk next left =>
    rw [hBare] at hStep
    obtain ⟨rfl, hOutcome⟩ := Prod.mk.inj hStep
    cases left with
    | inl ended =>
      cases hOutcome
      exact ⟨rfl, hDeeds⟩
    | inr left => cases hOutcome

theorem stepBody_suspended {plugin : Callable} {body : Body σ} {world next : World (Recorded σ)}
    {rest : Body (Recorded σ)}
    (h : stepBody world (body.map (Stretch.recorded plugin)) = (next, .inr rest)) :
    ∃ left : Body σ, rest = left.map (Stretch.recorded plugin) ∧
      stepBody world.bare body = (next.bare, .inr left) ∧ next.calls = world.calls := by
  obtain ⟨deeds, hDeeds, hStep⟩ := stepBody_recorded plugin body world
  rw [h] at hStep
  cases hBare : stepBody world.bare body with
  | mk after left =>
    rw [hBare] at hStep
    obtain ⟨rfl, hRest⟩ := Prod.mk.inj hStep
    cases left with
    | inl ended => cases hRest
    | inr left => exact ⟨left, Sum.inr.inj hRest, rfl, hDeeds⟩

/-! ## Calls -/

variable {conduct : Conduct σ} {plugin : Callable} {tree : Slot} {world : World (Recorded σ)}

theorem calls_plugin (conduct : Conduct σ) (plugin : Callable) (tree : Slot)
    (world : World (Recorded σ)) :
    (conduct.recorded.plugin plugin tree world).world.calls =
      world.calls ++ [⟨plugin, tree, world.bare⟩] :=
  List.filterMap_append

theorem outcome_of_recorded_error {fault : Fault}
    (h : (conduct.recorded.plugin plugin tree world).outcome = .error fault) :
    (conduct.plugin plugin tree world.bare).outcome = .error fault := by
  simp only [Conduct.recorded] at h
  cases hOutcome : (conduct.plugin plugin tree world.bare).outcome with
  | error other =>
    rw [hOutcome] at h
    exact congrArg Except.error (Except.error.inj h)
  | ok returned =>
    rw [hOutcome] at h
    cases h

theorem outcome_of_recorded_ok {returned : Returned (Recorded σ)}
    (h : (conduct.recorded.plugin plugin tree world).outcome = .ok returned) :
    ∃ original : Returned σ, (conduct.plugin plugin tree world.bare).outcome = .ok original ∧
      original.recorded plugin = returned := by
  simp only [Conduct.recorded] at h
  cases hOutcome : (conduct.plugin plugin tree world.bare).outcome with
  | error fault =>
    rw [hOutcome] at h
    cases h
  | ok original =>
    rw [hOutcome] at h
    exact ⟨original, rfl, Except.ok.inj h⟩

theorem body?_recorded {returned : Returned σ} {body : Body (Recorded σ)}
    (h : (returned.recorded plugin).body? = some body) :
    ∃ original, returned.body? = some original ∧ body = original.map (Stretch.recorded plugin) := by
  cases returned with
  | coroutine original | awaitable original => exact ⟨original, rfl, (Option.some.inj h).symm⟩
  | value | loopFuture | poolFuture => cases h

theorem isPending_of_recorded {returned : Returned σ} (h : (returned.recorded plugin).IsPending) :
    returned.IsPending := by
  cases returned with
  | value | coroutine | awaitable => cases h
  | loopFuture state cancel =>
    cases h
    exact .loop cancel
  | poolFuture state cancel =>
    cases h
    exact .pool cancel

theorem Chain.Answers.of_recorded {final : World (Recorded σ)} {kind : PluginKind}
    {outcome : Outcome Slot} (h : Answers conduct.recorded plugin tree world final kind outcome) :
    Answers conduct plugin tree world.bare final.bare kind outcome ∧
      final.calls = world.calls ++ [⟨plugin, tree, world.bare⟩] := by
  cases h with
  | raised hOutcome =>
    exact ⟨.raised (outcome_of_recorded_error hOutcome), calls_plugin conduct plugin tree world⟩
  | value hOutcome =>
    obtain ⟨original, hOriginal, hSame⟩ := outcome_of_recorded_ok hOutcome
    cases original <;> cases hSame
    exact ⟨.value hOriginal, calls_plugin conduct plugin tree world⟩
  | body hOutcome hBody hStep =>
    obtain ⟨original, hOriginal, rfl⟩ := outcome_of_recorded_ok hOutcome
    obtain ⟨body, hReturned, rfl⟩ := body?_recorded hBody
    obtain ⟨hEnded, hCalls⟩ := stepBody_ended hStep
    exact ⟨.body hOriginal hReturned hEnded, hCalls.trans (calls_plugin conduct plugin tree world)⟩
  | future hOutcome =>
    obtain ⟨original, hOriginal, hSame⟩ := outcome_of_recorded_ok hOutcome
    cases original <;> cases hSame
    exact ⟨.future hOriginal, calls_plugin conduct plugin tree world⟩

end Hypertext
