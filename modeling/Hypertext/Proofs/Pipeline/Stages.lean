import Hypertext.Pipeline.Processing

/-! # What the stages of a run do to the world

Apart from collaborators that are called, the stages of a run before and after its chain change only
the store and the log. A relation between worlds that holds whatever becomes of those two, and when a
collaborator has been called, holds along these stages.
-/

namespace Hypertext

set_option autoImplicit false

variable {σ : Type}

def World.made : World Unit :=
  let (defaults, store) := Store.empty.newOptions .default
  ⟨store, [], .make defaults none, ()⟩

theorem Brief.exists_overridden {conduct : Conduct σ} {brief : Brief} {world next : World σ}
    {context : Context} (h : brief.context conduct world = .ok (context, next)) :
    ∃ base named options, brief.base = .inl base ∧
      Brief.namedOverrides (brief.viewedOverrides world.store) = .ok named ∧
      (world.store.getOptions base).override named = .ok options ∧
      context.options = (world.store.newOptions options).1 ∧
      next = world.withStore (world.store.newOptions options).2 := by
  unfold Brief.context at h
  split at h
  · cases h
  · rename_i base hBase
    obtain ⟨named, hNamed, hNext⟩ := Outcome.bind_eq_ok.mp h
    obtain ⟨options, hOptions, hMade⟩ := Outcome.bind_eq_ok.mp hNext
    cases hMade
    exact ⟨base, named, options, hBase, hNamed, hOptions, rfl, rfl⟩

theorem Brief.exists_newOptions {conduct : Conduct σ} {brief : Brief} {world next : World σ}
    {context : Context} (h : brief.context conduct world = .ok (context, next)) :
    ∃ options, context.options = (world.store.newOptions options).1 ∧
      next = world.withStore (world.store.newOptions options).2 := by
  obtain ⟨_, _, options, -, -, -, hHandle, hNext⟩ := Brief.exists_overridden h
  exact ⟨options, hHandle, hNext⟩

structure Stages (conduct : Conduct σ) (Leads : World σ → World σ → Prop) : Prop where
  trans : ∀ {first second third}, Leads first second → Leads second third → Leads first third
  change : ∀ (world : World σ) store log, Leads world { world with store, log }
  collaborator : ∀ collaborator subject options world,
    Leads world (conduct.collaborator collaborator subject options world).2

namespace Stages

open Processing

variable {conduct : Conduct σ} {Leads : World σ → World σ → Prop}
  {world : World σ}

theorem refl (h : Stages conduct Leads) (world : World σ) : Leads world world :=
  h.change world world.store world.log

theorem briefContext (h : Stages conduct Leads) {brief : Brief} {context : Context} {next : World σ}
    (hContext : brief.context conduct world = .ok (context, next)) : Leads world next := by
  obtain ⟨options, -, rfl⟩ := Brief.exists_newOptions hContext
  exact h.change world _ _

theorem callCollaborator (h : Stages conduct Leads) (collaborator : Value) (subject : Slot)
    (options : OptionsRef) (world : World σ) :
    Leads world (callCollaborator conduct collaborator subject options world).2 := by
  unfold Processing.callCollaborator
  split
  · exact h.collaborator _ _ _ _
  · exact h.refl world

theorem readSource (h : Stages conduct Leads) (context : Context) (source : Slot) (world : World σ) :
    Leads world (readSource conduct context source world).2 := by
  have hParse : Leads world (parseSource conduct.files source context.options context.correlationId
      world).2 := by
    rw [parseSource]
    split
    · exact h.refl world
    · exact h.change world _ _
  unfold Processing.readSource
  dsimp only
  split
  · exact h.refl world
  · split
    · exact hParse
    · exact h.callCollaborator _ _ _ _

theorem loadTree (h : Stages conduct Leads) (context : Context) (source : Slot) (world : World σ) :
    Leads world (loadTree conduct context source world).2 := by
  have hRead := h.readSource context source world
  unfold Processing.loadTree
  split
  · rename_i next hLoaded
    rw [hLoaded] at hRead
    exact hRead
  · rename_i next hLoaded
    rw [hLoaded] at hRead
    exact h.trans hRead (h.change next _ _)

theorem writeTree (h : Stages conduct Leads) (context : Context) (tree : Slot) (world : World σ) :
    Leads world (writeTree conduct context tree world).2 := by
  have hRender (handle : OptionsRef) :
      Leads world (renderTree conduct.depth tree handle context.correlationId world).2 := by
    rw [renderTree]
    split
    · exact h.refl world
    · exact h.change world _ _
  unfold Processing.writeTree
  split
  · exact h.refl world
  · dsimp only
    split
    · exact h.refl world
    · split
      · exact hRender _
      · exact h.callCollaborator _ _ _ _

theorem finish (h : Stages conduct Leads) (context : Context) (tree : Slot) (metrics : Metrics)
    (world : World σ) :
    Leads world (finish conduct context tree metrics world).2 := by
  have hWrite := h.writeTree context tree world
  unfold Processing.finish
  split
  all_goals
    rename_i next hRendered
    rw [hRendered] at hWrite
    exact hWrite

end Stages

end Hypertext
