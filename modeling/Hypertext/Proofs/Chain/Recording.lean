import Hypertext.Proofs.Chain.Course

/-! # Recorded conduct

What plugins are made to do is recorded in a scene around their own: every call with the tree and
the world it was made in, every stretch of a coroutine, and every result that was let go of unused.
Plugins do not see the record, and nothing that a chain does of its own enters it.
-/

namespace Hypertext

set_option autoImplicit false

variable {σ : Type}

structure Called (σ : Type) where
  plugin : Callable
  tree : Slot
  world : World σ

inductive Deed (σ : Type) where
  | call (called : Called σ)
  | stretch (plugin : Callable)
  | close (plugin : Callable)
  | cancel (plugin : Callable)

structure Recorded (σ : Type) where
  deeds : List (Deed σ)
  scene : σ

namespace World

def recorded (world : World σ) (deeds : List (Deed σ)) : World (Recorded σ) :=
  ⟨world.store, world.log, world.pipeline, ⟨deeds, world.scene⟩⟩

def bare (world : World (Recorded σ)) : World σ :=
  ⟨world.store, world.log, world.pipeline, world.scene.scene⟩

def deeds (world : World (Recorded σ)) : List (Deed σ) := world.scene.deeds

@[simp] theorem deeds_recorded (world : World σ) (deeds : List (Deed σ)) :
    (world.recorded deeds).deeds = deeds := rfl

@[simp] theorem store_recorded (world : World σ) (deeds : List (Deed σ)) :
    (world.recorded deeds).store = world.store := rfl

@[simp] theorem withStore_recorded (world : World σ) (deeds : List (Deed σ)) (store : Store) :
    (world.recorded deeds).withStore store = (world.withStore store).recorded deeds := rfl

@[simp] theorem write_recorded (world : World σ) (deeds : List (Deed σ)) (logger : Logger)
    (level : LogLevel) (message : String) (extra : Fields) (failure : Option String) :
    (world.recorded deeds).write logger level message extra failure =
      (world.write logger level message extra failure).recorded deeds := rfl

def record (deed : Deed σ) (change : World σ → World σ) (world : World (Recorded σ)) :
    World (Recorded σ) :=
  (change world.bare).recorded (world.deeds ++ [deed])

end World

/-! ## Recording a conduct -/

def Stretch.recorded (plugin : Callable) (stretch : Stretch σ) : Stretch (Recorded σ) :=
  fun world =>
    let (next, completions, ending) := stretch world.bare
    (next.recorded (world.deeds ++ [.stretch plugin]), completions, ending)

namespace Returned

def recorded (plugin : Callable) : Returned σ → Returned (Recorded σ)
  | value slot => .value slot
  | coroutine body close =>
    .coroutine (body.map (Stretch.recorded plugin)) (World.record (.close plugin) close)
  | awaitable body => .awaitable (body.map (Stretch.recorded plugin))
  | loopFuture state cancel => .loopFuture state (World.record (.cancel plugin) cancel)
  | poolFuture state cancel => .poolFuture state (World.record (.cancel plugin) cancel)

def releases (plugin : Callable) : Returned σ → List (Deed σ)
  | value _ | awaitable _ => []
  | coroutine _ _ => [.close plugin]
  | loopFuture _ _ | poolFuture _ _ => [.cancel plugin]

theorem discard_recorded (plugin : Callable) (returned : Returned σ) (world : World σ)
    (deeds : List (Deed σ)) :
    (returned.recorded plugin).discard (world.recorded deeds) =
      (returned.discard world).recorded (deeds ++ returned.releases plugin) := by
  cases returned with
  | value | awaitable => exact congrArg (World.recorded world) (List.append_nil deeds).symm
  | coroutine | loopFuture | poolFuture => rfl

end Returned

namespace Conduct

def recorded (conduct : Conduct σ) : Conduct (Recorded σ) where
  plugin plugin tree world :=
    let call := conduct.plugin plugin tree world.bare
    ⟨call.world.recorded (world.deeds ++ [.call ⟨plugin, tree, world.bare⟩]), call.completions,
      call.outcome.map (Returned.recorded plugin)⟩
  collaborator collaborator subject options world :=
    let (outcome, next) := conduct.collaborator collaborator subject options world.bare
    (outcome, next.recorded world.deeds)
  files := conduct.files
  freshId := conduct.freshId
  depth := conduct.depth

@[simp] theorem plugin_recorded (conduct : Conduct σ) (plugin : Callable) (tree : Slot)
    (world : World σ) (deeds : List (Deed σ)) :
    conduct.recorded.plugin plugin tree (world.recorded deeds) =
      ⟨(conduct.plugin plugin tree world).world.recorded (deeds ++ [.call ⟨plugin, tree, world⟩]),
        (conduct.plugin plugin tree world).completions,
        (conduct.plugin plugin tree world).outcome.map (Returned.recorded plugin)⟩ := rfl

end Conduct

/-! ## What a chain does of its own -/

theorem normalize_recorded (world : World σ) (deeds : List (Deed σ)) (candidate previous : Slot)
    (options : OptionsRef) (logger : Option Logger) :
    normalize (world.recorded deeds) candidate previous options logger =
      ((normalize world candidate previous options logger).1,
        (normalize world candidate previous options logger).2.recorded deeds) := by
  simp only [normalize, World.store_recorded]
  split
  · rfl
  · split
    · rfl
    · split <;> rfl

theorem completed_recorded (context : Context) (plugin : Callable) (index : Nat) (tree : Slot)
    (metrics : Metrics) (kind : PluginKind) (result : Slot) (world : World σ)
    (deeds : List (Deed σ)) :
    Chain.completed context plugin index tree metrics kind result (world.recorded deeds) =
      ((Chain.completed context plugin index tree metrics kind result world).1,
        (Chain.completed context plugin index tree metrics kind result world).2.1,
        (Chain.completed context plugin index tree metrics kind result world).2.2.recorded
          deeds) := by
  simp only [Chain.completed, normalize_recorded, recordPlugin, World.write_recorded]

end Hypertext
