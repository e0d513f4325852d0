import Hypertext.Proofs.Chain.Course
import Mathlib.Logic.Basic

/-! # Behaviours and manners

A behaviour is what a plugin does with the tree it is handed: it takes some steps and comes to a
verdict. A manner is how the plugin completes, and when it takes the steps: the first of them may be
taken in the call, and a coroutine may be suspended anywhere between the others. Whatever the
manner, a call of the plugin comes to the world after all steps, and to the verdict.
-/

namespace Hypertext

set_option autoImplicit false

open Chain

variable {τ : Type}

/-- What a plugin is handed: a tree, and the store that says what the tree holds. -/
structure Visit where
  position : Nat
  tree : Slot
  store : Store

structure Stage (τ : Type) where
  visits : List Visit
  scene : τ

namespace World

def visit (world : World (Stage τ)) (position : Nat) (tree : Slot) : World (Stage τ) :=
  { world with
    scene :=
      { world.scene with visits := world.scene.visits ++ [⟨position, tree, world.store⟩] } }

def change (world : World (Stage τ)) (state : Store × τ) : World (Stage τ) :=
  { world with store := state.1, scene := { world.scene with scene := state.2 } }

def state (world : World (Stage τ)) : Store × τ := (world.store, world.scene.scene)

end World

/-! ## Behaviours -/

/-- What a plugin comes to. An exception is one of a class that coroutines and futures pass on as it
is, and counts as true. -/
inductive Verdict where
  | result (slot : Slot)
  | exception (className message : String)

namespace Verdict

def outcome : Verdict → Outcome Slot
  | result slot => .ok slot
  | exception className message => .error (.raised (.plain className message))

def completion : Verdict → Completion
  | result slot => ⟨.none, slot⟩
  | exception className message => ⟨.atom (.failure (.plain className message)), .none⟩

theorem outcome?_completion (verdict : Verdict) (store : Store) (plugin : String) :
    verdict.completion.outcome? store plugin = some verdict.outcome := by
  cases verdict <;> rfl

theorem awaited_outcome (verdict : Verdict) : verdict.outcome.awaited = verdict.outcome := by
  cases verdict <;> rfl

theorem transferred?_outcome (verdict : Verdict) :
    verdict.outcome.transferred? = some verdict.outcome := by
  cases verdict <;> rfl

end Verdict

abbrev EffectStep (τ : Type) := Slot → Store × τ → Store × τ

def takeSteps (tree : Slot) (steps : List (EffectStep τ)) (world : World (Stage τ)) :
    World (Stage τ) :=
  steps.foldl (fun world step => world.change (step tree world.state)) world

structure Behaviour (τ : Type) where
  steps : List (EffectStep τ)
  judge : Slot → Store × τ → (Store × τ) × Verdict

namespace Behaviour

def conclude (behaviour : Behaviour τ) (tree : Slot) (steps : List (EffectStep τ))
    (world : World (Stage τ)) : World (Stage τ) × Verdict :=
  let world := takeSteps tree steps world
  let (state, verdict) := behaviour.judge tree world.state
  (world.change state, verdict)

theorem conclude_drop (behaviour : Behaviour τ) (tree : Slot) (steps : List (EffectStep τ))
    (count : Nat) (world : World (Stage τ)) :
    behaviour.conclude tree (steps.drop count) (takeSteps tree (steps.take count) world) =
      behaviour.conclude tree steps world := by
  have hSteps : takeSteps tree (steps.drop count) (takeSteps tree (steps.take count) world) =
      takeSteps tree steps world := by
    rw [takeSteps, takeSteps, ← List.foldl_append, List.take_append_drop]
    rfl
  rw [conclude, hSteps]
  rfl

/-- A coroutine that takes so many steps in each of its stretches, and the others in the last. -/
def yielding (behaviour : Behaviour τ) (tree : Slot) :
    List Nat → List (EffectStep τ) → Body (Stage τ)
  | [], steps =>
    [fun world =>
      let (world, verdict) := behaviour.conclude tree steps world
      (world, [], some verdict.outcome)]
  | count :: counts, steps =>
    (fun world => (takeSteps tree (steps.take count) world, [], none)) ::
      yielding behaviour tree counts (steps.drop count)

theorem yields (behaviour : Behaviour τ) (tree : Slot) (counts : List Nat)
    (steps : List (EffectStep τ)) (world : World (Stage τ)) :
    Yields (behaviour.yielding tree counts steps) world (behaviour.conclude tree steps world).1
      (behaviour.conclude tree steps world).2.outcome := by
  induction counts generalizing steps world with
  | nil => exact .last rfl
  | cons count counts ih =>
    refine .later rfl ?_
    rw [← behaviour.conclude_drop tree steps count world]
    exact ih (steps.drop count) _

/-- The end of a coroutine that is suspended some more times. -/
def resting : Nat → Body (Stage τ)
  | 0 => []
  | 1 => [fun world => (world, [], some (.ok .none))]
  | count + 2 => (fun world => (world, [], none)) :: resting (count + 1)

theorem rests_of_mem_resting (count : Nat) :
    ∀ stretch ∈ (resting count : Body (Stage τ)), Rests stretch := by
  fun_induction resting count with
  | case1 =>
    intro stretch hStretch
    cases hStretch
  | case2 =>
    intro stretch hStretch
    rw [List.mem_singleton.mp hStretch]
    exact fun world => Or.inr ⟨.none, rfl⟩
  | case3 count ih =>
    intro stretch hStretch
    rcases List.mem_cons.mp hStretch with rfl | hStretch
    · exact fun world => Or.inl rfl
    · exact ih stretch hStretch

/-- A coroutine that reports the verdict to the completion callback in the last stretch that takes
steps. -/
def delivering (behaviour : Behaviour τ) (tree : Slot) (idle : Nat) :
    List Nat → List (EffectStep τ) → Body (Stage τ)
  | [], steps =>
    (fun world =>
      let (world, verdict) := behaviour.conclude tree steps world
      (world, [verdict.completion], if idle = 0 then some (.ok .none) else none)) :: resting idle
  | count :: counts, steps =>
    (fun world => (takeSteps tree (steps.take count) world, [], none)) ::
      delivering behaviour tree idle counts (steps.drop count)

theorem delivers (behaviour : Behaviour τ) (tree : Slot) (idle : Nat) (counts : List Nat)
    (steps : List (EffectStep τ)) (world : World (Stage τ)) :
    Delivers (behaviour.delivering tree idle counts steps) world
      (behaviour.conclude tree steps world).1
      (behaviour.conclude tree steps world).2.completion := by
  induction counts generalizing steps world with
  | nil =>
    refine .now rfl ?_ (rests_of_mem_resting idle)
    intro outcome hOutcome
    split at hOutcome
    · exact ⟨.none, (Option.some.inj hOutcome).symm⟩
    · cases hOutcome
  | cons count counts ih =>
    refine .later rfl ?_
    rw [← behaviour.conclude_drop tree steps count world]
    exact ih (steps.drop count) _

end Behaviour

/-! ## Manners -/

/-- How a plugin completes. The numbers say how many steps are taken in the call and in the
stretches of a coroutine, and how often a coroutine is suspended when it has called its callback. -/
inductive Manner where
  | plain
  | callback
  | callbackThread (early : Nat)
  | callbackBody (early : Nat) (counts : List Nat) (idle : Nat)
  | coroutineFunction (counts : List Nat)
  | coroutine (early : Nat) (counts : List Nat)
  | awaitable (early : Nat) (counts : List Nat)
  | loopFuture
  | poolFuture

namespace Manner

def declared : Manner → PluginKind
  | callback | callbackThread _ | callbackBody _ _ _ => .callback
  | coroutineFunction _ => .thenable
  | _ => .sync

def kind : Manner → PluginKind
  | plain => .sync
  | callback | callbackThread _ | callbackBody _ _ _ => .callback
  | _ => .thenable

end Manner

/-- A plugin with a behaviour and a manner, as one that can be called and as a plain one. -/
structure Player (τ : Type) where
  behaviour : Behaviour τ
  manner : Manner
  callable : Callable
  fits : callable.declaredKind = manner.declared
  plain : Callable
  plain_fits : plain.declaredKind = .sync
  plain_name : plain.displayName = callable.displayName

namespace Player

def toPlain (player : Player τ) : Player τ :=
  ⟨player.behaviour, .plain, player.plain, player.plain_fits, player.plain, player.plain_fits, rfl⟩

def play (player : Player τ) (position : Nat) (tree : Slot) (world : World (Stage τ)) :
    World (Stage τ) × Verdict :=
  player.behaviour.conclude tree player.behaviour.steps (world.visit position tree)

def call (player : Player τ) (position : Nat) (tree : Slot) (world : World (Stage τ)) :
    PluginCall (Stage τ) :=
  let steps := player.behaviour.steps
  let visited := world.visit position tree
  let early (count : Nat) : World (Stage τ) := takeSteps tree (steps.take count) visited
  let (final, verdict) := player.play position tree world
  match player.manner with
  | .plain => ⟨final, [], verdict.outcome.map .value⟩
  | .callback => ⟨final, [verdict.completion], .ok (.value .none)⟩
  | .callbackThread count => ⟨early count, [], .ok (.value .none)⟩
  | .callbackBody count counts idle =>
    ⟨early count, [],
      .ok (.coroutine (player.behaviour.delivering tree idle counts (steps.drop count)) id)⟩
  | .coroutineFunction counts =>
    ⟨visited, [], .ok (.coroutine (player.behaviour.yielding tree counts steps) id)⟩
  | .coroutine count counts =>
    ⟨early count, [],
      .ok (.coroutine (player.behaviour.yielding tree counts (steps.drop count)) id)⟩
  | .awaitable count counts =>
    ⟨early count, [], .ok (.awaitable (player.behaviour.yielding tree counts (steps.drop count)))⟩
  | .loopFuture => ⟨final, [], .ok (.loopFuture (.settled verdict.outcome) id)⟩
  | .poolFuture => ⟨final, [], .ok (.poolFuture (.settled verdict.outcome) id)⟩

def thread? (player : Player τ) :
    Option (Slot → World (Stage τ) → World (Stage τ) × Completion) :=
  match player.manner with
  | .callbackThread count =>
    some fun tree world =>
      let (world, verdict) :=
        player.behaviour.conclude tree (player.behaviour.steps.drop count) world
      (world, verdict.completion)
  | _ => none

def placed (player : Player τ) (position : Nat) : Callable :=
  { player.callable with handle := position }

def callables : Nat → List (Player τ) → List Callable
  | _, [] => []
  | position, player :: rest => player.placed position :: callables (position + 1) rest

def conduct (base : Conduct (Stage τ)) (players : List (Player τ)) : Conduct (Stage τ) :=
  { base with
    plugin := fun callable tree world =>
      match players[callable.handle]? with
      | some player => player.call callable.handle tree world
      | none => base.plugin callable tree world }

def threads (players : List (Player τ)) : Threads (Stage τ) := fun callable =>
  players[callable.handle]?.bind thread?

theorem conduct_plugin (base : Conduct (Stage τ)) {players : List (Player τ)} {position : Nat}
    {player : Player τ} (hPlayer : players[position]? = some player) (tree : Slot)
    (world : World (Stage τ)) :
    (conduct base players).plugin (player.placed position) tree world =
      player.call position tree world := by
  simp only [conduct, placed, hPlayer]

/-- In every manner a call of a player comes to what the player plays. -/
theorem comes (base : Conduct (Stage τ)) {players : List (Player τ)} {position : Nat}
    {player : Player τ} (hPlayer : players[position]? = some player) (tree : Slot)
    (world : World (Stage τ)) :
    Comes (conduct base players) (threads players) (player.placed position) tree world
      player.manner.kind (player.play position tree world).1
      (player.play position tree world).2.outcome := by
  have hCall := conduct_plugin base hPlayer tree world
  have hFits : (player.placed position).declaredKind = player.manner.declared := player.fits
  have hOther : player.manner.declared ≠ .callback →
      (player.placed position).declaredKind ≠ .callback := ne_of_eq_of_ne player.fits
  have hThread : threads players (player.placed position) = player.thread? := by
    simp only [threads, placed, hPlayer, Option.bind_some]
  have hDrop (count : Nat) := player.behaviour.conclude_drop tree player.behaviour.steps count
    (world.visit position tree)
  have hReports (final : World (Stage τ)) := (player.play position tree world).2.outcome?_completion
    final.store player.callable.displayName
  have hAwaited := (player.play position tree world).2.awaited_outcome
  cases hManner : player.manner <;> rw [hManner] at hFits hOther <;>
    simp only [call, hManner] at hCall
  case plain =>
    have hDeclared := hOther nofun
    cases hVerdict : (player.play position tree world).2 with
    | result slot =>
      rw [hVerdict] at hCall
      exact .value hDeclared hCall
    | exception className message =>
      rw [hVerdict] at hCall
      exact .raised hDeclared hCall
  case callback =>
    rw [← hAwaited]
    exact .inCall hFits hCall (hReports _)
  case callbackThread count =>
    simp only [thread?, hManner] at hThread
    rw [← hAwaited]
    refine .inThread hFits hCall hThread ?_ (hReports _)
    simp only [hDrop, play]
  case callbackBody count counts idle =>
    simp only [thread?, hManner] at hThread
    rw [← hAwaited]
    refine .inBody hFits hCall hThread ?_ (hReports _)
    rw [play, ← hDrop count]
    exact player.behaviour.delivers tree idle counts _ _
  case coroutineFunction counts =>
    have hDeclared := hOther nofun
    exact .coroutine hDeclared hCall (player.behaviour.yields tree counts _ _)
  case coroutine count counts =>
    have hDeclared := hOther nofun
    refine .coroutine hDeclared hCall ?_
    rw [play, ← hDrop count]
    exact player.behaviour.yields tree counts _ _
  case awaitable count counts =>
    have hDeclared := hOther nofun
    refine .awaitable hDeclared hCall ?_
    rw [play, ← hDrop count]
    exact player.behaviour.yields tree counts _ _
  case loopFuture =>
    have hDeclared := hOther nofun
    rw [← hAwaited]
    exact .loopFuture hDeclared hCall
  case poolFuture =>
    have hDeclared := hOther nofun
    rw [← hAwaited]
    exact .poolFuture hDeclared hCall (player.play position tree world).2.transferred?_outcome

end Player

end Hypertext
