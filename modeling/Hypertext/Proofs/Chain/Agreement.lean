import Hypertext.Proofs.Chain.Behaviour
import Hypertext.Proofs.Chain.Schedule

/-! # Agreement of manners

A chain on a loop, with plugins that complete in any manners, does what a blocking run does with the
plain versions of the same plugins. Both call the plugins with the same trees and in the same
stores, up to the same one, and end with the same outcome; only the log and the timings tell the
manners apart.
-/

namespace Hypertext

set_option autoImplicit false

open Chain

variable {τ : Type}

/-! ## Worlds that differ in the log -/

/-- Worlds that plugins cannot tell apart. -/
structure Alike (world other : World (Stage τ)) : Prop where
  store : world.store = other.store
  scene : world.scene = other.scene

namespace Alike

variable {world other : World (Stage τ)}

theorem takeSteps (tree : Slot) (steps : List (EffectStep τ)) (h : Alike world other) :
    Alike (takeSteps tree steps world) (takeSteps tree steps other) := by
  induction steps generalizing world other with
  | nil => exact h
  | cons step steps ih =>
    apply ih
    have hState : world.state = other.state := by
      rw [World.state, World.state, h.store, h.scene]
    constructor
    · simp only [World.change, hState]
    · simp only [World.change, hState, h.scene]

theorem play (player : Player τ) (position : Nat) (tree : Slot) (h : Alike world other) :
    Alike (player.play position tree world).1 (player.play position tree other).1 ∧
      (player.play position tree world).2 = (player.play position tree other).2 := by
  have hVisit : Alike (world.visit position tree) (other.visit position tree) := by
    constructor
    · exact h.store
    · simp only [World.visit, h.store, h.scene]
  have hSteps := hVisit.takeSteps tree player.behaviour.steps
  have hState := congrArg₂ Prod.mk hSteps.store (congrArg Stage.scene hSteps.scene)
  change World.state _ = World.state _ at hState
  refine ⟨⟨?_, ?_⟩, ?_⟩
  · simp only [Player.play, Behaviour.conclude, World.change, hState]
  · simp only [Player.play, Behaviour.conclude, World.change, hState, hSteps.scene]
  · simp only [Player.play, Behaviour.conclude, hState]

theorem normalize (candidate previous : Slot) (options : OptionsRef) (logger : Logger)
    (h : Alike world other) :
    (normalize world candidate previous options (some logger)).1 =
        (normalize other candidate previous options (some logger)).1 ∧
      Alike (normalize world candidate previous options (some logger)).2
        (normalize other candidate previous options (some logger)).2 := by
  simp only [Hypertext.normalize, h.store]
  split
  · exact ⟨rfl, h⟩
  · split
    · exact ⟨rfl, rfl, h.scene⟩
    · exact ⟨rfl, h.store, h.scene⟩

end Alike

/-! ## One plugin -/

theorem takeSteps_visits (tree : Slot) (steps : List (EffectStep τ)) (world : World (Stage τ)) :
    (takeSteps tree steps world).scene.visits = world.scene.visits := by
  induction steps generalizing world with
  | nil => rfl
  | cons step steps ih => exact ih (world.change (step tree world.state))

theorem completed_scene (context : Context) (plugin : Callable) (index : Nat) (tree : Slot)
    (metrics : Metrics) (kind : PluginKind) (result : Slot) (world : World (Stage τ)) :
    (completed context plugin index tree metrics kind result world).2.2.scene = world.scene := by
  simp only [completed, recordPlugin, World.write, normalize]
  split
  · rfl
  · split <;> rfl

theorem completed_alike (context : Context) (plugin plain : Callable) (index : Nat) (tree : Slot)
    (metrics metrics' : Metrics) (kind kind' : PluginKind) (result : Slot)
    {world other : World (Stage τ)} (hName : plain.displayName = plugin.displayName)
    (h : Alike world other) :
    (completed context plugin index tree metrics kind result world).1 =
        (completed context plain index tree metrics' kind' result other).1 ∧
      Alike (completed context plugin index tree metrics kind result world).2.2
        (completed context plain index tree metrics' kind' result other).2.2 := by
  obtain ⟨hNext, hWorld⟩ := h.normalize result tree context.options
    (context.pluginLogger plugin.displayName index)
  simp only [completed, hName]
  exact ⟨hNext, hWorld.store, hWorld.scene⟩

namespace Player

theorem play_visits (player : Player τ) (position : Nat) (tree : Slot) (world : World (Stage τ)) :
    (player.play position tree world).1.scene.visits =
      world.scene.visits ++ [⟨position, tree, world.store⟩] :=
  takeSteps_visits tree player.behaviour.steps (world.visit position tree)

theorem runFrom_cons (base : Conduct (Stage τ)) (context : Context) {players : List (Player τ)}
    {index : Nat} {player : Player τ} (hPlayer : players[index]? = some player.toPlain)
    (rest : List Callable) (tree : Slot) (metrics : Metrics) (world : World (Stage τ)) :
    Blocking.runFrom (conduct base players) context (player.toPlain.placed index :: rest) index tree
        metrics world =
      match (player.play index tree world).2 with
      | .exception className message =>
        ⟨(player.play index tree world).1, metrics, .error (.raised (.plain className message))⟩
      | .result slot =>
        let (next, metrics, world) := completed context (player.toPlain.placed index) index tree
          metrics .sync slot (player.play index tree world).1
        Blocking.runFrom (conduct base players) context rest (index + 1) next metrics world := by
  have hDeclared : (player.toPlain.placed index).declaredKind = .sync := player.plain_fits
  have hCall : (conduct base players).plugin (player.toPlain.placed index) tree world =
      ⟨(player.play index tree world).1, [],
        (player.play index tree world).2.outcome.map .value⟩ := conduct_plugin base hPlayer tree world
  rw [Blocking.runFrom]
  simp only [hDeclared, hCall]
  cases (player.play index tree world).2 with
  | result slot => rfl
  | exception className message => rfl

def timing (index : Nat) (player : Player τ) : Timing :=
  ⟨player.callable.displayName, index, player.manner.kind.label, .int 0⟩

def timings : Nat → List (Player τ) → List Timing
  | _, [] => []
  | index, player :: rest => player.timing index :: timings (index + 1) rest

/-! ## Chains of plugins -/

/-- A chain of players and one of their plain versions have ended alike: the same players were
called, in order and with the same trees, and the same of them have completed. -/
structure Agree (index : Nat) (players : List (Player τ)) (visits : List Visit)
    (metrics metrics' : Metrics) (chain plain : ChainEnd (Stage τ)) : Prop where
  outcome : chain.outcome = plain.outcome
  alike : Alike chain.world plain.world
  counts : ∃ called count, called ≤ players.length ∧ count ≤ called ∧ called ≤ count + 1 ∧
    chain.world.scene.visits.map Visit.position =
      visits.map Visit.position ++ List.range' index called ∧
    chain.metrics = (timings index (players.take count)).foldl Metrics.add metrics ∧
    plain.metrics = (timings index ((players.take count).map toPlain)).foldl Metrics.add metrics'

theorem Agree.cons {index : Nat} {player : Player τ} {rest : List (Player τ)}
    {visits visits' : List Visit} {metrics metrics' : Metrics} {chain plain : ChainEnd (Stage τ)}
    (hVisits : visits'.map Visit.position = visits.map Visit.position ++ [index])
    (h : Agree (index + 1) rest visits' (metrics.add (player.timing index))
      (metrics'.add (player.toPlain.timing index)) chain plain) :
    Agree index (player :: rest) visits metrics metrics' chain plain := by
  obtain ⟨hOutcome, hAlike, called, count, hCalled, hCount, hLess, hPositions, hMetrics,
    hMetrics'⟩ := h
  refine ⟨hOutcome, hAlike, called + 1, count + 1, Nat.succ_le_succ hCalled,
    Nat.succ_le_succ hCount, Nat.succ_le_succ hLess, ?_, hMetrics, hMetrics'⟩
  rw [hPositions, hVisits, List.append_assoc, List.range'_succ, List.singleton_append]

theorem exists_ends (base : Conduct (Stage τ)) (context : Context)
    {players before rest : List (Player τ)} {index : Nat} (tree : Slot) (metrics metrics' : Metrics)
    {world other : World (Stage τ)} (hPlayers : players = before ++ rest)
    (hIndex : before.length = index) (hAlike : Alike world other) :
    ∃ chain, Ends (conduct base players) (threads players) context (callables index rest) index tree
        metrics world chain ∧
      Agree index rest world.scene.visits metrics metrics' chain
        (Blocking.runFrom (conduct base (players.map toPlain)) context
          (callables index (rest.map toPlain)) index tree metrics' other) := by
  induction rest generalizing before index tree metrics metrics' world other with
  | nil =>
    exact ⟨_, .done, rfl, hAlike, 0, 0, Nat.le_refl 0, Nat.le_refl 0, Nat.zero_le 1,
      (List.append_nil _).symm, rfl, rfl⟩
  | cons player rest ih =>
    have hPlayer : players[index]? = some player := by
      rw [hPlayers, ← hIndex, List.getElem?_append_right (Nat.le_refl _), Nat.sub_self,
        List.getElem?_cons_zero]
    have hPlain : (players.map toPlain)[index]? = some player.toPlain := by
      rw [List.getElem?_map, hPlayer, Option.map_some]
    have hComes := comes base hPlayer tree world
    have hVisits : (player.play index tree world).1.scene.visits.map Visit.position =
        world.scene.visits.map Visit.position ++ [index] := by
      rw [play_visits, List.map_append]
      rfl
    obtain ⟨hFinal, hVerdict⟩ := hAlike.play player index tree
    rw [List.map_cons, callables, callables, runFrom_cons base context hPlain, ← hVerdict]
    cases hJudged : (player.play index tree world).2 with
    | exception className message =>
      rw [hJudged] at hComes
      exact ⟨_, .failed hComes, rfl, hFinal, 1, 0, Nat.succ_le_succ (Nat.zero_le _), Nat.zero_le 1,
        Nat.le_refl 1, hVisits, rfl, rfl⟩
    | result slot =>
      rw [hJudged] at hComes
      obtain ⟨hNext, hWorld⟩ := completed_alike context (player.placed index)
        (player.toPlain.placed index) index tree metrics metrics' player.manner.kind .sync slot
        player.plain_name hFinal
      have hLater : players = (before ++ [player]) ++ rest := by
        rw [hPlayers, List.append_assoc, List.singleton_append]
      have hLength : (before ++ [player]).length = index + 1 := by
        rw [List.length_append, hIndex, List.length_singleton]
      obtain ⟨chain, hEnds, hAgree⟩ := ih _ (metrics.add (player.timing index))
        (metrics'.add (player.toPlain.timing index)) hLater hLength hWorld
      refine ⟨chain, .next hComes hEnds, ?_⟩
      rw [hNext, completed_scene] at hAgree
      exact hAgree.cons hVisits

theorem exists_runs (base : Conduct (Stage τ)) (context : Context) (players : List (Player τ))
    (tree : Slot) (metrics : Metrics) (world : World (Stage τ)) :
    ∃ chain, Runs (conduct base players) (threads players) context (callables 0 players) tree
        metrics world chain ∧
      Agree 0 players world.scene.visits metrics metrics chain
        (Blocking.run (conduct base (players.map toPlain)) context
          (callables 0 (players.map toPlain)) tree metrics world) := by
  rw [Blocking.run]
  cases hAttach : world.store.attach tree (some context.options) with
  | mk attached store =>
    cases attached with
    | error fault =>
      refine ⟨⟨world, metrics, .error fault⟩, ?_, rfl, ⟨rfl, rfl⟩, 0, 0, Nat.zero_le _,
        Nat.le_refl 0, Nat.zero_le 1, (List.append_nil _).symm, rfl, rfl⟩
      rw [Runs, hAttach]
    | ok attached =>
      obtain ⟨chain, hEnds, hAgree⟩ := @exists_ends _ base context players [] players 0 attached
        metrics metrics (world.withStore store) _ (List.nil_append _).symm rfl ⟨rfl, rfl⟩
      refine ⟨chain, ?_, hAgree⟩
      rw [Runs, hAttach]
      exact hEnds

end Player

end Hypertext
