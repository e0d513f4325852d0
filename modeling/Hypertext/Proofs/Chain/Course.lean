import Hypertext.Chain.Loop

/-! # The course of a chain

A plugin comes to an outcome in one of many ways: in its call, in the stretches of a coroutine, by a
future that is settled, or by its completion callback, which a thread may call as well. What counts
for the chain is the world that the plugin leaves and its outcome; from them the next plugin is
called, up to the first failure or the end of the chain.
-/

namespace Hypertext

set_option autoImplicit false

variable {σ : Type}

namespace Chain

/-! ## What plugins come to -/

/-- What the thread that a plugin started does until it has called the completion callback. -/
abbrev Threads (σ : Type) := Callable → Option (Slot → World σ → World σ × Completion)

inductive Yields : Body σ → World σ → World σ → Outcome Slot → Prop where
  | last {stretch : Stretch σ} {rest : Body σ} {world final : World σ}
    {completions : List Completion} {outcome : Outcome Slot}
    (hStretch : stretch world = (final, completions, some outcome)) :
    Yields (stretch :: rest) world final outcome
  | later {stretch : Stretch σ} {rest : Body σ} {world next final : World σ}
    {completions : List Completion} {outcome : Outcome Slot}
    (hStretch : stretch world = (next, completions, none))
    (hRest : Yields rest next final outcome) : Yields (stretch :: rest) world final outcome

def Rests (stretch : Stretch σ) : Prop :=
  ∀ world, stretch world = (world, [], none) ∨
    ∃ slot, stretch world = (world, [], some (.ok slot))

/-- A coroutine runs until it has called the completion callback, and does nothing after that. -/
inductive Delivers : Body σ → World σ → World σ → Completion → Prop where
  | now {stretch : Stretch σ} {rest : Body σ} {world final : World σ} {completion : Completion}
    {ending : Option (Outcome Slot)}
    (hStretch : stretch world = (final, [completion], ending))
    (hEnding : ∀ outcome, ending = some outcome → ∃ slot, outcome = .ok slot)
    (hRest : ∀ other ∈ rest, Rests other) : Delivers (stretch :: rest) world final completion
  | later {stretch : Stretch σ} {rest : Body σ} {world next final : World σ}
    {completion : Completion} (hStretch : stretch world = (next, [], none))
    (hRest : Delivers rest next final completion) : Delivers (stretch :: rest) world final completion

variable (conduct : Conduct σ) (threads : Threads σ)

/-- What calling a plugin comes to, at once or later: the world with all that it did, and its
outcome. -/
inductive Comes (plugin : Callable) (tree : Slot) (world : World σ) :
    PluginKind → World σ → Outcome Slot → Prop where
  | raised {final : World σ} {completions : List Completion} {fault : Fault}
    (hDeclared : plugin.declaredKind ≠ .callback)
    (hCall : conduct.plugin plugin tree world = ⟨final, completions, .error fault⟩) :
    Comes plugin tree world .sync final (.error fault)
  | value {final : World σ} {completions : List Completion} {slot : Slot}
    (hDeclared : plugin.declaredKind ≠ .callback)
    (hCall : conduct.plugin plugin tree world = ⟨final, completions, .ok (.value slot)⟩) :
    Comes plugin tree world .sync final (.ok slot)
  | coroutine {called final : World σ} {completions : List Completion} {body : Body σ}
    {close : World σ → World σ} {outcome : Outcome Slot}
    (hDeclared : plugin.declaredKind ≠ .callback)
    (hCall : conduct.plugin plugin tree world = ⟨called, completions, .ok (.coroutine body close)⟩)
    (hBody : Yields body called final outcome) : Comes plugin tree world .thenable final outcome
  | awaitable {called final : World σ} {completions : List Completion} {body : Body σ}
    {outcome : Outcome Slot} (hDeclared : plugin.declaredKind ≠ .callback)
    (hCall : conduct.plugin plugin tree world = ⟨called, completions, .ok (.awaitable body)⟩)
    (hBody : Yields body called final outcome) : Comes plugin tree world .thenable final outcome
  | loopFuture {final : World σ} {completions : List Completion} {outcome : Outcome Slot}
    {cancel : World σ → World σ} (hDeclared : plugin.declaredKind ≠ .callback)
    (hCall : conduct.plugin plugin tree world =
      ⟨final, completions, .ok (.loopFuture (.settled outcome) cancel)⟩) :
    Comes plugin tree world .thenable final outcome.awaited
  | poolFuture {final : World σ} {completions : List Completion} {outcome taken : Outcome Slot}
    {cancel : World σ → World σ} (hDeclared : plugin.declaredKind ≠ .callback)
    (hCall : conduct.plugin plugin tree world =
      ⟨final, completions, .ok (.poolFuture (.settled outcome) cancel)⟩)
    (hTaken : outcome.transferred? = some taken) :
    Comes plugin tree world .thenable final taken.awaited
  | inCall {final : World σ} {completion : Completion} {slot : Slot} {outcome : Outcome Slot}
    (hDeclared : plugin.declaredKind = .callback)
    (hCall : conduct.plugin plugin tree world = ⟨final, [completion], .ok (.value slot)⟩)
    (hOutcome : completion.outcome? final.store plugin.displayName = some outcome) :
    Comes plugin tree world .callback final outcome.awaited
  | inThread {called final : World σ} {completion : Completion} {slot : Slot}
    {outcome : Outcome Slot} {thread : Slot → World σ → World σ × Completion}
    (hDeclared : plugin.declaredKind = .callback)
    (hCall : conduct.plugin plugin tree world = ⟨called, [], .ok (.value slot)⟩)
    (hThread : threads plugin = some thread) (hRun : thread tree called = (final, completion))
    (hOutcome : completion.outcome? final.store plugin.displayName = some outcome) :
    Comes plugin tree world .callback final outcome.awaited
  | inBody {called final : World σ} {completion : Completion} {body : Body σ}
    {close : World σ → World σ} {outcome : Outcome Slot}
    (hDeclared : plugin.declaredKind = .callback)
    (hCall : conduct.plugin plugin tree world = ⟨called, [], .ok (.coroutine body close)⟩)
    (hThread : threads plugin = none) (hBody : Delivers body called final completion)
    (hOutcome : completion.outcome? final.store plugin.displayName = some outcome) :
    Comes plugin tree world .callback final outcome.awaited

def completed (context : Context) (plugin : Callable) (index : Nat) (tree : Slot)
    (metrics : Metrics) (kind : PluginKind) (result : Slot) (world : World σ) :
    Slot × Metrics × World σ :=
  let logger := context.pluginLogger plugin.displayName index
  let (next, world) := normalize world result tree context.options (some logger)
  let (world, metrics) := recordPlugin world metrics logger plugin.displayName index kind
  (next, metrics, world)

variable (context : Context)

inductive Ends : List Callable → Nat → Slot → Metrics → World σ → ChainEnd σ → Prop where
  | done {index : Nat} {tree : Slot} {metrics : Metrics} {world : World σ} :
    Ends [] index tree metrics world ⟨world, metrics, .ok tree⟩
  | failed {plugin : Callable} {rest : List Callable} {index : Nat} {tree : Slot}
    {metrics : Metrics} {world final : World σ} {kind : PluginKind} {fault : Fault}
    (hComes : Comes conduct threads plugin tree world kind final (.error fault)) :
    Ends (plugin :: rest) index tree metrics world ⟨final, metrics, .error fault.leaving⟩
  | next {plugin : Callable} {rest : List Callable} {index : Nat} {tree result : Slot}
    {metrics : Metrics} {world final : World σ} {kind : PluginKind} {chain : ChainEnd σ}
    (hComes : Comes conduct threads plugin tree world kind final (.ok result))
    (hRest : Ends rest (index + 1)
      (completed context plugin index tree metrics kind result final).1
      (completed context plugin index tree metrics kind result final).2.1
      (completed context plugin index tree metrics kind result final).2.2 chain) :
    Ends (plugin :: rest) index tree metrics world chain

def Runs (plugins : List Callable) (tree : Slot) (metrics : Metrics) (world : World σ)
    (chain : ChainEnd σ) : Prop :=
  match world.store.attach tree (some context.options) with
  | (.error fault, _) => chain = ⟨world, metrics, .error fault⟩
  | (.ok tree, store) =>
    Ends conduct threads context plugins 0 tree metrics (world.withStore store) chain

/-- How a chain ends when the plugin under way has come to an outcome. -/
def Follows (paused : Paused σ) (world : World σ) (chain : ChainEnd σ) : Outcome Slot → Prop
  | .error fault => chain = ⟨world, paused.metrics, .error fault.leaving⟩
  | .ok result =>
    Ends conduct threads context paused.rest (paused.index + 1)
      (completed context paused.plugin paused.index paused.tree paused.metrics paused.kind result
        world).1
      (completed context paused.plugin paused.index paused.tree paused.metrics paused.kind result
        world).2.1
      (completed context paused.plugin paused.index paused.tree paused.metrics paused.kind result
        world).2.2 chain

variable {conduct : Conduct σ} {threads : Threads σ} {context : Context} {run : Nat}

theorem Ends.first {plugin : Callable} {rest : List Callable} {index : Nat} {tree : Slot}
    {metrics : Metrics} {world : World σ} {chain : ChainEnd σ}
    (h : Ends conduct threads context (plugin :: rest) index tree metrics world chain) :
    ∃ kind final outcome, Comes conduct threads plugin tree world kind final outcome ∧
      ∀ wait, Follows conduct threads context ⟨plugin, rest, index, tree, metrics, kind, wait⟩
        final chain outcome := by
  cases h with
  | failed hComes => exact ⟨_, _, _, hComes, fun _ => rfl⟩
  | next hComes hRest => exact ⟨_, _, _, hComes, fun _ => hRest⟩

end Chain

end Hypertext
