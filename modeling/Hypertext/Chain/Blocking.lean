import Hypertext.Chain.Conduct
import Hypertext.Chain.Metrics

/-! # Blocking runs

Every plugin is called in turn and must complete with its call. One that is known to complete
later is refused without being called; one that turns out to is let go of and refused.
-/

namespace Hypertext

set_option autoImplicit false

variable {σ : Type}

/-- Notes that the plugin at a position completed. -/
def recordPlugin (world : World σ) (metrics : Metrics) (logger : Logger) (name : String)
    (index : Nat) (kind : PluginKind) : World σ × Metrics :=
  (world.write logger .debug "Plugin completed" [("kind", .str kind.label)] none,
    metrics.add ⟨name, index, kind.label, .int 0⟩)

structure ChainEnd (σ : Type) where
  world : World σ
  metrics : Metrics
  outcome : Outcome Slot

namespace Blocking

def runFrom (conduct : Conduct σ) (context : Context) :
    List Callable → Nat → Slot → Metrics → World σ → ChainEnd σ
  | [], _, tree, metrics, world => ⟨world, metrics, .ok tree⟩
  | plugin :: rest, index, tree, metrics, world =>
    let name := plugin.displayName
    let logger := context.pluginLogger name index
    match plugin.declaredKind with
    | .sync =>
      let call := conduct.plugin plugin tree world
      match call.outcome with
      | .error fault => ⟨call.world, metrics, .error fault⟩
      | .ok (.value result) =>
        let (next, world) := normalize call.world result tree context.options (some logger)
        let (world, metrics) := recordPlugin world metrics logger name index .sync
        runFrom conduct context rest (index + 1) next metrics world
      | .ok thenable =>
        let world := (thenable.discard call.world).write logger .warning
          "Plugin returned an awaitable in sync mode" [] none
        ⟨world, metrics, .error (.modeViolation name)⟩
    | kind =>
      ⟨world.write logger .warning "Async plugin rejected in sync mode"
        [("kind", .str kind.label)] none, metrics, .error (.modeViolation name)⟩

def run (conduct : Conduct σ) (context : Context) (plugins : List Callable) (tree : Slot)
    (metrics : Metrics) (world : World σ) : ChainEnd σ :=
  match world.store.attach tree (some context.options) with
  | (.error fault, _) => ⟨world, metrics, .error fault⟩
  | (.ok tree, store) => runFrom conduct context plugins 0 tree metrics (world.withStore store)

end Blocking

end Hypertext
