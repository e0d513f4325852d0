import Hypertext.Chain.Loop
import Hypertext.Parse
import Hypertext.Pipeline.Roster
import Hypertext.Tree.Rendering

/-! # Processing a document

A run makes its own options, loads a tree, runs the plugins over it and renders what they leave.
In blocking mode it does so at once; otherwise it becomes a routine for an event loop.
-/

namespace Hypertext

set_option autoImplicit false

variable {σ : Type}

inductive GivenOptions (α : Type := Value) where
  /-- Nothing: the defaults of the pipeline. -/
  | inherit
  /-- Settings that override the defaults. -/
  | settings (entries : List (Value × α))
  /-- Options instead of the defaults. -/
  | object (options : OptionsRef)
  | other (value : Value)

/-- A mapping holds settings, and nothing is nothing given. -/
def GivenOptions.ofValue : Value → GivenOptions
  | .map _ entries => .settings entries
  | .none => .inherit
  | value => .other value

/-- The arguments of a call. A caller has objects for the values of its settings; a script has the
values alone. -/
structure Request (α : Type := Value) where
  source : Slot
  options : GivenOptions α
  overrides : List (Value × α)

structure ProcessResult where
  tree : Slot
  html : Slot
  metrics : Metrics

namespace ProcessResult

def isRendered (result : ProcessResult) : Bool := !result.html.isNone

/-- A result as named entries; its processing time is not among what is known here. -/
def toEntries (result : ProcessResult) : List (String × Slot) :=
  [("tree", result.tree), ("processing_time_ms", .atom (.float .zero)),
    ("plugins_executed", .atom (.int result.metrics.executed))] ++
    (if result.isRendered then [("html", result.html)] else [])

end ProcessResult

structure Brief where
  source : Slot
  /-- The options to start from, or a value that is no options at all. -/
  base : OptionsRef ⊕ Value
  overrides : List (Value × Slot)
  plugins : List Callable

namespace GivenOptions

def held (options : GivenOptions) (store : Store) : GivenOptions Slot × Store :=
  match options with
  | .inherit => (.inherit, store)
  | .settings entries =>
    let (slots, store) := store.newEntries entries
    (.settings slots, store)
  | .object options => (.object options, store)
  | .other value => (.other value, store)

end GivenOptions

namespace Request

def held (request : Request) (store : Store) : Request Slot × Store :=
  let (options, store) := request.options.held store
  let (overrides, store) := store.newEntries request.overrides
  (⟨request.source, options, overrides⟩, store)

/-- Settings given with the call win over settings given as options. -/
def brief (request : Request Slot) (pipeline : Pipeline) : Brief where
  source := request.source
  base :=
    match request.options with
    | .inherit | .settings _ => .inl pipeline.defaults
    | .object options => .inl options
    | .other value => .inr value
  overrides :=
    match request.options with
    | .settings entries =>
      request.overrides.foldl (fun merged entry => Entries.set merged entry.1 entry.2)
        (Entries.ofPairs entries)
    | _ => request.overrides
  plugins := pipeline.roster

end Request

namespace Brief

/-- The mode is set by the overrides, and otherwise by the options to start from. -/
def isBlocking (brief : Brief) (store : Store) : Bool :=
  match Entries.at? brief.overrides Setting.sync.name, brief.base with
  | some value, _ => store.truthy value
  | none, .inl base => (store.getOptions base).sync.truthy
  | none, .inr _ => false

/-- The overrides by name; names must be texts. -/
def namedOverrides : List (Value × Value) → Outcome (List (String × Value))
  | [] => .ok []
  | (.str name, value) :: rest => do return (name, value) :: (← namedOverrides rest)
  | _ :: _ => .error .nonTextKeyword

def viewedOverrides (brief : Brief) (store : Store) : List (Value × Value) :=
  brief.overrides.map fun entry => (entry.1, store.view entry.2)

/-- The run gets an options object of its own. -/
def context (conduct : Conduct σ) (brief : Brief) (world : World σ) :
    Outcome (Context × World σ) :=
  match brief.base with
  | .inr value => .error (.config (.notOptions value.typeName))
  | .inl base => do
    let overrides ← namedOverrides (brief.viewedOverrides world.store)
    let options ← (world.store.getOptions base).override overrides
    let (handle, store) := world.store.newOptions options
    return (⟨handle, world.pipeline.runCorrelation conduct.freshId⟩, world.withStore store)

end Brief

/-! ## The stages of a run -/

namespace Processing

def logStart (world : World σ) (context : Context) (plugins : List Callable) (mode : String) :
    World σ :=
  world.write (Pipeline.logger context.correlationId) .info "Starting pipeline run"
    [("mode", .str mode), ("plugin_count", .int plugins.length),
      ("skip_parse", (world.store.getOptions context.options).skipParse),
      ("run_number", .int (world.pipeline.runs + 1))] none

def logFinish (world : World σ) (context : Context) (result : ProcessResult) : World σ :=
  world.write (Pipeline.logger context.correlationId) .info "Pipeline run completed"
    [("plugins_executed", .int result.metrics.executed), ("rendered", .bool result.isRendered)]
    none

/-- Counts a run that failed and logs its fault. A cancellation is neither. -/
def fail (world : World σ) (correlationId : Value) (fault : Fault) : World σ :=
  if fault.isFailure then
    { world with pipeline := world.pipeline.count false }.write (Pipeline.logger correlationId)
      .error "Pipeline run failed" [] (some fault.className)
  else world

def succeed (world : World σ) (context : Context) (result : ProcessResult) : World σ :=
  logFinish { world with pipeline := world.pipeline.count true } context result

def parseSource (files : FileSystem) (source : Slot) (options : OptionsRef)
    (correlationId : Value) (world : World σ) : Outcome Slot × World σ :=
  match Source.read files (world.store.view source) with
  | .error fault => (.error fault, world)
  | .ok text =>
    let parsed := parse (world.store.getOptions options).reading text
    let (tree, store) := world.store.new (parsed.forest.toTree (some options))
    (.ok tree, { world with store, log := world.log ++ parsed.log correlationId text })

def renderTree (depth : Nat) (tree : Slot) (options : OptionsRef) (correlationId : Value)
    (world : World σ) : Outcome Slot × World σ :=
  match renderWith (world.store.getOptions options) (world.store.markup · depth tree) with
  | .error fault => (.error fault, world)
  | .ok html =>
    (.ok (.atom (.str html)),
      world.write (.make "markup_pipeline.tree.render" correlationId "html_renderer" []) .debug
        "Rendering completed" [("output_length", .int html.length)] none)

/-- Calls what an option holds; only a callable can be called. -/
def callCollaborator (conduct : Conduct σ) (collaborator : Value) (subject : Slot)
    (options : OptionsRef) (world : World σ) : Outcome Slot × World σ :=
  match collaborator with
  | .atom (.callable c) => conduct.collaborator c subject options world
  | other => (.error (.wrongType ("'" ++ other.typeName ++ "' object is not callable")), world)

def readSource (conduct : Conduct σ) (context : Context) (source : Slot) (world : World σ) :
    Outcome Slot × World σ :=
  let options := world.store.getOptions context.options
  if options.skipParse.truthy then (.ok source, world)
  else
    match options.parser with
    | .none => parseSource conduct.files source context.options context.correlationId world
    | parser => callCollaborator conduct parser source context.options world

def loadTree (conduct : Conduct σ) (context : Context) (source : Slot) (world : World σ) :
    Outcome Slot × World σ :=
  match readSource conduct context source world with
  | (.error fault, world) => (.error fault, world)
  | (.ok tree, world) =>
    let (outcome, store) := world.store.attach tree (some context.options)
    (outcome, world.withStore store)

/-- Renders the final tree with the options it carries, which plugins may have changed or taken from
it. -/
def writeTree (conduct : Conduct σ) (context : Context) (tree : Slot) (world : World σ) :
    Outcome Slot × World σ :=
  match world.store.optionsOf tree with
  | none => (.error (.missingMember "'NoneType' object has no attribute 'skip_render'"), world)
  | some handle =>
    let options := world.store.getOptions handle
    if options.skipRender.truthy then (.ok .none, world)
    else
      match options.render with
      | .none => renderTree conduct.depth tree handle context.correlationId world
      | collaborator => callCollaborator conduct collaborator tree handle world

def finish (conduct : Conduct σ) (context : Context) (tree : Slot) (metrics : Metrics)
    (world : World σ) : Outcome ProcessResult × World σ :=
  match writeTree conduct context tree world with
  | (.error fault, world) => (.error fault, world)
  | (.ok html, world) => (.ok ⟨tree, html, metrics⟩, world)

def conclude (conduct : Conduct σ) (context : Context) (chain : ChainEnd σ) :
    World σ × Outcome ProcessResult :=
  let ended : Outcome ProcessResult × World σ :=
    match chain.outcome with
    | .error fault => (.error fault, chain.world)
    | .ok tree => finish conduct context tree chain.metrics chain.world
  match ended with
  | (.error fault, world) => (fail world context.correlationId fault, .error fault)
  | (.ok result, world) => (succeed world context result, .ok result)

/-- A run in blocking mode. Options that are refused end it before it counts. -/
def blocking (conduct : Conduct σ) (brief : Brief) (world : World σ) :
    World σ × Outcome ProcessResult :=
  match brief.context conduct world with
  | .error fault => (world, .error fault)
  | .ok (context, world) =>
    let world := logStart world context brief.plugins "sync"
    match loadTree conduct context brief.source world with
    | (.error fault, world) => (fail world context.correlationId fault, .error fault)
    | (.ok tree, world) =>
      conclude conduct context
        (Blocking.run conduct context brief.plugins tree .empty world)

/-- The end of a run in non-blocking mode, which is a coroutine. -/
def concludeLater (conduct : Conduct σ) (context : Context) (chain : ChainEnd σ) :
    World σ × Outcome ProcessResult :=
  let (world, outcome) := conclude conduct context chain
  (world, outcome.mapError Fault.leaving)

/-- A run in non-blocking mode. Every fault is one of the run, also of its options. -/
def routine (conduct : Conduct σ) (brief : Brief) : Routine σ (Outcome ProcessResult) where
  plugins := brief.plugins
  prepare world :=
    match brief.context conduct world with
    | .error fault =>
      (fail world world.pipeline.correlationValue fault, .inl (.error fault.leaving))
    | .ok (context, world) =>
      let world := logStart world context brief.plugins "async"
      match loadTree conduct context brief.source world with
      | (.error fault, world) =>
        (fail world context.correlationId fault, .inl (.error fault.leaving))
      | (.ok tree, world) => (world, .inr ⟨context, tree, .empty, concludeLater conduct context⟩)

def reset (world : World σ) : World σ :=
  { world with pipeline := world.pipeline.reset }.write
    (Pipeline.logger world.pipeline.correlationValue) .info "Pipeline statistics reset" [] none

/-- What processing answers at once: the result of a blocking run, or a routine to be awaited. -/
def process (conduct : Conduct σ) (request : Request Slot) (world : World σ) :
    World σ × (Outcome ProcessResult ⊕ Routine σ (Outcome ProcessResult)) :=
  let brief := request.brief world.pipeline
  if brief.isBlocking world.store then
    let (world, outcome) := blocking conduct brief world
    (world, .inl outcome)
  else (world, .inr (routine conduct brief))

end Processing

end Hypertext
