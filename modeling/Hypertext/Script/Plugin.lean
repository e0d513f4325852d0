import Hypertext.Pipeline.Processing
import Hypertext.Script.Alteration
import Hypertext.Script.Scene
import Hypertext.Value.Nodes

/-! # Scripted plugins

A plugin written as data: the convention it follows, what it does with the tree it receives, and
what it ends with.
-/

namespace Hypertext

set_option autoImplicit false

inductive Ending where
  | none
  | tree
  | value (v : Value)
  | wrap (tag : Value)
  | child (index : Int)
  | content
  | list
  | tuple
  | raise (className message : String)
  | cancelled
  | pending

inductive Action where
  | append (v : Value)
  | clear
  | setKey (key v : Value)
  | walk (alteration : Alteration)
  | walkMatching (expression : Value) (alteration : Alteration)
  | note (text : String)
  | look
  | lookOption (field : String)
  | findAll (tag : Value)
  | render
  | setOption (field : String) (v : Value)
  | addSingleTag (v : Value)
  | newOptions (settings : List (String × Value))
  | use (v : Value)
  | raise (className message : String)
  /-- Calls the completion callback with the first of failure and result, as many as given. -/
  | complete (failure : Value) (result : Ending) (count : Nat)
  | pause (turns : Nat)

inductive Convention where
  | plain
  /-- Takes a completion callback that has a default. -/
  | optionalCallback
  /-- Takes any number of positions. -/
  | variadic
  | callback
  /-- A callback plugin that returns nothing, whatever it ends with. -/
  | callbackOnly
  | coroutineFunction
  | coroutineCallback
  | coroutine
  | awaitable
  | poolFuture
  | loopFuture
  | callbackPoolFuture
  | callbackLoopFuture
  deriving DecidableEq, Repr

namespace Convention

def ofName? : String → Option Convention
  | "sync" => some plain
  | "default_done" => some optionalCallback
  | "varargs" => some variadic
  | "callback" => some callback
  | "callback_posonly" => some callbackOnly
  | "async" => some coroutineFunction
  | "async_callback" => some coroutineCallback
  | "coroutine" => some coroutine
  | "awaitable" => some awaitable
  | "cfuture" => some poolFuture
  | "afuture" => some loopFuture
  | "callback_cfuture" => some callbackPoolFuture
  | "callback_afuture" => some callbackLoopFuture
  | _ => none

def takesCallback : Convention → Bool
  | callback | callbackOnly | coroutineCallback | callbackPoolFuture | callbackLoopFuture => true
  | _ => false

def isCoroutineFunction (convention : Convention) : Bool :=
  convention = coroutineFunction || convention = coroutineCallback

/-- The parameters of a plugin. Only a function can take any number of positions. -/
def params (form : CallableForm) : Convention → List Param
  | optionalCallback => [⟨"tree", .position, false⟩, ⟨"done", .position, true⟩]
  | variadic =>
    if form = .function then [⟨"args", .variadic, false⟩] else [⟨"tree", .position, false⟩]
  | callbackOnly => [⟨"tree", .positionOnly, false⟩, ⟨"done", .positionOnly, false⟩]
  | convention =>
    if convention.takesCallback then [⟨"tree", .position, false⟩, ⟨"done", .position, false⟩]
    else [⟨"tree", .position, false⟩]

end Convention

structure PluginScript where
  name : String
  convention : Convention
  actions : List Action
  ending : Ending

inductive CollaboratorResult where
  | raise (className message : String)
  /-- A list with one element that holds the subject. -/
  | echo (tag : Value)
  | parse
  | render
  | value (v : Value)

structure CollaboratorScript where
  name : String
  settings : List (String × Value)
  result : CollaboratorResult

inductive Role where
  | plugin (script : PluginScript)
  | collaborator (script : CollaboratorScript)

/-- Acting in a play: on the world, and on the completion callbacks called so far. -/
abbrev Playing := ExceptT Fault (StateM (World Scene × List Completion))

namespace Playing

def world : Playing (World Scene) := return (← get).1

def setWorld (world : World Scene) : Playing Unit := modify fun state => (world, state.2)

def store : Playing Store := return (← world).store

def setStore (store : Store) : Playing Unit := do setWorld ((← world).withStore store)

def onStore {α : Type} (f : Store → α × Store) : Playing α := do
  let (a, store) := f (← store)
  setStore store
  return a

def lift {α : Type} : Outcome α → Playing α
  | .ok a => return a
  | .error fault => throw fault

def event (e : Event) : Playing Unit := do
  let world ← world
  setWorld { world with scene := world.scene.add e }

def optionsOf (tree : Slot) : Playing OptionsRef := do
  let store ← store
  match store.optionsOf tree with
  | some options => return options
  | none => throw (store.lacksMember tree "options")

end Playing

open Playing

namespace Ending

def childAt (store : Store) (tree : Slot) (index : Int) : Outcome Slot :=
  match store.cell? tree with
  | some (.seq _ items) =>
    match (Store.positionOf? items.length index).bind (items[·]?) with
    | some item => .ok item
    | Option.none => .error (.badIndex false)
  | some (.map _ entries) =>
    match Entries.get? entries (.int index) with
    | some item => .ok item
    | Option.none => .error (.missingKey (.int index))
  | Option.none =>
    .error (.wrongType ("'" ++ store.typeName tree ++ "' object is not subscriptable"))

def play (tree : Slot) : Ending → Playing Slot
  | none => return .none
  | Ending.tree => return tree
  | value v => onStore (·.new v)
  | wrap tag => do
    let tag ← onStore (·.new tag)
    onStore (·.alloc (.map .dict [(.str "tag", tag), (.str "content", tree)]))
  | child index => do lift (childAt (← store) tree index)
  | content => do
    let store ← store
    match store.cell? tree with
    | some (.map _ _) => return (store.fieldAt? tree "content").getD .none
    | _ => throw (store.lacksMember tree "get")
  | list => do
    let items ← lift (← onStore (·.members tree))
    onStore (·.alloc (.seq .list items))
  | tuple => do
    let items ← lift (← onStore (·.members tree))
    onStore (·.alloc (.seq .tuple items))
  | raise className message => throw (.raised (.ofName className message))
  | cancelled => throw .cancelled
  | pending => return .none

end Ending

/-- Whether a plugin holds a completion callback, or what it holds instead. -/
inductive CallbackAccess where
  | given
  | instead (typeName : String)

structure Part where
  name : String
  callback : CallbackAccess

namespace Action

def playWalk (tree : Slot) (walk : Walking AlterationMemory Unit) : Playing Unit := do
  let store ← store
  if store.isCapable tree then
    let (outcome, (store, _)) := walk.run (store, AlterationMemory.empty)
    setStore store
    lift outcome
  else throw (store.lacksMember tree "walk")

def play (part : Part) (tree : Slot) : Action → Playing Unit
  | append v => do
    let item ← onStore (·.new v)
    setStore (← lift ((← store).append tree item))
  | clear => do
    let store ← store
    match tree, store.cell? tree with
    | .ref r, some (.seq kind _) =>
      if kind.isMutable then setStore (store.put r (.seq kind []))
      else throw (store.lacksMember tree "clear")
    | .ref r, some (.map kind _) => setStore (store.put r (.map kind []))
    | _, _ => throw (store.lacksMember tree "clear")
  | setKey key v => do
    let item ← onStore (·.new v)
    let store ← store
    match store.cell? tree with
    | some (.map _ _) => setStore (← lift (store.assignField tree key item))
    | _ => return
  | walk alteration => playWalk tree (Hypertext.walk Script.bounds (alteration.visitor tree) tree)
  | walkMatching expression alteration =>
    playWalk tree (Hypertext.walkMatching Script.bounds expression (alteration.visitor tree) tree)
  | note text => event (.note part.name text)
  | look => do
    let store ← store
    event (.look part.name (store.typeName tree) (store.view tree))
  | lookOption field => do
    let options := (← store).getOptions (← optionsOf tree)
    match Setting.ofName? field with
    | some setting => event (.option part.name field (options.get setting))
    | none =>
      throw (.missingMember ("'ProcessOptions' object has no attribute '" ++ field ++ "'"))
  | findAll tag => do
    let store ← store
    if store.isCapable tree then event (.found part.name ((store.view tree).nodesTagged tag))
    else throw (store.lacksMember tree "find_all")
  | render => do
    let world ← world
    let (handle, store) :=
      match world.store.optionsOf tree with
      | some options => (options, world.store)
      | none => world.store.newOptions .default
    let (outcome, world) :=
      Processing.renderTree Script.bounds.depth tree handle .none (world.withStore store)
    setWorld world
    let html ← lift outcome
    event (.html part.name (world.store.view html))
  | setOption field v => do
    let handle ← optionsOf tree
    setStore ((← store).assignSettings handle [(field, v)])
  | addSingleTag v => do
    let handle ← optionsOf tree
    let tags := (← store).settingAt handle .singleTags
    let item ← onStore (·.new v)
    setStore (← lift ((← store).append tags item))
  | newOptions settings => do
    let options ← lift (Options.ofSettings settings)
    let handle ← onStore (·.newOptions options)
    setStore ((← store).setOptionsOf tree handle)
  | use v => do
    let world ← world
    let (pipeline, outcome) := world.pipeline.use [v]
    setWorld { world with pipeline }
    lift outcome
  | raise className message => throw (.raised (.ofName className message))
  | complete failure result count => do
    event (.done part.name)
    let failure ← onStore (·.new failure)
    let result ← result.play tree
    match part.callback with
    | .given =>
      let completion : Completion :=
        ⟨if count = 0 then .none else failure, if count ≤ 1 then .none else result⟩
      modify fun state => (state.1, state.2 ++ [completion])
    | .instead typeName =>
      throw (.wrongType ("'" ++ typeName ++ "' object is not callable"))
  | pause _ => return

def segments : List Action → List (List Action)
  | [] => [[]]
  | .pause turns :: rest => List.replicate turns [] ++ segments rest
  | action :: rest =>
    match segments rest with
    | [] => [[action]]
    | segment :: more => (action :: segment) :: more

end Action

namespace PluginScript

/-- The script as something that can be called. One in a sealed form shows nothing of how. -/
def callable (script : PluginScript) (handle : Nat) (form : CallableForm)
    (bindings : List Binding) : Callable :=
  if form = .sealedObject then ⟨handle, form, script.name, none, false, bindings⟩
  else
    ⟨handle, form, script.name, some (script.convention.params form),
      script.convention.isCoroutineFunction, bindings⟩

def playAll (part : Part) (tree : Slot) (actions : List Action) : Playing Unit :=
  actions.forM (Action.play part tree)

def close (number : Option Nat) (world : World Scene) : World Scene :=
  match number with
  | some number => { world with scene := world.scene.mark number .closed }
  | none => world

/-- A stretch that ends the coroutine if `last` says so, or by a fault. -/
def stretch (number : Option Nat) (play : Playing (Option Slot)) : Stretch Scene := fun world =>
  match play.run (world, []) with
  | (.error fault, (world, completions)) =>
    (close number world, completions, some (.error fault))
  | (.ok none, (world, completions)) => (world, completions, none)
  | (.ok (some result), (world, completions)) =>
    (close number world, completions, some (.ok result))

def stretches (number : Option Nat) (part : Part) (tree : Slot) (ending : Ending) :
    List (List Action) → Body Scene
  | [] => []
  | [last] =>
    [stretch number do
      playAll part tree last
      return some (← ending.play tree)]
  | actions :: rest =>
    stretch number (do playAll part tree actions; return none) ::
      stretches number part tree ending rest

/-- The coroutine of a script: it notes when its body begins. -/
def body (script : PluginScript) (number : Option Nat) (part : Part) (tree : Slot) : Body Scene :=
  match stretches number part tree script.ending (Action.segments script.actions) with
  | [] => []
  | first :: rest =>
    (fun world => first { world with scene := world.scene.add (.body script.name) }) :: rest

def hand (script : PluginScript) (state : HandedState) : Playing Nat := do
  let world ← world
  let (number, scene) := world.scene.hand script.name state
  setWorld { world with scene }
  return number

/-- The state of a future that is settled before it is handed back. One of the loop refuses the end of
an iteration. -/
def futureState (script : PluginScript) (ofPool : Bool) (tree : Slot) :
    Playing (FutureState × HandedState) :=
  match script.ending with
  | .pending => return (.pending, .pending)
  | .cancelled => return (.settled (.error .cancelled), .cancelled)
  | .raise className message => do
    let failure := Failure.ofName className message
    if !ofPool && failure.kind = .stop then
      throw (.wrongType
        "StopIteration interacts badly with generators and cannot be raised into a Future")
    return (.settled (.error (.raised failure)), .done)
  | ending => do return (.settled (.ok (← ending.play tree)), .done)

def cancel (number : Nat) (world : World Scene) : World Scene :=
  { world with scene := world.scene.cancel number }

def play (script : PluginScript) (part : Part) (tree : Slot) : Playing (Returned Scene) :=
  match script.convention with
  | .plain | .optionalCallback | .variadic | .callback => do
    event (.call script.name)
    playAll part tree script.actions
    return .value (← script.ending.play tree)
  | .callbackOnly => do
    event (.call script.name)
    playAll part tree script.actions
    return .value .none
  | .coroutineFunction | .coroutineCallback =>
    return .coroutine (script.body none part tree) id
  | .coroutine => do
    event (.call script.name)
    let number ← script.hand .opened
    return .coroutine (script.body (some number) part tree) (close (some number))
  | .awaitable => do
    event (.call script.name)
    discard (script.hand .object)
    return .awaitable (script.body none part tree)
  | .poolFuture | .callbackPoolFuture => do
    event (.call script.name)
    playAll part tree script.actions
    let (state, shown) ← script.futureState true tree
    let number ← script.hand shown
    return .poolFuture state (cancel number)
  | .loopFuture | .callbackLoopFuture => do
    event (.call script.name)
    playAll part tree script.actions
    let (state, shown) ← script.futureState false tree
    let number ← script.hand shown
    return .loopFuture state (cancel number)

/-- What a callable supplies ahead of the call: a bound position takes the place of the tree, and
the tree that of the completion callback. -/
def received (script : PluginScript) (callable : Callable) (tree : Slot) (store : Store) :
    Slot × CallbackAccess :=
  let bound := callable.binding
  if bound.positions > 0 then (.none, .instead (store.typeName tree))
  else if script.convention.takesCallback && !bound.names.contains "done" then (tree, .given)
  else (tree, .instead "NoneType")

def call (script : PluginScript) (callable : Callable) (tree : Slot) (world : World Scene) :
    PluginCall Scene :=
  let (received, callback) := script.received callable tree world.store
  let (outcome, (world, completions)) := (script.play ⟨script.name, callback⟩ received).run (world, [])
  ⟨world, completions, outcome⟩

end PluginScript

namespace CollaboratorScript

def callable (script : CollaboratorScript) (handle : Nat) : Callable :=
  ⟨handle, .function, script.name,
    some [⟨"subject", .position, false⟩, ⟨"options", .position, false⟩], false, []⟩

def collaborate (script : CollaboratorScript) (files : FileSystem) (subject : Slot)
    (options : OptionsRef) (world : World Scene) : Outcome Slot × World Scene :=
  let event := Event.collaborator script.name (world.store.view subject)
  let world := { world with scene := world.scene.add event }
  let world := world.withStore (world.store.assignSettings options script.settings)
  match script.result with
  | .raise className message => (.error (.raised (.ofName className message)), world)
  | .echo tag =>
    let (tag, store) := world.store.new tag
    let (content, store) := store.alloc (.seq .list [subject])
    let (node, store) :=
      store.alloc (.map .dict [(.str "tag", tag), (.str "content", content)])
    let (list, store) := store.alloc (.seq .list [node])
    (.ok list, world.withStore store)
  | .parse => Processing.parseSource files subject options .none world
  | .render => Processing.renderTree Script.bounds.depth subject options .none world
  | .value v =>
    let (slot, store) := world.store.new v
    (.ok slot, world.withStore store)

/-- Used as a plugin, a collaborator takes a completion callback for its options and never calls
it. -/
def callAsPlugin (script : CollaboratorScript) (tree : Slot) (world : World Scene) :
    PluginCall Scene :=
  let event := Event.collaborator script.name (world.store.view tree)
  let world := { world with scene := world.scene.add event }
  let outcome : Outcome (Returned Scene) :=
    match script.result with
    | .raise className message => .error (.raised (.ofName className message))
    | .parse => .error (.parse (.unsupported (world.store.typeName tree)))
    | .render =>
      .error (.missingMember "'function' object has no attribute 'validate'")
    | _ => .ok (.value .none)
  ⟨world, [], outcome⟩

end CollaboratorScript

/-- The conduct of a cast of scripts, each callable standing for the one its handle names. -/
def Conduct.ofCast (cast : Array Role) (files : FileSystem) (freshId : Nat → String) :
    Conduct Scene where
  plugin callable tree world :=
    match cast[callable.handle]? with
    | some (.plugin script) => script.call callable tree world
    | some (.collaborator script) => script.callAsPlugin tree world
    | none => ⟨world, [], .ok (.value .none)⟩
  collaborator callable subject options world :=
    match cast[callable.handle]? with
    | some (.collaborator script) => script.collaborate files subject options world
    | some (.plugin script) =>
      let call := script.call callable subject world
      match call.outcome with
      | .ok (.value result) => (.ok result, call.world)
      | .ok _ => (.ok (.atom (.object "coroutine")), call.world)
      | .error fault => (.error fault, call.world)
    | none => (.ok .none, world)
  files
  freshId
  depth := Script.bounds.depth

end Hypertext
