import Hypertext.Fault

/-! # Scenes

What scripted plugins leave behind besides their trees: the events of their calls, in order, and
the state of everything they handed back to be awaited.
-/

namespace Hypertext

set_option autoImplicit false

inductive HandedState where
  | opened
  | closed
  | object
  | cancelled
  | done
  | pending
  deriving DecidableEq, Repr

namespace HandedState

def name : HandedState → String
  | opened => "open"
  | closed => "closed"
  | object => "object"
  | cancelled => "cancelled"
  | done => "done"
  | pending => "pending"

end HandedState

inductive Event where
  | call (plugin : String)
  | body (plugin : String)
  | done (plugin : String)
  | note (plugin text : String)
  | look (plugin typeName : String) (tree : Value)
  | option (plugin field : String) (value : Value)
  | found (plugin : String) (nodes : List Value)
  | html (plugin : String) (markup : Value)
  | collaborator (name : String) (subject : Value)
  | thenable (plugin : String) (state : HandedState)

def Event.parts : Event → List Value
  | .call plugin => [.str "call", .str plugin]
  | .body plugin => [.str "body", .str plugin]
  | .done plugin => [.str "done", .str plugin]
  | .note plugin text => [.str "note", .str plugin, .str text]
  | .look plugin typeName tree => [.str "look", .str plugin, .str typeName, tree]
  | .option plugin field value => [.str "option", .str plugin, .str field, value]
  | .found plugin nodes => [.str "found", .str plugin, .list nodes]
  | .html plugin markup => [.str "html", .str plugin, markup]
  | .collaborator name subject => [.str "fn", .str name, subject]
  | .thenable plugin state => [.str "thenable", .str plugin, .str state.name]

structure Scene where
  events : List Event
  handed : List (String × HandedState)

namespace Scene

def empty : Scene := ⟨[], []⟩

def add (scene : Scene) (event : Event) : Scene := { scene with events := scene.events ++ [event] }

/-- Notes that a plugin handed something back, under the number it answers to from now on. -/
def hand (scene : Scene) (plugin : String) (state : HandedState) : Nat × Scene :=
  (scene.handed.length, { scene with handed := scene.handed ++ [(plugin, state)] })

def mark (scene : Scene) (number : Nat) (state : HandedState) : Scene :=
  match scene.handed[number]? with
  | some (plugin, _) => { scene with handed := scene.handed.set number (plugin, state) }
  | none => scene

/-- Cancelling has an effect only on what is pending. -/
def cancel (scene : Scene) (number : Nat) : Scene :=
  match scene.handed[number]? with
  | some (plugin, .pending) =>
    { scene with handed := scene.handed.set number (plugin, .cancelled) }
  | _ => scene

def report (scene : Scene) : List Event :=
  scene.events ++ scene.handed.map fun handed => .thenable handed.1 handed.2

end Scene

end Hypertext
