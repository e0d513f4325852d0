import Hypertext.Chain.World

/-! # The plugins of a pipeline

Plugins are registered in order; sequences of plugins are flattened. Registration stops at the
first thing that cannot be called and keeps what came before it.
-/

namespace Hypertext

set_option autoImplicit false

namespace Roster

mutual

def leaves : Value → List Value
  | .seq _ items => leavesOf items
  | other => [other]

def leavesOf : List Value → List Value
  | [] => []
  | item :: rest => leaves item ++ leavesOf rest

end

/-- Appends the callables among the leaves up to the first other one. -/
def extend (roster : List Callable) : List Value → List Callable × Outcome Unit
  | [] => (roster, .ok ())
  | .atom (.callable c) :: rest => extend (roster ++ [c]) rest
  | other :: _ => (roster, .error (.notCallable other.typeName))

def use (roster : List Callable) (arguments : List Value) : List Callable × Outcome Unit :=
  extend roster (leavesOf arguments)

end Roster

namespace Pipeline

def make (defaults : OptionsRef) (correlationId : Option String) : Pipeline :=
  ⟨[], defaults, correlationId, 0, 0⟩

def use (pipeline : Pipeline) (arguments : List Value) : Pipeline × Outcome Unit :=
  let (roster, outcome) := Roster.use pipeline.roster arguments
  ({ pipeline with roster }, outcome)

def count (pipeline : Pipeline) (success : Bool) : Pipeline :=
  { pipeline with
    runs := pipeline.runs + 1
    successes := if success then pipeline.successes + 1 else pipeline.successes }

def reset (pipeline : Pipeline) : Pipeline := { pipeline with runs := 0, successes := 0 }

/-- The share of runs that succeeded, zero when there were none. -/
def successRate (pipeline : Pipeline) : Double :=
  if pipeline.runs = 0 then .zero
  else (Double.ofInt pipeline.successes).div (Double.ofInt pipeline.runs)

def correlationValue (pipeline : Pipeline) : Value :=
  match pipeline.correlationId with
  | none => .none
  | some id => .str id

/-- The id of one run: the pipeline's own unless it is empty, else a fresh one. -/
def runCorrelation (pipeline : Pipeline) (freshId : Nat → String) : Value :=
  match pipeline.correlationId with
  | some id => if id = "" then .str (freshId pipeline.runs) else .str id
  | none => .str (freshId pipeline.runs)

def logger (correlationId : Value) : Logger :=
  .make "markup_pipeline.api.pipeline" correlationId "html_pipeline" []

end Pipeline

end Hypertext
