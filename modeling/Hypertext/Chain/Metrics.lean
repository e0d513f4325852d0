import Hypertext.Fault

/-! # Metrics of a run

One timing is kept for every plugin that completed. Durations are numbers of either kind; they
are added in order, starting from the integer zero.
-/

namespace Hypertext

set_option autoImplicit false

namespace Value

def number? : Value → Option (Int ⊕ Double)
  | .bool b => some (.inl (if b then 1 else 0))
  | .int n => some (.inl n)
  | .atom (.float d) => some (.inr d)
  | _ => Option.none

def asDouble : Int ⊕ Double → Double
  | .inl n => .ofInt n
  | .inr d => d

def plus (a b : Value) : Outcome Value :=
  match a.number?, b.number? with
  | some (.inl m), some (.inl n) => .ok (.int (m + n))
  | some x, some y => .ok (.atom (.float ((asDouble x).add (asDouble y))))
  | _, _ =>
    .error (.wrongType ("unsupported operand type(s) for +: '" ++ a.typeName ++ "' and '" ++
      b.typeName ++ "'"))

/-- Numbers in units of the least positive double; nothing for a NaN and for infinities. -/
def units? : Int ⊕ Double → Option Int
  | .inl n => some (n * Int.ofNat (1 <<< 1074))
  | .inr d => if d.isNaN || d.isInfinite then Option.none else some d.signedUnits

def exceeds (a b : Value) : Bool :=
  match a.number?, b.number? with
  | some x, some y =>
    match units? x, units? y with
    | some m, some n => n < m
    | .none, some _ => let d := asDouble x; d.isInfinite && !d.negative
    | some _, .none => let d := asDouble y; d.isInfinite && d.negative
    | .none, .none =>
      let c := asDouble x
      let d := asDouble y
      c.isInfinite && d.isInfinite && !c.negative && d.negative
  | _, _ => false

end Value

structure Timing where
  name : String
  index : Int
  kind : String
  duration : Value
  deriving Repr

namespace Timing

def make (name : String) (index : Int) (kind : String) (duration : Value) : Outcome Timing :=
  if name = "" then .error (.argument .timingName)
  else if index < 0 then .error (.argument .timingIndex)
  else .ok ⟨name, index, kind, duration⟩

end Timing

structure Metrics where
  timings : List Timing
  executed : Int
  deriving Repr

namespace Metrics

def empty : Metrics := ⟨[], 0⟩

def add (metrics : Metrics) (timing : Timing) : Metrics :=
  ⟨metrics.timings ++ [timing], metrics.executed + 1⟩

/-- Adds a timing; one that is refused leaves the metrics as they were. -/
def record (metrics : Metrics) (name : String) (index : Int) (kind : String) (duration : Value) :
    Outcome Metrics := do
  let timing ← Timing.make name index kind duration
  return metrics.add timing

def total (metrics : Metrics) : Outcome Value :=
  metrics.timings.foldlM (fun sum timing => sum.plus timing.duration) (.int 0)

/-- The first of the timings that no other exceeds. -/
def slowest? (metrics : Metrics) : Option Timing :=
  match metrics.timings with
  | [] => none
  | first :: rest =>
    some (rest.foldl (fun best timing =>
      if timing.duration.exceeds best.duration then timing else best) first)

end Metrics

end Hypertext
