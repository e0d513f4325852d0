/-! # Failures

The exceptions that plugins and collaborators raise and callers hand on. A failure is an object of a
class, made with a message. Classes that differ from others in their names only are plain; the rest
differ in what handlers, coroutines and futures make of them.
-/

namespace Hypertext

set_option autoImplicit false

inductive FailureKind where
  | plain
  /-- No exception: what interrupts a program passes by all that handles exceptions. -/
  | exit
  /-- Ends a task as cancelled, and is no exception either. -/
  | cancellation
  /-- The cancellation of a pool, an exception until a future of the loop takes it over. -/
  | poolCancellation
  /-- The end of an iteration, which leaves no coroutine and which no future takes. -/
  | stop
  /-- A class of one's own derived from the end of an iteration. Futures do take it. -/
  | derivedStop
  deriving DecidableEq, Repr

namespace FailureKind

def isException : FailureKind → Bool
  | exit | cancellation => false
  | _ => true

def isStop : FailureKind → Bool
  | stop | derivedStop => true
  | _ => false

end FailureKind

structure Failure where
  className : String
  kind : FailureKind
  message : String
  /-- Whether it counts as true in a condition. A class may say that it does not. -/
  counts : Bool
  deriving DecidableEq, Repr

namespace Failure

def plain (className message : String) : Failure := ⟨className, .plain, message, true⟩

/-- The failure of a known class by its name. Any other name is that of a plain class. -/
def ofName (className message : String) : Failure :=
  let kind : FailureKind :=
    match className with
    | "StopIteration" => .stop
    | "BaseException" | "BaseExceptionGroup" | "GeneratorExit" | "KeyboardInterrupt"
    | "SystemExit" => .exit
    | _ => .plain
  ⟨className, kind, message, true⟩

def leaving (failure : Failure) : Failure :=
  if failure.kind.isStop then plain "RuntimeError" "coroutine raised StopIteration" else failure

/-- What a future of the loop takes over from a future of a pool, if anything. -/
def transferred? (failure : Failure) : Option Failure :=
  match failure.kind with
  | .stop => none
  | .poolCancellation => some ⟨"CancelledError", .cancellation, failure.message, true⟩
  | _ => some failure

@[simp] theorem isException_leaving (failure : Failure) :
    failure.leaving.kind.isException = failure.kind.isException := by
  obtain ⟨className, kind, message, counts⟩ := failure
  cases kind <;> rfl

end Failure

end Hypertext
