import Hypertext.Token.Checked

/-! # Lines of a text

The offsets at which the lines of a text begin are listed once and in order. The line of an offset is
found among them by halving, and its column by a difference.
-/

namespace Hypertext

set_option autoImplicit false

/-- The offsets behind the line breaks of a text whose first character has an offset. -/
def lineStartsFrom (offset : Nat) : List Char → List Nat
  | [] => []
  | c :: rest =>
    if c = '\n' then (offset + 1) :: lineStartsFrom (offset + 1) rest
    else lineStartsFrom (offset + 1) rest

def lineStarts (text : List Char) : Array Nat := (0 :: lineStartsFrom 0 text).toArray

/-- Where the starts that are beyond an offset begin, when those before `low` are not and those
from `high` on are. -/
def bisect (starts : Array Nat) (offset low high : Nat) : Outcome Nat :=
  if low < high then
    match starts[(low + high) / 2]? with
    | none => .error (.badIndex false)
    | some start =>
      if offset < start then bisect starts offset low ((low + high) / 2)
      else bisect starts offset ((low + high) / 2 + 1) high
  else .ok low
termination_by high - low

def lineStartAt (starts : Array Nat) : Int → Outcome Nat
  | .ofNat index =>
    match starts[index]? with
    | none => .error (.badIndex false)
    | some start => .ok start
  | .negSucc _ => .error (.badIndex false)

def Position.locate (starts : Array Nat) (offset : Nat) : Outcome Position := do
  let index : Int := (← bisect starts offset 0 starts.size) - 1
  let start : Int := ← lineStartAt starts index
  Position.ofInts (index + 1) (offset - start + 1) offset

end Hypertext
