/-! # Sets of code points given by ranges

A table lists its ranges in rising order, so a look-up stops at the first range
that begins beyond the code point.
-/

namespace Hypertext.Text

set_option autoImplicit false

def covers : List (Nat × Nat) → Nat → Bool
  | [], _ => false
  | (low, high) :: rest, n => if n < low then false else n ≤ high || covers rest n

end Hypertext.Text
