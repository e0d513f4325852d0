import Hypertext.Fault
import Hypertext.Token.Basic

/-! # Positions from numbers

Numbers make a position when line and column are at least one and the offset is not negative. The
first number that is refused is the one that is reported.
-/

namespace Hypertext.Position

set_option autoImplicit false

def ofInts (line column offset : Int) : Outcome Position :=
  if line < 1 then .error (.argument .line)
  else if column < 1 then .error (.argument .column)
  else if offset < 0 then .error (.argument .offset)
  else .ok ⟨line.toNat, column.toNat, offset.toNat⟩

end Hypertext.Position
