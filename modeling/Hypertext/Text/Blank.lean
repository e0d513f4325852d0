/-! # Blanks

Two sets are in use. Start tags are laid out with the five spacing characters of markup;
end tags are read with every blank of the Unicode character database.
-/

namespace Hypertext.Text

set_option autoImplicit false

/-- Space, tab, line feed, carriage return and form feed. -/
def isSpacing (c : Char) : Bool :=
  c = ' ' || c = '\t' || c = '\n' || c = '\r' || c = '\x0c'

def isBlank (c : Char) : Bool :=
  let n := c.toNat
  (0x09 ≤ n && n ≤ 0x0d) || (0x1c ≤ n && n ≤ 0x20) || n = 0x85 || n = 0xa0 || n = 0x1680 ||
    (0x2000 ≤ n && n ≤ 0x200a) || n = 0x2028 || n = 0x2029 || n = 0x202f || n = 0x205f ||
    n = 0x3000

end Hypertext.Text
