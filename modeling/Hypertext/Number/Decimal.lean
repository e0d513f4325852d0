import Hypertext.Number.Double

/-! # Decimals

A decimal is digits and a power of ten that scales them. A numeral has an optional sign and is a
name or digits with a point and an exponent; it stands for the nearest double.
-/

namespace Hypertext

set_option autoImplicit false

/-- A decimal `digits * 10 ^ exponent`. -/
structure Decimal where
  digits : Nat
  exponent : Int
  deriving DecidableEq, Repr

namespace Decimal

def dropZeros : Nat → Nat → Int → Decimal
  | 0, digits, exponent => ⟨digits, exponent⟩
  | fuel + 1, digits, exponent =>
    if digits ≠ 0 ∧ digits % 10 = 0 then dropZeros fuel (digits / 10) (exponent + 1)
    else ⟨digits, exponent⟩

def trimmed (d : Decimal) : Decimal := dropZeros (d.digits.log2 + 1) d.digits d.exponent

def digitValue (c : Char) : Nat := c.toNat - 48

def natOf (digits : List Char) : Nat := digits.foldl (fun n c => n * 10 + digitValue c) 0

def intOf : List Char → Int
  | '-' :: digits => -(natOf digits : Int)
  | '+' :: digits => natOf digits
  | digits => natOf digits

/-- Digits behind the point lower the exponent by one each. -/
def ofChars (cs : List Char) : Decimal :=
  let mantissa := cs.takeWhile (· ≠ 'e')
  let whole := mantissa.takeWhile (· ≠ '.')
  let fraction := (mantissa.dropWhile (· ≠ '.')).drop 1
  ⟨natOf (whole ++ fraction), intOf ((cs.dropWhile (· ≠ 'e')).drop 1) - fraction.length⟩

def nearest (d : Decimal) : Double :=
  ⟨(Float.ofScientific d.digits (d.exponent < 0) d.exponent.natAbs).toBits⟩

end Decimal

namespace Double

def nan : Double := ⟨0x7ff8000000000000⟩

def infinity : Double := ⟨0x7ff0000000000000⟩

/-- The sign is the highest bit. -/
def negated (d : Double) : Double := ⟨d.bits ^^^ 0x8000000000000000⟩

def magnitudeOf (cs : List Char) : Double :=
  if cs = ['n', 'a', 'n'] then nan
  else if cs = ['i', 'n', 'f'] || cs = "infinity".toList then infinity
  else (Decimal.ofChars cs).nearest

/-- The number that a numeral stands for. Case and blanks around it do not count, nor do low
lines between its digits. -/
def ofNumeral (text : String) : Double :=
  match text.trimAscii.toString.toLower.toList.filter (· ≠ '_') with
  | '-' :: cs => (magnitudeOf cs).negated
  | '+' :: cs => magnitudeOf cs
  | cs => magnitudeOf cs

end Double

end Hypertext
