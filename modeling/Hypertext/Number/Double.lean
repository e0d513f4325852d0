/-! # Binary floating-point numbers

A number is its 64-bit pattern: a sign, eleven exponent bits and fifty-two fraction bits.
Equality and order are decided on exact fractions, also against integers.
-/

namespace Hypertext

set_option autoImplicit false

structure Double where
  bits : UInt64
  deriving DecidableEq, Repr

namespace Double

def negative (d : Double) : Bool := d.bits.toNat >>> 63 = 1

def exponentBits (d : Double) : Nat := (d.bits.toNat >>> 52) % 2048

def fractionBits (d : Double) : Nat := d.bits.toNat % (1 <<< 52)

def isNaN (d : Double) : Bool := d.exponentBits = 2047 && d.fractionBits ≠ 0

def isInfinite (d : Double) : Bool := d.exponentBits = 2047 && d.fractionBits = 0

/-- The whole number `m` of a finite magnitude `m * 2 ^ (binaryExponent - 1075)`. -/
def significand (d : Double) : Nat :=
  if d.exponentBits = 0 then d.fractionBits else (1 <<< 52) + d.fractionBits

def binaryExponent (d : Double) : Nat := max d.exponentBits 1

/-- The magnitude in units of `2 ^ (-1074)`, for a finite number. -/
def units (d : Double) : Nat := d.significand <<< (d.binaryExponent - 1)

def signedUnits (d : Double) : Int :=
  if d.negative then -(d.units : Int) else (d.units : Int)

def isZero (d : Double) : Bool := d.exponentBits = 0 && d.fractionBits = 0

/-- Equality as numbers: nothing equals a NaN, and the two zeros are equal. -/
def same (a b : Double) : Bool :=
  !a.isNaN && !b.isNaN && (a.bits = b.bits || (a.isZero && b.isZero))

def sameInt (a : Double) (n : Int) : Bool :=
  !a.isNaN && !a.isInfinite && a.signedUnits = n * Int.ofNat (1 <<< 1074)

theorem same_self_iff (a : Double) : a.same a = true ↔ a.isNaN = false := by
  simp [same]

theorem eq_of_bits_eq {a b : Double} (h : a.bits = b.bits) : a = b := by
  cases a
  cases b
  exact congrArg Double.mk h

def add (a b : Double) : Double := ⟨(Float.ofBits a.bits + Float.ofBits b.bits).toBits⟩

def div (a b : Double) : Double := ⟨(Float.ofBits a.bits / Float.ofBits b.bits).toBits⟩

def ofInt (n : Int) : Double :=
  let magnitude := Float.ofScientific n.natAbs false 0
  ⟨(if n < 0 then -magnitude else magnitude).toBits⟩

def zero : Double := ⟨0⟩

end Double

end Hypertext
