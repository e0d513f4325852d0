import Mathlib.Algebra.Group.Nat.Defs
import Hypertext.Value.Basic

/-! # Amounts

A number is read off its bits: a finite one is an amount in units of `2 ^ (-1074)`, and only the two zeros
are one amount with different bits. So whole numbers, truth values and floating-point numbers are compared
by their amounts, and equality of leaves is symmetric and transitive.
-/

namespace Hypertext

set_option autoImplicit false

namespace Double

variable {d e : Double} {m n : Int}

theorem toNat_bits (d : Double) :
    d.bits.toNat = (if d.negative then 2 ^ 63 else 0) + d.exponentBits * 2 ^ 52 + d.fractionBits := by
  have hBound := d.bits.toNat_lt
  simp only [negative, exponentBits, fractionBits, Nat.shiftRight_eq_div_pow, Nat.one_shiftLeft,
    decide_eq_true_eq]
  split <;> omega

theorem eq_of_parts (hSign : d.negative = e.negative) (hExponent : d.exponentBits = e.exponentBits)
    (hFraction : d.fractionBits = e.fractionBits) : d = e := by
  apply eq_of_bits_eq
  apply UInt64.toNat_inj.mp
  rw [toNat_bits d, toNat_bits e, hSign, hExponent, hFraction]

theorem fractionBits_lt (d : Double) : d.fractionBits < 2 ^ 52 :=
  Nat.mod_lt _ (by rw [Nat.one_shiftLeft]; exact Nat.two_pow_pos 52)

theorem significand_lt (d : Double) : d.significand < 2 ^ 53 := by
  have hFraction := d.fractionBits_lt
  rw [significand, Nat.one_shiftLeft]
  split <;> omega

theorem units_eq (d : Double) : d.units = d.significand * 2 ^ (d.binaryExponent - 1) := by
  rw [units, Nat.shiftLeft_eq]

theorem units_lt (h : d.binaryExponent < e.binaryExponent) : d.units < e.units := by
  have hPositive : 1 ≤ d.binaryExponent := Nat.le_max_right _ _
  have hNormal : 2 ^ 52 ≤ e.significand := by
    have hExponent : e.exponentBits ≠ 0 := by
      rw [binaryExponent, binaryExponent] at h
      omega
    rw [significand, if_neg hExponent, Nat.one_shiftLeft]
    exact Nat.le_add_right _ _
  calc d.units = d.significand * 2 ^ (d.binaryExponent - 1) := d.units_eq
    _ < 2 ^ 53 * 2 ^ (d.binaryExponent - 1) :=
      Nat.mul_lt_mul_of_pos_right d.significand_lt (Nat.two_pow_pos _)
    _ = 2 ^ 52 * 2 ^ d.binaryExponent := by
      rw [← Nat.pow_add, ← Nat.pow_add]
      congr 1
      omega
    _ ≤ e.significand * 2 ^ (e.binaryExponent - 1) :=
      Nat.mul_le_mul hNormal (Nat.pow_le_pow_right (by omega) (by omega))
    _ = e.units := e.units_eq.symm

theorem units_inj (h : d.units = e.units) :
    d.exponentBits = e.exponentBits ∧ d.fractionBits = e.fractionBits := by
  have hExponent : d.binaryExponent = e.binaryExponent := by
    rcases Nat.lt_trichotomy d.binaryExponent e.binaryExponent with hLess | hSame | hMore
    · exact absurd h (Nat.ne_of_lt (units_lt hLess))
    · exact hSame
    · exact absurd h.symm (Nat.ne_of_lt (units_lt hMore))
  have hSignificand : d.significand = e.significand := by
    rw [units_eq, units_eq, hExponent] at h
    exact Nat.eq_of_mul_eq_mul_right (Nat.two_pow_pos _) h
  have hFirst := d.fractionBits_lt
  have hSecond := e.fractionBits_lt
  rw [binaryExponent, binaryExponent] at hExponent
  rw [significand, significand, Nat.one_shiftLeft] at hSignificand
  split at hSignificand <;> split at hSignificand <;> omega

theorem units_eq_zero_iff : d.units = 0 ↔ d.isZero = true := by
  have hScale : 2 ^ (d.binaryExponent - 1) ≠ 0 := Nat.ne_of_gt (Nat.two_pow_pos _)
  rw [units_eq, Nat.mul_eq_zero, or_iff_left hScale, significand, Nat.one_shiftLeft, isZero]
  simp only [Bool.and_eq_true, decide_eq_true_eq]
  split <;> omega

theorem signedUnits_of_isZero (h : d.isZero = true) : d.signedUnits = 0 := by
  rw [signedUnits, units_eq_zero_iff.mpr h]
  split <;> rfl

theorem signedUnits_inj (h : d.signedUnits = e.signedUnits) :
    d = e ∨ d.isZero = true ∧ e.isZero = true := by
  have hUnits : d.units = e.units ∧ (d.negative = e.negative ∨ d.units = 0) := by
    revert h
    rw [signedUnits, signedUnits]
    cases d.negative <;> cases e.negative <;> simp <;> omega
  obtain ⟨hSame, hSign | hZero⟩ := hUnits
  · obtain ⟨hExponent, hFraction⟩ := units_inj hSame
    exact .inl (eq_of_parts hSign hExponent hFraction)
  · exact .inr ⟨units_eq_zero_iff.mp hZero, units_eq_zero_iff.mp (hSame ▸ hZero)⟩

def unitsOf (n : Int) : Int := n * Int.ofNat (1 <<< 1074)

theorem unitsOf_inj : unitsOf m = unitsOf n ↔ m = n := by
  have hScale : Int.ofNat (1 <<< 1074) ≠ 0 := by
    rw [Nat.one_shiftLeft]
    exact Int.ofNat_ne_zero.mpr (Nat.ne_of_gt (Nat.two_pow_pos 1074))
  constructor
  · exact Int.eq_of_mul_eq_mul_right hScale
  · rintro rfl
    rfl

def amount? (d : Double) : Option Int :=
  if d.isNaN || d.isInfinite then none else some d.signedUnits

theorem amount?_eq_some_iff {units : Int} :
    d.amount? = some units ↔
      (d.isNaN = false ∧ d.isInfinite = false) ∧ d.signedUnits = units := by
  rw [amount?, Option.ite_none_left_eq_some, Bool.or_eq_true, not_or, Bool.not_eq_true,
    Bool.not_eq_true, Option.some.injEq]

theorem amount?_of_isZero (h : d.isZero = true) : d.amount? = some 0 := by
  have hExponent := h
  simp only [isZero, Bool.and_eq_true, decide_eq_true_eq] at hExponent
  refine amount?_eq_some_iff.mpr ⟨⟨?_, ?_⟩, signedUnits_of_isZero h⟩
  · simp [isNaN, hExponent.1]
  · simp [isInfinite, hExponent.1]

theorem isNaN_of_isInfinite (h : d.isInfinite = true) : d.isNaN = false := by
  simp only [isInfinite, Bool.and_eq_true, decide_eq_true_eq] at h
  simp [isNaN, h.2]

theorem sameInt_iff : d.sameInt n = true ↔ d.amount? = some (unitsOf n) := by
  rw [sameInt, amount?_eq_some_iff, Bool.and_eq_true, Bool.and_eq_true, Bool.not_eq_true',
    Bool.not_eq_true', decide_eq_true_eq, unitsOf]

/-- Numbers are the same when they are one finite amount, or one infinity. -/
theorem same_iff_amount :
    d.same e = true ↔ (∃ units, d.amount? = some units ∧ e.amount? = some units) ∨
      d = e ∧ d.isInfinite = true := by
  constructor
  · intro h
    simp only [same, Bool.and_eq_true, Bool.or_eq_true, decide_eq_true_eq, Bool.not_eq_true'] at h
    obtain ⟨⟨hNumber, -⟩, hBits | ⟨hZero, hOther⟩⟩ := h
    · obtain rfl := eq_of_bits_eq hBits
      cases hInfinite : d.isInfinite with
      | true => exact .inr ⟨rfl, rfl⟩
      | false =>
        have hAmount := amount?_eq_some_iff.mpr ⟨⟨hNumber, hInfinite⟩, rfl⟩
        exact .inl ⟨d.signedUnits, hAmount, hAmount⟩
    · exact .inl ⟨0, amount?_of_isZero hZero, amount?_of_isZero hOther⟩
  · rintro (⟨units, hFirst, hSecond⟩ | ⟨rfl, hInfinite⟩)
    · obtain ⟨⟨hNumber, -⟩, hUnits⟩ := amount?_eq_some_iff.mp hFirst
      obtain ⟨⟨hOther, -⟩, hOtherUnits⟩ := amount?_eq_some_iff.mp hSecond
      rw [same, hNumber, hOther]
      rcases signedUnits_inj (hUnits.trans hOtherUnits.symm) with rfl | ⟨hZero, hZeroToo⟩
      · simp
      · simp [hZero, hZeroToo]
    · exact (same_self_iff d).mpr (isNaN_of_isInfinite hInfinite)

end Double

namespace Atom

def amount? : Atom → Option Int
  | bool b => some (Double.unitsOf (if b then 1 else 0))
  | int n => some (Double.unitsOf n)
  | float d => d.amount?
  | _ => Option.none

/-- Whether a leaf that is no amount equals itself. -/
def isPlain : Atom → Bool
  | none | str _ | bytes _ | pattern _ | callable _ | path _ => true
  | float d => d.isInfinite
  | _ => false

/-- Leaves are the same when they are one amount, or one leaf that is none and equals itself. -/
theorem same_iff {a b : Atom} :
    a.same b = true ↔ (∃ units, a.amount? = some units ∧ b.amount? = some units) ∨
      a = b ∧ a.isPlain = true := by
  cases a <;> cases b <;>
    simp [same, amount?, isPlain, Double.same_iff_amount, Double.sameInt_iff, Double.unitsOf_inj]
  case bool.bool first second => cases first <;> cases second <;> decide
  case bool.int => exact eq_comm
  case int.int => exact eq_comm


theorem same_symm {a b : Atom} (h : a.same b = true) : b.same a = true := by
  rcases same_iff.mp h with ⟨units, hFirst, hSecond⟩ | ⟨rfl, -⟩
  · exact same_iff.mpr (.inl ⟨units, hSecond, hFirst⟩)
  · exact h

theorem same_trans {a b c : Atom} (hab : a.same b = true) (hbc : b.same c = true) :
    a.same c = true := by
  rcases same_iff.mp hab with ⟨units, ha, hb⟩ | ⟨rfl, -⟩
  · rcases same_iff.mp hbc with ⟨units', hb', hc⟩ | ⟨rfl, -⟩
    · rw [hb] at hb'
      cases hb'
      exact same_iff.mpr (.inl ⟨units, ha, hc⟩)
    · exact hab
  · exact hbc

end Atom

end Hypertext
