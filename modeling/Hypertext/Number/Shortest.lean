import Hypertext.Number.Decimal

/-! # The shortest decimal of a double

Among the decimals that read back as the number, the ones with the fewest digits are taken,
of these the nearest, and of two equally near ones the one with an even last digit.

A decimal with `n` digits near the value lies on the grid of multiples of a power of ten; if
any multiple reads back, so does one of the value's two neighbours on the grid.
-/

namespace Hypertext

set_option autoImplicit false

namespace Shortest

/-- The reals that round to a double, in quarter units of its last place. -/
structure Span where
  low : Nat
  value : Nat
  high : Nat
  closed : Bool

def span (d : Double) : Span :=
  let m := d.significand
  let low := if d.fractionBits = 0 && d.exponentBits > 1 then 4 * m - 1 else 4 * m - 2
  ⟨low, 4 * m, 4 * m + 2, m % 2 = 0⟩

/-- `numerator / denominator` of a quarter unit of the last place. -/
def quarter (d : Double) : Nat × Nat :=
  if d.binaryExponent ≥ 1077 then (1 <<< (d.binaryExponent - 1077), 1)
  else (1, 1 <<< (1077 - d.binaryExponent))

/-- The number of decimal places of the leading digit, `p` with `10 ^ p ≤ n / d < 10 ^ (p + 1)`. -/
def leadingBelow : Nat → Nat → Nat → Int → Int
  | 0, _, _, p => p
  | fuel + 1, n, d, p => if d ≤ n then p else leadingBelow fuel (n * 10) d (p - 1)

def leadingAbove : Nat → Nat → Nat → Int → Int
  | 0, _, _, p => p
  | fuel + 1, n, d, p => if n < d * 10 then p else leadingAbove fuel n (d * 10) (p + 1)

def leading (n d : Nat) : Int :=
  if n < d then leadingBelow 400 n d 0 else leadingAbove 400 n d 0

/-- `n / d` in units of `10 ^ k`, as a fraction. -/
def scaled (n d : Nat) (k : Int) : Nat × Nat :=
  if k ≥ 0 then (n, d * Nat.pow 10 k.toNat) else (n * Nat.pow 10 (-k).toNat, d)

/-- The better of the two grid neighbours that read back, if one does. -/
def onGrid (s : Span) (unit : Nat × Nat) (k : Int) : Option Nat :=
  let (n, d) := scaled unit.1 unit.2 k
  let floor := s.value * n / d
  let fits (x : Nat) : Bool :=
    if s.closed then s.low * n ≤ x * d && x * d ≤ s.high * n
    else s.low * n < x * d && x * d < s.high * n
  let below := floor > 0 && fits floor
  let above := fits (floor + 1)
  match below, above with
  | false, false => none
  | true, false => some floor
  | false, true => some (floor + 1)
  | true, true =>
    let down := s.value * n - floor * d
    let up := (floor + 1) * d - s.value * n
    if down < up then some floor
    else if up < down then some (floor + 1)
    else if floor % 2 = 0 then some floor else some (floor + 1)

def search (s : Span) (unit : Nat × Nat) (top : Int) : Nat → Nat → Decimal
  | 0, _ => ⟨0, 0⟩
  | fuel + 1, digits =>
    let k := top - digits + 1
    match onGrid s unit k with
    | some x => ⟨x, k⟩
    | none => search s unit top fuel (digits + 1)

def decimal (d : Double) : Decimal :=
  let s := span d
  let unit := quarter d
  (search s unit (leading (s.value * unit.1) unit.2) 17 1).trimmed

end Shortest

structure DecimalLayout where
  /-- The leading digit's place is written out when it lies between these. -/
  leastPlace : Int
  greatestPlace : Int
  exponentDigits : Nat
  nan : String
  infinity : String

namespace DecimalLayout

def padded (width n : Nat) : String :=
  let digits := toString n
  String.ofList (List.replicate (width - digits.length) '0') ++ digits

def decimal (layout : DecimalLayout) (d : Decimal) : String :=
  let digits := (toString d.digits).toList
  let count := digits.length
  let place := d.exponent + count - 1
  if layout.leastPlace ≤ place && place ≤ layout.greatestPlace then
    if d.exponent ≥ 0 then
      String.ofList (digits ++ List.replicate d.exponent.toNat '0') ++ ".0"
    else if place ≥ 0 then
      String.ofList (digits.take (place.toNat + 1) ++ '.' :: digits.drop (place.toNat + 1))
    else
      "0." ++ String.ofList (List.replicate (-place - 1).toNat '0' ++ digits)
  else
    let fraction := if count = 1 then [] else '.' :: digits.drop 1
    let sign := if place < 0 then "-" else "+"
    String.ofList (digits.take 1 ++ fraction) ++ "e" ++ sign ++
      padded layout.exponentDigits place.natAbs

def double (layout : DecimalLayout) (d : Double) : String :=
  if d.isNaN then layout.nan
  else
    let sign := if d.negative then "-" else ""
    if d.isInfinite then sign ++ layout.infinity
    else if d.isZero then sign ++ "0.0"
    else sign ++ layout.decimal (Shortest.decimal d)

/-- Places from the fourth after the point to the sixteenth before it are written out, an
exponent has at least two digits, and a whole number keeps a point and a zero. -/
def standard : DecimalLayout := ⟨-4, 15, 2, "nan", "inf"⟩

end DecimalLayout

def Double.written (d : Double) : String := DecimalLayout.standard.double d

end Hypertext
