import Hypertext.Text.Lowering

/-! # Comparison without regard to case

Two characters are alike when their single-character lower-case images are equal or stand
in one group of letters that share an upper-case form.
-/

namespace Hypertext.Text

set_option autoImplicit false

/-- Lower-case code points that share an upper-case form. -/
def sharedUpperCase : List (List Nat) := [
  [105, 305], [115, 383], [181, 956], [837, 953, 8126], [912, 8147], [944, 8163], [946, 976],
  [949, 1013], [952, 977], [954, 1008], [960, 982], [961, 1009], [962, 963], [966, 981],
  [1074, 7296], [1076, 7297], [1086, 7298], [1089, 7299], [1090, 7300, 7301], [1098, 7302],
  [1123, 7303], [7304, 42571], [7777, 7835], [64261, 64262]]

/-- The single-character image: a dotted capital i becomes a plain one. -/
def foldCodePoint (n : Nat) : Nat :=
  if n = 0x130 then 0x69 else lowerCodePoint loweringRows n

def caseImages (n : Nat) : List Nat :=
  let folded := foldCodePoint n
  (sharedUpperCase.find? (·.contains folded)).getD [folded]

def alike (c d : Char) : Bool := (caseImages c.toNat).contains (foldCodePoint d.toNat)

/-- A code point whose image is `n`: an upper-case form of `n`, or `n` itself. -/
def raiseCodePoint : List (Nat × Nat × Nat × Nat) → Nat → Nat
  | [], n => n
  | (first, last, stride, image) :: rest, n =>
    if image ≤ n ∧ n - image ≤ last - first ∧ (n - image) % stride = 0 then first + (n - image)
    else raiseCodePoint rest n

end Hypertext.Text
