/-! # Similar spellings

The likeness of two words is twice the number of characters in common stretches over the sum
of their lengths. The longest common stretch is found first, the leftmost in the candidate and
then in the word when several are as long, and the search goes on to both sides of it.
-/

namespace Hypertext.Text

set_option autoImplicit false

def commonStart : List Char → List Char → Nat
  | c :: cs, d :: ds => if c = d then commonStart cs ds + 1 else 0
  | _, _ => 0

structure Stretch where
  inFirst : Nat
  inSecond : Nat
  size : Nat

/-- The best stretch that begins with the first character of `a`. -/
def bestAtHead (a : List Char) (i : Nat) : List Char → Nat → Stretch → Stretch
  | [], _, best => best
  | d :: ds, j, best =>
    let size := commonStart a (d :: ds)
    bestAtHead a i ds (j + 1) (if size > best.size then ⟨i, j, size⟩ else best)

def bestFrom (b : List Char) : List Char → Nat → Stretch → Stretch
  | [], _, best => best
  | c :: cs, i, best => bestFrom b cs (i + 1) (bestAtHead (c :: cs) i b 0 best)

def longestStretch (a b : List Char) : Stretch := bestFrom b a 0 ⟨0, 0, 0⟩

/-- Characters in common stretches. Each round leaves a shorter candidate, so as many rounds
as it has characters are enough. -/
def overlap : Nat → List Char → List Char → Nat
  | 0, _, _ => 0
  | rounds + 1, a, b =>
    let s := longestStretch a b
    if s.size = 0 then 0
    else
      s.size + overlap rounds (a.take s.inFirst) (b.take s.inSecond) +
        overlap rounds (a.drop (s.inFirst + s.size)) (b.drop (s.inSecond + s.size))

structure Likeness where
  candidate : String
  common : Nat
  total : Nat

def likeness (candidate word : String) : Likeness :=
  let a := candidate.toList
  let b := word.toList
  ⟨candidate, overlap a.length a b, a.length + b.length⟩

namespace Likeness

def isClose (l : Likeness) : Bool := 3 * l.total ≤ 10 * l.common

/-- The more alike come first, and of two equally alike the later spelling. -/
def precedes (l m : Likeness) : Bool :=
  l.common * m.total > m.common * l.total ||
    (l.common * m.total = m.common * l.total && m.candidate ≤ l.candidate)

end Likeness

def closeSpellings (word : String) (candidates : List String) (count : Nat) : List String :=
  let close := (candidates.map (likeness · word)).filter Likeness.isClose
  ((close.mergeSort Likeness.precedes).take count).map (·.candidate)

end Hypertext.Text
