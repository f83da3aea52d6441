import Rulebook.Binary64.Basic

/-!
# The nearest double

A ratio of two natural numbers is rounded to the nearest double, and of two
equally near ones to the one with the even significand. All of it is exact
arithmetic on natural numbers.

The encoding makes the last step one addition: a significand `q` at the scale
`2 ^ e` has the magnitude `(e + 1074) * 2 ^ 52 + q`, both for the subnormal
numbers, where `e = -1074` and `q < 2 ^ 52`, and for the normal ones, where
`2 ^ 52 ≤ q`; a `q` that was rounded up to `2 ^ 53` carries into the exponent.
-/

namespace Rulebook.Binary64

/-- A quotient rounded to the nearest natural number, a half to the even
neighbour. -/
def roundHalfEven (num den : Nat) : Nat :=
  let q := num / den
  let r := num % den
  if 2 * r < den then q
  else if den < 2 * r then q + 1
  else if q % 2 = 0 then q
  else q + 1

/-- The numerator and the denominator of `num / den` divided by `2 ^ e`. -/
def scaleDown (num den : Nat) (e : Int) : Nat × Nat :=
  (num * Nat.pow 2 (-e).toNat, den * Nat.pow 2 e.toNat)

/-- The greatest `k` with `2 ^ k ≤ num / den`, for positive `num` and `den`. -/
def binaryOrder (num den : Nat) : Int :=
  let k : Int := (num.log2 : Int) - (den.log2 : Int)
  let scaled := scaleDown num den k
  if scaled.2 ≤ scaled.1 then k else k - 1

/-- The magnitude of the double that is nearest to `num / den`, not bounded by
that of infinity. -/
def roundedMagnitude (num den : Nat) : Nat :=
  if num = 0 then 0
  else
    let e := max (binaryOrder num den - 52) (-1074)
    let scaled := scaleDown num den e
    (e + 1074).toNat * 0x10000000000000 + roundHalfEven scaled.1 scaled.2

/-- The double that is nearest to `num / den`, with the given sign; what is too
large for a finite double becomes infinity. -/
def nearest (negative : Bool) (num den : Nat) : Binary64 :=
  ofMagnitude negative (roundedMagnitude num den)

/-- The double that is nearest to a natural number. -/
def ofNat (n : Nat) : Binary64 := nearest false n 1

/-- The double that is nearest to an integer. -/
def ofInt (i : Int) : Binary64 := nearest (decide (i < 0)) i.natAbs 1

/-- The exact value of a finite double without its sign, as a numerator and a
denominator. -/
def ratio (x : Binary64) : Nat × Nat :=
  (x.significand * Nat.pow 2 x.exponent.toNat, Nat.pow 2 (-x.exponent).toNat)

/-- A non-negative finite double rounded to a natural number, a half upwards. -/
def roundHalfUp (x : Binary64) : Nat :=
  (2 * x.ratio.1 + x.ratio.2) / (2 * x.ratio.2)

end Rulebook.Binary64
