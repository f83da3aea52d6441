import Rulebook.Binary64.Nearest

/-!
# Decimal numerals

A decimal numeral is a sign, a natural number of digits and a power of ten. It
stands for one double, the nearest.
-/

namespace Rulebook

/-- The numeral `±digits * 10 ^ exponent`. -/
structure Decimal where
  negative : Bool
  digits : Nat
  exponent : Int
deriving DecidableEq

namespace Decimal

/-- Whether a list of characters is not empty and has decimal digits only. -/
def isDigits (s : List Char) : Bool :=
  !s.isEmpty && s.all Char.isDigit

/-- The number that a list of decimal digits spells. -/
def ofDigits (ds : List Char) : Nat :=
  ds.foldl (fun n d => n * 10 + (d.toNat - '0'.toNat)) 0

/-- The numeral spelled by digits before a point, digits after it, and a power
of ten. -/
def ofParts (negative : Bool) (whole fraction : List Char) (exponent : Int) :
    Decimal where
  negative := negative
  digits := ofDigits (whole ++ fraction)
  exponent := exponent - fraction.length

/-- The double nearest to a numeral. A power of ten far outside the range of
the doubles is decided without computing it: every numeral over `10 ^ 400` is
infinite, and one whose digits cannot make up for the power is zero. -/
def toBinary64 (d : Decimal) : Binary64 :=
  if d.digits = 0 then .zero d.negative
  else if 400 < d.exponent then .infinity d.negative
  else if d.exponent < -400 - (d.digits.log2 : Int) then .zero d.negative
  else
    .nearest d.negative (d.digits * Nat.pow 10 d.exponent.toNat)
      (Nat.pow 10 (-d.exponent).toNat)

theorem ofDigits_append_singleton (ds : List Char) (d : Char) :
    ofDigits (ds ++ [d]) = ofDigits ds * 10 + (d.toNat - '0'.toNat) := by
  simp [ofDigits]

end Decimal

end Rulebook
