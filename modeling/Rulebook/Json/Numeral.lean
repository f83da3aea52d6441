import Rulebook.Binary64.Arithmetic
import Rulebook.Json.Basic

/-!
# JSON numerals

A numeral without a point and an exponent is a whole number if it fits 64 bits,
with or without a sign bit; only minus zero is none. Any other numeral is read in
the arithmetic of doubles: its leading digits, as many as fit 64 bits, are
multiplied or divided by a power of ten, and each of these steps is rounded. So a
numeral with many digits may come out as a neighbour of the double that is
nearest to it.

A numeral that is too large for a double has no value.
-/

namespace Rulebook.Json

/-- A number as it is written: the digits in front of the point and behind it,
and the power of ten. -/
structure Numeral where
  negative : Bool
  whole : List Char
  fraction : List Char
  exponent : Option Int
deriving DecidableEq

namespace Numeral

/-- Appends digits to a number as long as it stays below `2 ^ 64`: the number,
and the digits that are left over. -/
def absorb (n : Nat) : List Char → Nat × List Char
  | [] => (n, [])
  | d :: rest =>
    let next := n * 10 + (d.toNat - '0'.toNat)
    if next < 0x10000000000000000 then absorb next rest else (n, d :: rest)

/-- A double times a power of ten, if that is finite. Powers beyond the range of
the doubles are only divided by. -/
def scaled? (x : Binary64) (exponent : Int) : Option Binary64 :=
  if 0 ≤ exponent then
    if x.magnitude = 0 then some x
    else if exponent ≤ 308 then
      let product := x.mul (.powerOfTen exponent.toNat)
      if product.isFinite then some product else none
    else none
  else if -308 ≤ exponent then some (x.div (.powerOfTen (-exponent).toNat))
  else if x.magnitude = 0 then some x
  else scaled? (x.div (.powerOfTen 308)) (exponent + 308)
termination_by (-exponent).toNat

/-- The value of a numeral. -/
def toJson? (n : Numeral) : Option Json :=
  let whole := absorb 0 n.whole
  if whole.2.isEmpty && n.fraction.isEmpty && n.exponent.isNone then
    if !n.negative then some (.integer whole.1)
    else if 0 < whole.1 ∧ whole.1 ≤ 0x8000000000000000 then
      some (.integer (-whole.1))
    else some (.double (.nearest true whole.1 1))
  else
    let all := absorb whole.1 n.fraction
    let places : Int := n.fraction.length - all.2.length
    let exponent := whole.2.length - places + n.exponent.getD 0
    (scaled? (.ofNat all.1) exponent).map fun x =>
      .double { x with negative := n.negative }

end Numeral

end Rulebook.Json
