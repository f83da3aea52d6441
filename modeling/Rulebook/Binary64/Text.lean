import Rulebook.Decimal

/-!
# The text of a double

A finite double is written with the fewest decimal digits that read back as the
same double, in positional notation and never with an exponent. Among equally
short numerals the nearest is chosen, and of two equally near ones the upper;
where another notation asks for it, the one with an even last digit.

For each count of digits there is one decimal grid on which the leading digit
stands first, and the two neighbours of the double on that grid are tried. A
numeral is accepted only if it reads back, and the exact expansion stands behind
the last grid, so the text always reads back.
-/

namespace Rulebook

namespace Decimal

/-- The number of decimal digits of a natural number. -/
def digitCount (n : Nat) : Nat := (Nat.toDigits 10 n).length

/-- The same value without trailing zeros among the digits. -/
def stripZeros (d : Decimal) : Decimal :=
  if _h : d.digits ≠ 0 ∧ d.digits % 10 = 0 then
    stripZeros
      { d with digits := d.digits / 10, exponent := d.exponent + 1 }
  else d
termination_by d.digits
decreasing_by omega

/-- The positional notation of a numeral. -/
def positional (d : Decimal) : List Char :=
  let ds := Nat.toDigits 10 d.digits
  let sign := if d.negative then ['-'] else []
  if 0 ≤ d.exponent then sign ++ ds ++ List.replicate d.exponent.toNat '0'
  else
    let places := (-d.exponent).toNat
    let padded := List.replicate (places + 1 - ds.length) '0' ++ ds
    let whole := padded.length - places
    sign ++ padded.take whole ++ '.' :: padded.drop whole

end Decimal

namespace Binary64

/-- The greatest `k` with `10 ^ k` at most the value of a positive finite
double. A value below one is `1 / m` for some `m` above one, and `10 ^ j` is at
least `m` from the `j` on that is the number of digits of `⌈m⌉ - 1`. -/
def decimalOrder (x : Binary64) : Int :=
  let r := x.ratio
  if r.2 ≤ r.1 then (Decimal.digitCount (r.1 / r.2) : Int) - 1
  else -(Decimal.digitCount ((r.2 - 1) / r.1) : Int)

/-- Which of two equally near numerals is chosen. -/
inductive HalfRule where
  | upper
  | even
deriving DecidableEq, Repr

/-- The multiples of `10 ^ exponent` next below and next above the value of a
double, the nearer one first; at equal distance the rule decides. -/
def neighbours (rule : HalfRule) (x : Binary64) (exponent : Int) :
    List Decimal :=
  let num := x.ratio.1 * Nat.pow 10 (-exponent).toNat
  let den := x.ratio.2 * Nat.pow 10 exponent.toNat
  let below := num / den
  let numeral (digits : Nat) : Decimal :=
    Decimal.stripZeros ⟨x.negative, digits, exponent⟩
  let isHalf := 2 * num = (2 * below + 1) * den
  if 2 * num < (2 * below + 1) * den ∨
      (isHalf ∧ rule = .even ∧ below % 2 = 0) then
    [numeral below, numeral (below + 1)]
  else [numeral (below + 1), numeral below]

/-- All digits of a finite double. -/
def exactDecimal (x : Binary64) : Decimal :=
  if 0 ≤ x.exponent then ⟨x.negative, x.ratio.1, 0⟩
  else ⟨x.negative, x.significand * Nat.pow 5 (-x.exponent).toNat, x.exponent⟩

/-- The shortest decimal numeral of a finite double. -/
def shortestDecimal (rule : HalfRule) (x : Binary64) : Decimal :=
  if x.magnitude = 0 then ⟨x.negative, 0, 0⟩
  else
    let order := x.decimalOrder
    let shortest := (List.range 17).findSome? fun (n : Nat) =>
      (x.neighbours rule (order - n)).find? fun d => decide (d.toBinary64 = x)
    shortest.getD x.exactDecimal

/-- The text of a double. -/
def text (x : Binary64) : String :=
  if x.isNaN then "NaN"
  else if x.isFinite then String.ofList (x.shortestDecimal .upper).positional
  else if x.negative then "-inf"
  else "inf"

end Binary64

end Rulebook
