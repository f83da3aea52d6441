import Rulebook.Decimal

/-!
# Products and quotients of doubles

The product or quotient of two finite doubles is computed exactly and rounded
once, to the nearest double.
-/

namespace Rulebook.Binary64

/-- The product of two finite doubles, rounded. -/
def mul (x y : Binary64) : Binary64 :=
  nearest (x.negative != y.negative) (x.ratio.1 * y.ratio.1)
    (x.ratio.2 * y.ratio.2)

/-- The quotient of two finite doubles, rounded; the divisor is not zero. -/
def div (x y : Binary64) : Binary64 :=
  nearest (x.negative != y.negative) (x.ratio.1 * y.ratio.2)
    (x.ratio.2 * y.ratio.1)

/-- The double that is nearest to a power of ten. -/
def powerOfTen (n : Nat) : Binary64 := Decimal.toBinary64 ⟨false, 1, n⟩

end Rulebook.Binary64
