import Rulebook.Decimal

/-!
# Natural numbers in texts
-/

namespace Rulebook.Text

/-- The natural number that one or more decimal digits spell. -/
def natural? (s : List Char) : Option Nat :=
  if Decimal.isDigits s then some (Decimal.ofDigits s) else none

/-- The natural number below a bound that a text spells, in front of which a
plus sign may stand. -/
def naturalBelow? (bound : Nat) (s : List Char) : Option Nat :=
  let digits := if s.head? == some '+' then s.drop 1 else s
  (natural? digits).filter fun n => decide (n < bound)

theorem naturalBelow?_lt {bound n : Nat} {s : List Char}
    (h : naturalBelow? bound s = some n) : n < bound := by
  simpa using (Option.filter_eq_some_iff.mp h).2

end Rulebook.Text
