/-!
# Binary floating-point numbers

The numbers of rules and records are IEEE 754 doubles. A double is kept as its
sign and the other 63 bits of its encoding, the *magnitude*; among the numbers
of one sign the magnitude grows with the number, so comparing two doubles is
comparing two integers.

Finite doubles have the value `±significand * 2 ^ exponent`. Of the magnitude,
the lowest 52 bits belong to the significand.
-/

namespace Rulebook

/-- A double: its sign bit and the 63 bits below it. -/
structure Binary64 where
  negative : Bool
  magnitude : Nat
  magnitude_lt : magnitude < 0x8000000000000000
deriving DecidableEq

namespace Binary64

/-- The magnitude of the infinities; larger ones are not numbers. -/
def infiniteMagnitude : Nat := 0x7FF0000000000000

/-- The double with the given sign and magnitude; magnitudes from infinity on
all become infinity. -/
def ofMagnitude (negative : Bool) (magnitude : Nat) : Binary64 where
  negative := negative
  magnitude := min magnitude infiniteMagnitude
  magnitude_lt := by
    have : infiniteMagnitude < 0x8000000000000000 := by decide
    omega

/-- The double with the given sign and magnitude zero. -/
def zero (negative : Bool) : Binary64 := ofMagnitude negative 0

/-- The infinity of the given sign. -/
def infinity (negative : Bool) : Binary64 :=
  ofMagnitude negative infiniteMagnitude

/-- One of the values that are not numbers. -/
def notANumber : Binary64 where
  negative := false
  magnitude := infiniteMagnitude + 0x8000000000000
  magnitude_lt := by decide

/-- The double with the given 64-bit encoding. -/
def ofBits (bits : Nat) : Binary64 where
  negative := bits / 0x8000000000000000 % 2 == 1
  magnitude := bits % 0x8000000000000000
  magnitude_lt := Nat.mod_lt _ (by decide)

/-- The 64-bit encoding of a double. -/
def toBits (x : Binary64) : Nat :=
  (if x.negative then 0x8000000000000000 else 0) + x.magnitude

theorem ofBits_toBits (x : Binary64) : ofBits x.toBits = x := by
  obtain ⟨negative, magnitude, h⟩ := x
  cases negative <;> simp [ofBits, toBits] <;> omega

theorem toBits_lt (x : Binary64) : x.toBits < 0x10000000000000000 := by
  have := x.magnitude_lt
  unfold toBits
  split <;> omega

/-- Whether a double is not a number. -/
def isNaN (x : Binary64) : Bool := decide (infiniteMagnitude < x.magnitude)

/-- Whether a double is a number and not an infinity. -/
def isFinite (x : Binary64) : Bool := decide (x.magnitude < infiniteMagnitude)

/-- The integer that orders the numbers; the two zeros share one. -/
def rank (x : Binary64) : Int :=
  if x.negative then -(x.magnitude : Int) else x.magnitude

/-- Equality of numbers: the two zeros are equal, and what is not a number
equals nothing. -/
def equal (x y : Binary64) : Bool :=
  !x.isNaN && !y.isNaN && decide (x.rank = y.rank)

/-- The strict order of numbers; it never holds of what is not a number. -/
def less (x y : Binary64) : Bool :=
  !x.isNaN && !y.isNaN && decide (x.rank < y.rank)

/-- The weak order of numbers; it never holds of what is not a number. -/
def atMost (x y : Binary64) : Bool :=
  !x.isNaN && !y.isNaN && decide (x.rank ≤ y.rank)

theorem isNaN_of_isFinite {x : Binary64} (h : x.isFinite = true) :
    x.isNaN = false := by
  simp only [isFinite, isNaN, decide_eq_true_eq, decide_eq_false_iff_not] at *
  omega

theorem isNaN_ofMagnitude (negative : Bool) (magnitude : Nat) :
    (ofMagnitude negative magnitude).isNaN = false :=
  decide_eq_false (Nat.not_lt.mpr (Nat.min_le_right _ _))

theorem less_eq_not_atMost {x y : Binary64} (hx : x.isNaN = false)
    (hy : y.isNaN = false) : x.less y = !y.atMost x := by
  rw [Bool.eq_iff_iff]
  simp [less, atMost, hx, hy]

/-- The integer factor of a finite double's value. -/
def significand (x : Binary64) : Nat :=
  if x.magnitude < 0x10000000000000 then x.magnitude
  else 0x10000000000000 + x.magnitude % 0x10000000000000

/-- The power of two in a finite double's value. -/
def exponent (x : Binary64) : Int :=
  (max 1 (x.magnitude / 0x10000000000000) : Nat) - 1075

end Binary64

end Rulebook
