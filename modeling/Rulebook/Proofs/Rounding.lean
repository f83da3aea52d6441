import Mathlib
import Rulebook.Binary64.Text

/-!
# Doubles are rounded to themselves

A ratio that is the exact value of a finite double is rounded to that double:
its binary order is that of the double, so at the scale of the double it is the
significand itself and nothing is left to round. In particular all digits of a
double read back as the double.
-/

namespace Rulebook.Binary64

/-! ## The binary order of a ratio -/

theorem scaleDown_pos {den : Nat} (hden : 0 < den) (num : Nat) (e : Int) :
    0 < (scaleDown num den e).2 :=
  Nat.mul_pos hden (Nat.pow_pos (by decide))

theorem ratio_scaleDown
    {den : Nat} (hden : 0 < den) (num : Nat) (e : Int) :
    ((scaleDown num den e).1 : ℚ) / (scaleDown num den e).2 =
      num / den / 2 ^ e := by
  have hne : (den : ℚ) ≠ 0 := by exact_mod_cast hden.ne'
  rcases le_total 0 e with he | he
  · obtain ⟨n, rfl⟩ := Int.eq_ofNat_of_zero_le he
    simp only [scaleDown, Nat.pow_eq, Int.toNat_natCast,
      Int.toNat_neg_natCast, pow_zero, mul_one, zpow_natCast]
    push_cast
    rw [div_div]
  · obtain ⟨n, hn⟩ := Int.eq_ofNat_of_zero_le (Int.neg_nonneg_of_nonpos he)
    obtain rfl : e = -(n : ℤ) := by omega
    simp only [scaleDown, Nat.pow_eq, neg_neg, Int.toNat_natCast,
      Int.toNat_neg_natCast, pow_zero, mul_one, zpow_neg, zpow_natCast]
    push_cast
    field_simp

theorem scaleDown_le_iff
    {den : Nat} (hden : 0 < den) (num : Nat) (e : Int) :
    (scaleDown num den e).2 ≤ (scaleDown num den e).1 ↔
      (2 : ℚ) ^ e ≤ num / den := by
  have hpos : (0 : ℚ) < (scaleDown num den e).2 := by
    exact_mod_cast scaleDown_pos hden num e
  have htwo : (0 : ℚ) < 2 ^ e := by positivity
  rw [← Nat.cast_le (α := ℚ), ← one_le_div₀ hpos, ratio_scaleDown hden,
    one_le_div₀ htwo]

/-- The binary order of a positive ratio is the greatest `k` with `2 ^ k` at
most the ratio. -/
theorem binaryOrder_spec
    {num den : Nat} (hnum : 0 < num) (hden : 0 < den) :
    (2 : ℚ) ^ binaryOrder num den ≤ num / den ∧
      (num / den : ℚ) < 2 ^ (binaryOrder num den + 1) := by
  have hnumLower : ((2 : ℚ) ^ num.log2) ≤ num := by
    exact_mod_cast Nat.log2_self_le hnum.ne'
  have hnumUpper : (num : ℚ) < 2 ^ (num.log2 + 1) := by
    exact_mod_cast Nat.lt_log2_self
  have hdenLower : ((2 : ℚ) ^ den.log2) ≤ den := by
    exact_mod_cast Nat.log2_self_le hden.ne'
  have hdenUpper : (den : ℚ) < 2 ^ (den.log2 + 1) := by
    exact_mod_cast Nat.lt_log2_self
  have hdenPos : (0 : ℚ) < den := by exact_mod_cast hden
  have htwo : (2 : ℚ) ≠ 0 := by norm_num
  simp only [binaryOrder]
  split
  · next h =>
    refine ⟨(scaleDown_le_iff hden num _).mp h, ?_⟩
    rw [div_lt_iff₀ hdenPos]
    calc (num : ℚ) < 2 ^ (num.log2 + 1) := hnumUpper
      _ = 2 ^ ((num.log2 : ℤ) - den.log2 + 1) * 2 ^ den.log2 := by
          rw [← zpow_natCast, ← zpow_natCast, ← zpow_add₀ htwo]
          push_cast
          ring_nf
      _ ≤ 2 ^ ((num.log2 : ℤ) - den.log2 + 1) * den := by gcongr
  · next h =>
    rw [scaleDown_le_iff hden, not_le] at h
    refine ⟨?_, by rwa [sub_add_cancel]⟩
    rw [le_div_iff₀ hdenPos]
    calc (2 : ℚ) ^ ((num.log2 : ℤ) - den.log2 - 1) * den
        ≤ 2 ^ ((num.log2 : ℤ) - den.log2 - 1) * 2 ^ (den.log2 + 1) := by
          gcongr
      _ = 2 ^ num.log2 := by
          rw [← zpow_natCast, ← zpow_natCast, ← zpow_add₀ htwo]
          push_cast
          ring_nf
      _ ≤ num := hnumLower

theorem binaryOrder_eq
    {num den : Nat} {k : Int} (hnum : 0 < num) (hden : 0 < den)
    (hlower : (2 : ℚ) ^ k ≤ num / den)
    (hupper : (num / den : ℚ) < 2 ^ (k + 1)) : binaryOrder num den = k := by
  obtain ⟨hle, hlt⟩ := binaryOrder_spec hnum hden
  have hone : (1 : ℚ) < 2 := by norm_num
  have h₁ := (zpow_lt_zpow_iff_right₀ hone).mp (lt_of_le_of_lt hle hupper)
  have h₂ := (zpow_lt_zpow_iff_right₀ hone).mp (lt_of_le_of_lt hlower hlt)
  omega

/-! ## Exact values -/

/-- The exponent and the significand make up the magnitude. -/
theorem magnitude_eq (x : Binary64) :
    (x.exponent + 1074).toNat * 0x10000000000000 + x.significand =
      x.magnitude := by
  simp only [exponent, significand]
  split <;> omega

/-- The significand of a double has 53 bits, or fewer at the smallest
exponent. -/
theorem significand_bounds (x : Binary64) :
    x.significand < 2 ^ 53 ∧ -1074 ≤ x.exponent ∧
      (x.exponent ≠ -1074 → 2 ^ 52 ≤ x.significand) := by
  simp only [exponent, significand]
  refine ⟨?_, by omega, fun hne => ?_⟩
  · split <;> omega
  · split <;> omega

theorem significand_pos {x : Binary64} (h : x.magnitude ≠ 0) :
    0 < x.significand := by
  have := x.magnitude_eq
  obtain ⟨-, -, hnormal⟩ := x.significand_bounds
  by_contra hzero
  have hexponent : x.exponent = -1074 := by
    by_contra hne
    have := hnormal hne
    omega
  rw [hexponent] at this
  simp at this
  omega

theorem roundHalfEven_mul (q : Nat) {den : Nat} (h : 0 < den) :
    roundHalfEven (q * den) den = q := by
  simp [roundHalfEven, Nat.mul_div_cancel q h, h]

/-- A ratio that is the value of a finite double has the magnitude of that
double. -/
theorem roundedMagnitude_of_ratio_eq
    {x : Binary64} {num den : Nat} (hx : x.magnitude ≠ 0) (hden : 0 < den)
    (h : (num / den : ℚ) = x.significand * 2 ^ x.exponent) :
    roundedMagnitude num den = x.magnitude := by
  obtain ⟨hsignificand, hexponent, hnormal⟩ := x.significand_bounds
  have hpos := significand_pos hx
  have hposQ : (0 : ℚ) < x.significand := by exact_mod_cast hpos
  have htwo : (2 : ℚ) ≠ 0 := by norm_num
  have hnum : 0 < num := by
    rcases Nat.eq_zero_or_pos num with rfl | hnum
    · have : (0 : ℚ) < x.significand * 2 ^ x.exponent := by positivity
      simp [← h] at this
    · exact hnum
  have horder :
      binaryOrder num den = (x.significand.log2 : ℤ) + x.exponent := by
    apply binaryOrder_eq hnum hden
    · rw [h, zpow_add₀ htwo, zpow_natCast]
      gcongr
      exact_mod_cast Nat.log2_self_le hpos.ne'
    · rw [h, add_right_comm, zpow_add₀ htwo]
      gcongr
      exact_mod_cast Nat.lt_log2_self (n := x.significand)
  have hscale :
      max (binaryOrder num den - 52) (-1074) = x.exponent := by
    rw [horder]
    have hlog : x.significand.log2 ≤ 52 :=
      Nat.le_of_lt_succ ((Nat.log2_lt hpos.ne').mpr hsignificand)
    by_cases hsubnormal : x.exponent = -1074
    · omega
    · have : 52 ≤ x.significand.log2 :=
        (Nat.le_log2 hpos.ne').mpr (hnormal hsubnormal)
      omega
  have hexact : (scaleDown num den x.exponent).1 =
      x.significand * (scaleDown num den x.exponent).2 := by
    have hne : ((scaleDown num den x.exponent).2 : ℚ) ≠ 0 := by
      exact_mod_cast (scaleDown_pos hden num x.exponent).ne'
    have hratio := ratio_scaleDown hden num x.exponent
    rw [h, mul_div_assoc, div_self (by positivity), mul_one,
      div_eq_iff hne] at hratio
    exact_mod_cast hratio
  rw [roundedMagnitude, if_neg hnum.ne']
  simp only [hscale, hexact]
  rw [roundHalfEven_mul _ (scaleDown_pos hden num x.exponent), magnitude_eq]

/-- A ratio that is the value of a finite double is rounded to it. -/
theorem nearest_of_ratio_eq
    {x : Binary64} {num den : Nat} (hfinite : x.isFinite = true)
    (hx : x.magnitude ≠ 0) (hden : 0 < den)
    (h : (num / den : ℚ) = x.significand * 2 ^ x.exponent) :
    nearest x.negative num den = x := by
  have hmagnitude : x.magnitude < infiniteMagnitude := by
    simpa [isFinite] using hfinite
  rw [nearest, roundedMagnitude_of_ratio_eq hx hden h]
  obtain ⟨negative, magnitude, hlt⟩ := x
  simp only [ofMagnitude, mk.injEq, true_and]
  exact Nat.min_eq_left hmagnitude.le

/-- Numerals that are not far outside the range of the doubles are rounded. -/
theorem toBinary64_eq_nearest
    {d : Decimal} (hdigits : d.digits ≠ 0) (hupper : d.exponent ≤ 400)
    (hlower : -400 - (d.digits.log2 : ℤ) ≤ d.exponent) :
    d.toBinary64 =
      nearest d.negative (d.digits * 10 ^ d.exponent.toNat)
        (10 ^ (-d.exponent).toNat) := by
  rw [Decimal.toBinary64, if_neg hdigits, if_neg (by omega),
    if_neg (by omega)]
  rfl

/-- All digits of a finite double read back as the double. -/
theorem toBinary64_exactDecimal
    {x : Binary64} (hfinite : x.isFinite = true) (hx : x.magnitude ≠ 0) :
    x.exactDecimal.toBinary64 = x := by
  have hpos := significand_pos hx
  by_cases he : 0 ≤ x.exponent
  · obtain ⟨n, hn⟩ := Int.eq_ofNat_of_zero_le he
    have hexact :
        x.exactDecimal = ⟨x.negative, x.significand * 2 ^ n, 0⟩ := by
      simp [exactDecimal, ratio, hn]
    rw [hexact, toBinary64_eq_nearest (by positivity) (by simp)
      (by simp only; omega)]
    apply nearest_of_ratio_eq hfinite hx (by simp)
    rw [hn]
    push_cast
    simp
  · obtain ⟨n, hn⟩ := Int.eq_ofNat_of_zero_le (show 0 ≤ -x.exponent by omega)
    have hexponent : x.exponent = -(n : ℤ) := by omega
    have hexact :
        x.exactDecimal = ⟨x.negative, x.significand * 5 ^ n, -n⟩ := by
      rw [exactDecimal, if_neg he, hn, hexponent]
      rfl
    have hdigits : x.significand * 5 ^ n ≠ 0 := by positivity
    have hlog : 2 * n ≤ (x.significand * 5 ^ n).log2 := by
      rw [Nat.le_log2 hdigits, pow_mul]
      calc (2 ^ 2) ^ n ≤ 5 ^ n := Nat.pow_le_pow_left (by norm_num) n
        _ ≤ x.significand * 5 ^ n := Nat.le_mul_of_pos_left _ hpos
    rw [hexact, toBinary64_eq_nearest hdigits (by simp only; omega)
      (by simp only; omega)]
    apply nearest_of_ratio_eq hfinite hx (by simp)
    rw [hexponent]
    push_cast
    simp only [neg_neg, Int.toNat_neg_natCast, Int.toNat_natCast, pow_zero,
      mul_one, zpow_neg, zpow_natCast]
    rw [show (10 : ℚ) = 2 * 5 by norm_num, mul_pow]
    field_simp

theorem zero_of_magnitude_eq_zero
    {x : Binary64} (hx : x.magnitude = 0) : zero x.negative = x := by
  obtain ⟨negative, magnitude, hlt⟩ := x
  simpa [zero, ofMagnitude] using hx.symm

/-- The digits with which a finite double is written read back as the
double. -/
theorem toBinary64_shortestDecimal
    (rule : HalfRule) {x : Binary64} (hfinite : x.isFinite = true) :
    (x.shortestDecimal rule).toBinary64 = x := by
  by_cases hx : x.magnitude = 0
  · simp only [shortestDecimal, if_pos hx, Decimal.toBinary64, if_true]
    exact zero_of_magnitude_eq_zero hx
  · simp only [shortestDecimal, if_neg hx]
    cases hfound : (List.range 17).findSome? fun (n : Nat) =>
        (x.neighbours rule (x.decimalOrder - n)).find?
          fun d => decide (d.toBinary64 = x) with
    | none => exact toBinary64_exactDecimal hfinite hx
    | some d =>
        obtain ⟨n, -, hn⟩ := List.exists_of_findSome?_eq_some hfound
        simpa using List.find?_some hn

end Rulebook.Binary64
