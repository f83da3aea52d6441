import Mathlib
import Rulebook.Proofs.Rounding

/-!
# The nearest double

Rounding chooses the double that is nearest to a number, and of two that are
equally near the one whose magnitude is even. Infinity takes part as if it were
`2 ^ 1024`, the number that would come next behind the finite doubles. For each
sign there is one such double, and decimal numerals are read as it.

Among the doubles of one sign the value grows with the magnitude. So a double is
nearest to a number that lies between the midpoints to its two neighbours, and
that can be told of the significand alone: all magnitudes from one scale on are
at least one unit of that scale apart.
-/

namespace Rulebook.Binary64

/-! ## The values of doubles -/

/-- A number with a sign in front of it. -/
def signed (negative : Bool) (v : ℚ) : ℚ := if negative then -v else v

@[simp] theorem abs_signed (negative : Bool) (v : ℚ) :
    |signed negative v| = |v| := by
  cases negative <;> simp [signed]

@[simp] theorem abs_signed_sub (negative : Bool) (v w : ℚ) :
    |signed negative v - signed negative w| = |v - w| := by
  cases negative with
  | false => rfl
  | true =>
      simp only [signed, if_true]
      rw [neg_sub_neg, abs_sub_comm]

theorem exists_signed_eq (negative : Bool) (v : ℚ) :
    ∃ w, signed negative w = v := by
  cases negative with
  | false => exact ⟨v, rfl⟩
  | true => exact ⟨-v, neg_neg v⟩

/-- The value of a double. Infinity counts as `2 ^ 1024`. -/
def toRat (x : Binary64) : ℚ :=
  signed x.negative (x.significand * 2 ^ x.exponent)

/-- The value of a magnitude. Behind that of infinity it goes on as if there
were more exponents. -/
def magnitudeValue (m : Nat) : ℚ :=
  (if m < 0x10000000000000 then m
    else 0x10000000000000 + m % 0x10000000000000 : Nat) *
  2 ^ ((max 1 (m / 0x10000000000000) : Nat) - 1075 : Int)

theorem toRat_eq (x : Binary64) :
    x.toRat = signed x.negative (magnitudeValue x.magnitude) := rfl

/-- At the scale `2 ^ (e - 1074)` the magnitudes count the significands. -/
theorem magnitudeValue_add
    {e q : Nat} (hq : q ≤ 2 ^ 53) (he : e = 0 ∨ 2 ^ 52 ≤ q) :
    magnitudeValue (e * 0x10000000000000 + q) = q * 2 ^ ((e : Int) - 1074) := by
  rcases lt_or_ge q (2 ^ 52) with hsmall | hlarge
  · obtain rfl : e = 0 := by omega
    have hquotient : (0 * 0x10000000000000 + q) / 0x10000000000000 = 0 := by
      omega
    rw [magnitudeValue, hquotient, if_pos (by omega)]
    norm_num
  · have hge : ¬ e * 0x10000000000000 + q < 0x10000000000000 := by omega
    rw [magnitudeValue, if_neg hge]
    rcases hq.lt_or_eq with hlt | rfl
    · have hquotient :
          max 1 ((e * 0x10000000000000 + q) / 0x10000000000000) = e + 1 := by
        omega
      have hrest : 0x10000000000000 +
          (e * 0x10000000000000 + q) % 0x10000000000000 = q := by omega
      rw [hquotient, hrest]
      congr 2
      omega
    · -- The significand carries into the exponent.
      have hquotient :
          max 1 ((e * 0x10000000000000 + 2 ^ 53) / 0x10000000000000) =
            e + 2 := by omega
      have hrest : 0x10000000000000 +
          (e * 0x10000000000000 + 2 ^ 53) % 0x10000000000000 = 2 ^ 52 := by
        omega
      have hexponent : ((e + 2 : Nat) : Int) - 1075 = 1 + (e - 1074) := by omega
      rw [hquotient, hrest, hexponent, zpow_add₀ two_ne_zero, ← mul_assoc]
      norm_num

/-- Each magnitude belongs to a scale. -/
theorem exists_eq_add (m : Nat) :
    ∃ e q, m = e * 0x10000000000000 + q ∧ q < 2 ^ 53 ∧
      (e = 0 ∨ 2 ^ 52 ≤ q) := by
  refine ⟨max 1 (m / 0x10000000000000) - 1,
    m - (max 1 (m / 0x10000000000000) - 1) * 0x10000000000000, ?_, ?_, ?_⟩
  all_goals omega

theorem strictMono_magnitudeValue : StrictMono magnitudeValue := by
  refine strictMono_nat_of_lt_succ fun m => ?_
  obtain ⟨e, q, rfl, hq, he⟩ := exists_eq_add m
  rw [magnitudeValue_add hq.le he, add_assoc,
    magnitudeValue_add (Nat.succ_le_of_lt hq) (he.imp_right Nat.le_succ_of_le)]
  gcongr
  exact Nat.lt_succ_self q

@[simp] theorem magnitudeValue_zero : magnitudeValue 0 = 0 := by
  simp [magnitudeValue]

theorem magnitudeValue_nonneg (m : Nat) : 0 ≤ magnitudeValue m := by
  rw [← magnitudeValue_zero]
  exact strictMono_magnitudeValue.monotone (Nat.zero_le m)

theorem abs_toRat (x : Binary64) : |x.toRat| = magnitudeValue x.magnitude := by
  rw [toRat_eq, abs_signed, abs_of_nonneg (magnitudeValue_nonneg _)]

theorem magnitude_le_of_isNaN_eq_false {x : Binary64} (h : x.isNaN = false) :
    x.magnitude ≤ infiniteMagnitude := by
  simpa [isNaN] using h

/-! ## Rounding to a magnitude -/

/-- A number without a sign is rounded to a magnitude if it lies between the
midpoints to all other magnitudes; on a midpoint, the magnitude is even. -/
structure RoundsTo (v : ℚ) (m : Nat) : Prop where
  midpoint_le : ∀ k < m, magnitudeValue k + magnitudeValue m ≤ 2 * v
  le_midpoint : ∀ k, m < k → 2 * v ≤ magnitudeValue m + magnitudeValue k
  even_of_midpoint : ∀ k ≠ m, magnitudeValue k + magnitudeValue m = 2 * v →
    m % 2 = 0

/-- Rounding a quotient misses it by a half at most, and by a half only for an
even result. -/
theorem roundHalfEven_bounds (num : Nat) {den : Nat} (hden : 0 < den) :
    2 * (roundHalfEven num den * den) ≤ 2 * num + den ∧
      2 * num ≤ 2 * (roundHalfEven num den * den) + den ∧
      (2 * (roundHalfEven num den * den) = 2 * num + den ∨
          2 * num = 2 * (roundHalfEven num den * den) + den →
        roundHalfEven num den % 2 = 0) := by
  have hsplit := Nat.div_add_mod' num den
  have hrest := Nat.mod_lt num hden
  have hnext : (num / den + 1) * den = num / den * den + den := by ring
  unfold roundHalfEven
  dsimp only
  split_ifs with hbelow habove heven
  · omega
  · rw [hnext]
    omega
  · omega
  · rw [hnext]
    omega

section Quotient

variable {num den : Nat} {t : ℚ}

theorem two_mul_roundHalfEven_le (hden : 0 < den) (ht : (num : ℚ) = t * den) :
    2 * (roundHalfEven num den : ℚ) ≤ 2 * t + 1 := by
  have hpos : (0 : ℚ) < den := by exact_mod_cast hden
  have hle : 2 * ((roundHalfEven num den : ℚ) * den) ≤ 2 * num + den := by
    exact_mod_cast (roundHalfEven_bounds num hden).1
  rw [ht] at hle
  exact le_of_mul_le_mul_right (by linarith) hpos

theorem two_mul_le_roundHalfEven (hden : 0 < den) (ht : (num : ℚ) = t * den) :
    2 * t ≤ 2 * (roundHalfEven num den : ℚ) + 1 := by
  have hpos : (0 : ℚ) < den := by exact_mod_cast hden
  have hle : 2 * (num : ℚ) ≤ 2 * (roundHalfEven num den * den) + den := by
    exact_mod_cast (roundHalfEven_bounds num hden).2.1
  rw [ht] at hle
  exact le_of_mul_le_mul_right (by linarith) hpos

theorem even_roundHalfEven (hden : 0 < den) (ht : (num : ℚ) = t * den)
    (h : 2 * (roundHalfEven num den : ℚ) = 2 * t + 1 ∨
      2 * t = 2 * (roundHalfEven num den : ℚ) + 1) :
    roundHalfEven num den % 2 = 0 := by
  refine (roundHalfEven_bounds num hden).2.2 (h.imp ?_ ?_)
  · intro h
    have : 2 * ((roundHalfEven num den : ℚ) * den) = 2 * num + den := by
      linear_combination (den : ℚ) * h - 2 * ht
    exact_mod_cast this
  · intro h
    have : 2 * (num : ℚ) = 2 * (roundHalfEven num den * den) + den := by
      linear_combination (den : ℚ) * h + 2 * ht
    exact_mod_cast this

end Quotient

/-- At the scale that is chosen for a ratio, the quotient has 53 bits, or fewer
at the smallest scale. -/
theorem scaled_bounds
    {num den : Nat} (hnum : 0 < num) (hden : 0 < den) {e : Int}
    (he : e = max (binaryOrder num den - 52) (-1074)) :
    (num / den / 2 ^ e : ℚ) < 2 ^ 53 ∧
      (e = -1074 ∨ (2 : ℚ) ^ 52 ≤ num / den / 2 ^ e) := by
  have hpos : (0 : ℚ) < 2 ^ e := by positivity
  obtain ⟨hlower, hupper⟩ := binaryOrder_spec hnum hden
  constructor
  · rw [div_lt_iff₀ hpos]
    calc (num / den : ℚ) < 2 ^ (binaryOrder num den + 1) := hupper
      _ ≤ 2 ^ (53 + e) := zpow_le_zpow_right₀ (by norm_num) (by omega)
      _ = 2 ^ 53 * 2 ^ e := by rw [zpow_add₀ two_ne_zero]; rfl
  · rcases eq_or_ne e (-1074) with hmin | hnormal
    · exact .inl hmin
    · have hscale : binaryOrder num den = 52 + e := by omega
      right
      rw [le_div_iff₀ hpos]
      calc (2 : ℚ) ^ 52 * 2 ^ e = 2 ^ (52 + e) := by
            rw [zpow_add₀ two_ne_zero]; rfl
        _ = 2 ^ binaryOrder num den := by rw [hscale]
        _ ≤ num / den := hlower

section Scaled

variable {t : ℚ} {e q k : Nat}

/-- The magnitudes behind a significand are at least one unit of its scale
away. -/
theorem add_unit_le_magnitudeValue (hq : q ≤ 2 ^ 53) (he : e = 0 ∨ 2 ^ 52 ≤ q)
    (hk : e * 0x10000000000000 + q < k) :
    ((q : ℚ) + 1) * 2 ^ ((e : Int) - 1074) ≤ magnitudeValue k := by
  have hscale : (0 : ℚ) < 2 ^ ((e : Int) - 1074) := by positivity
  refine le_trans ?_ (strictMono_magnitudeValue.monotone hk)
  rcases hq.lt_or_eq with hlt | rfl
  · rw [Nat.succ_eq_add_one, Nat.add_assoc,
      magnitudeValue_add hlt (he.imp_right Nat.le_succ_of_le)]
    push_cast
    exact le_rfl
  · have hcarry : (e * 0x10000000000000 + 2 ^ 53).succ =
        (e + 1) * 0x10000000000000 + (2 ^ 52 + 1) := by omega
    have hexponent : ((e + 1 : Nat) : Int) - 1074 = 1 + (e - 1074) := by omega
    rw [hcarry, magnitudeValue_add (by norm_num) (by norm_num), hexponent,
      zpow_add₀ two_ne_zero]
    push_cast
    linarith

/-- The magnitudes in front of a significand are at least one unit of its scale
away, except in front of the smallest significand of a scale. -/
theorem magnitudeValue_le_sub_unit (hq : q ≤ 2 ^ 53) (he : e = 0 ∨ 2 ^ 52 < q)
    (hk : k < e * 0x10000000000000 + q) :
    magnitudeValue k ≤ ((q : ℚ) - 1) * 2 ^ ((e : Int) - 1074) := by
  obtain ⟨p, rfl⟩ : ∃ p, q = p + 1 := ⟨q - 1, by omega⟩
  have hle : k ≤ e * 0x10000000000000 + p := by omega
  refine (strictMono_magnitudeValue.monotone hle).trans ?_
  rw [magnitudeValue_add (by omega) (by omega)]
  push_cast
  rw [add_sub_cancel_right]

/-- A number is rounded to the magnitude of the significand to which it is
rounded at its scale. -/
theorem roundsTo_of_scaled (ht : t < 2 ^ 53) (he : e = 0 ∨ 2 ^ 52 ≤ t)
    (hle : 2 * (q : ℚ) ≤ 2 * t + 1) (hge : 2 * t ≤ 2 * (q : ℚ) + 1)
    (heven : 2 * (q : ℚ) = 2 * t + 1 ∨ 2 * t = 2 * (q : ℚ) + 1 → q % 2 = 0) :
    RoundsTo (t * 2 ^ ((e : Int) - 1074)) (e * 0x10000000000000 + q) := by
  have hscale : (0 : ℚ) < 2 ^ ((e : Int) - 1074) := by positivity
  have hq : q ≤ 2 ^ 53 := by
    have : 2 * (q : ℚ) < 2 ^ 54 + 1 := by linarith
    have : 2 * q < 2 ^ 54 + 1 := by exact_mod_cast this
    omega
  have hq' : e = 0 ∨ 2 ^ 52 ≤ q := by
    refine he.imp_right fun ht => ?_
    have : (2 : ℚ) ^ 53 ≤ 2 * q + 1 := by linarith
    have : 2 ^ 53 ≤ 2 * q + 1 := by exact_mod_cast this
    omega
  have hvalue := magnitudeValue_add hq hq'
  have habove : ∀ k, e * 0x10000000000000 + q < k →
      ((q : ℚ) + 1) * 2 ^ ((e : Int) - 1074) ≤ magnitudeValue k :=
    fun k hk => add_unit_le_magnitudeValue hq hq' hk
  -- In front of the smallest significand the magnitudes are closer together,
  -- but a number that is rounded to it is not below it.
  have hbelow : ∀ k < e * 0x10000000000000 + q,
      magnitudeValue k ≤ ((q : ℚ) - 1) * 2 ^ ((e : Int) - 1074) ∨ q ≤ t := by
    intro k hk
    rcases he with rfl | hnormal
    · exact .inl (magnitudeValue_le_sub_unit hq (.inl rfl) hk)
    · rcases lt_or_ge (2 ^ 52) q with hlt | hge
      · exact .inl (magnitudeValue_le_sub_unit hq (.inr hlt) hk)
      · refine .inr (le_trans ?_ hnormal)
        exact_mod_cast hge
  generalize (2 : ℚ) ^ ((e : Int) - 1074) = s at *
  have hlower : (2 * (q : ℚ)) * s ≤ (2 * t + 1) * s := by gcongr
  have hupper : 2 * t * s ≤ (2 * (q : ℚ) + 1) * s := by gcongr
  refine ⟨?_, ?_, ?_⟩
  · intro k hk
    rcases hbelow k hk with hunit | hqt
    · linarith
    · have hlt := strictMono_magnitudeValue hk
      have : (q : ℚ) * s ≤ t * s := by gcongr
      linarith
  · intro k hk
    have := habove k hk
    linarith
  · intro k hne hmidpoint
    have hparity : (e * 0x10000000000000 + q) % 2 = q % 2 := by omega
    rw [hparity]
    apply heven
    rcases lt_or_gt_of_ne hne with hk | hk
    · left
      rcases hbelow k hk with hunit | hqt
      · exact le_antisymm hle (le_of_mul_le_mul_right (by linarith) hscale)
      · have hlt := strictMono_magnitudeValue hk
        have : (q : ℚ) * s ≤ t * s := by gcongr
        linarith
    · right
      have := habove k hk
      exact le_antisymm hge (le_of_mul_le_mul_right (by linarith) hscale)

end Scaled

/-- A ratio is rounded to its rounded magnitude. -/
theorem roundsTo_roundedMagnitude (num : Nat) {den : Nat} (hden : 0 < den) :
    RoundsTo (num / den) (roundedMagnitude num den) := by
  rcases Nat.eq_zero_or_pos num with rfl | hnum
  · refine ⟨?_, ?_, ?_⟩
    · intro k hk
      simp [roundedMagnitude] at hk
    · intro k _
      simp [roundedMagnitude, magnitudeValue_nonneg]
    · intro _ _ _
      simp [roundedMagnitude]
  · obtain ⟨e, he⟩ : ∃ e : Nat,
        max (binaryOrder num den - 52) (-1074) = (e : Int) - 1074 :=
      ⟨(max (binaryOrder num den - 52) (-1074) + 1074).toNat, by omega⟩
    have hscale : (2 : ℚ) ^ ((e : Int) - 1074) ≠ 0 := by positivity
    obtain ⟨hlt, hnormal⟩ := scaled_bounds hnum hden he.symm
    have hden' := scaleDown_pos hden num ((e : Int) - 1074)
    have hne : ((scaleDown num den ((e : Int) - 1074)).2 : ℚ) ≠ 0 := by
      exact_mod_cast hden'.ne'
    have hscaled := ratio_scaleDown hden num ((e : Int) - 1074)
    rw [div_eq_iff hne] at hscaled
    have hnormal' : e = 0 ∨ (2 : ℚ) ^ 52 ≤ num / den / 2 ^ ((e : Int) - 1074) :=
      hnormal.imp_left fun h => by omega
    have hrounds := roundsTo_of_scaled hlt hnormal'
      (two_mul_roundHalfEven_le hden' hscaled)
      (two_mul_le_roundHalfEven hden' hscaled)
      (even_roundHalfEven hden' hscaled)
    rw [div_mul_cancel₀ _ hscale] at hrounds
    have hbits : ((e : Int) - 1074 + 1074).toNat = e := by omega
    rw [roundedMagnitude, if_neg hnum.ne']
    simp only [he, hbits]
    exact hrounds

/-! ## Distances -/

section Distance

variable {a b v : ℚ} {m k : Nat}

theorem abs_sub_le_of_add_le (hlt : a < b) (h : a + b ≤ 2 * v) :
    |b - v| ≤ |a - v| := by
  rw [abs_of_neg (show a - v < 0 by linarith)]
  exact abs_le.mpr ⟨by linarith, by linarith⟩

theorem abs_sub_le_of_le_add (hlt : a < b) (h : 2 * v ≤ a + b) :
    |a - v| ≤ |b - v| := by
  rw [abs_of_pos (show 0 < b - v by linarith)]
  exact abs_le.mpr ⟨by linarith, by linarith⟩

theorem add_eq_of_abs_sub_eq (hne : a ≠ b) (h : |a - v| = |b - v|) :
    a + b = 2 * v := by
  rcases abs_eq_abs.mp h with h | h
  · exact absurd (by linarith) hne
  · linarith

/-- Of the magnitudes up to that of infinity, the one to which a number is
rounded is nearest. -/
theorem RoundsTo.distance_le (h : RoundsTo v m) (hk : k ≤ infiniteMagnitude) :
    |magnitudeValue (min m infiniteMagnitude) - v| ≤ |magnitudeValue k - v| := by
  have hmono := strictMono_magnitudeValue
  rcases lt_trichotomy k (min m infiniteMagnitude) with hlt | rfl | hgt
  · have hmidpoint := h.midpoint_le k (lt_of_lt_of_le hlt (min_le_left _ _))
    have hle := hmono.monotone (min_le_left m infiniteMagnitude)
    exact abs_sub_le_of_add_le (hmono hlt) (by linarith)
  · exact le_rfl
  · have hm : m < k := by omega
    rw [min_eq_left (by omega)]
    exact abs_sub_le_of_le_add (hmono hm) (h.le_midpoint k hm)

theorem RoundsTo.even_of_tie (h : RoundsTo v m)
    (hne : k ≠ min m infiniteMagnitude)
    (htie : |magnitudeValue (min m infiniteMagnitude) - v| =
      |magnitudeValue k - v|) :
    min m infiniteMagnitude % 2 = 0 := by
  rcases le_or_gt infiniteMagnitude m with hinfinite | hfinite
  · rw [min_eq_right hinfinite]
    rfl
  · rw [min_eq_left hfinite.le] at hne htie ⊢
    have hvalue := strictMono_magnitudeValue.injective.ne hne
    exact h.even_of_midpoint k hne (add_eq_of_abs_sub_eq hvalue htie.symm)

/-- Two even magnitudes are not equally near, since one between them is
nearer. -/
theorem not_tie_of_even (hlt : m < k) (hm : m % 2 = 0) (hk : k % 2 = 0)
    (h : |magnitudeValue m - v| ≤ |magnitudeValue (m + 1) - v|) :
    |magnitudeValue m - v| ≠ |magnitudeValue k - v| := by
  intro htie
  have hfirst := strictMono_magnitudeValue (show m < m + 1 by omega)
  have hsecond := strictMono_magnitudeValue (show m + 1 < k by omega)
  have hmidpoint := add_eq_of_abs_sub_eq (hfirst.trans hsecond).ne htie
  rw [abs_of_neg (show magnitudeValue m - v < 0 by linarith)] at h
  have hnearer : |magnitudeValue (m + 1) - v| < v - magnitudeValue m :=
    abs_lt.mpr ⟨by linarith, by linarith⟩
  linarith

/-- A number is not nearer to a double than without the signs. -/
theorem distance_magnitudeValue_le (x : Binary64) (negative : Bool)
    (hv : 0 ≤ v) :
    |magnitudeValue x.magnitude - v| ≤ |x.toRat - signed negative v| := by
  calc |magnitudeValue x.magnitude - v|
      = |(|x.toRat| - |signed negative v|)| := by
        rw [abs_toRat, abs_signed, abs_of_nonneg hv]
    _ ≤ |x.toRat - signed negative v| := abs_abs_sub_abs_le _ _

end Distance

/-! ## The nearest double -/

/-- A double is nearest to a number if none is nearer, and of two that are
equally near it is the one with the even magnitude. -/
structure IsNearestTo (x : Binary64) (v : ℚ) : Prop where
  isNaN_eq_false : x.isNaN = false
  distance_le : ∀ y : Binary64, y.isNaN = false →
    |x.toRat - v| ≤ |y.toRat - v|
  even_of_tie : ∀ y : Binary64, y.isNaN = false → y.magnitude ≠ x.magnitude →
    |x.toRat - v| = |y.toRat - v| → x.magnitude % 2 = 0

/-- The double with the magnitude to which a number is rounded is nearest to the
number with that sign. -/
theorem RoundsTo.isNearestTo
    {v : ℚ} {m : Nat} (h : RoundsTo v m) (hv : 0 ≤ v) (negative : Bool) :
    (ofMagnitude negative m).IsNearestTo (signed negative v) := by
  have hdistance : |(ofMagnitude negative m).toRat - signed negative v| =
      |magnitudeValue (min m infiniteMagnitude) - v| :=
    abs_signed_sub negative _ v
  have hnear : ∀ y : Binary64, y.isNaN = false →
      |magnitudeValue (min m infiniteMagnitude) - v| ≤
        |magnitudeValue y.magnitude - v| :=
    fun y hy => h.distance_le (magnitude_le_of_isNaN_eq_false hy)
  refine ⟨isNaN_ofMagnitude negative m, ?_, ?_⟩
  · intro y hy
    rw [hdistance]
    exact (hnear y hy).trans (distance_magnitudeValue_le y negative hv)
  · intro y hy hne htie
    rw [hdistance] at htie
    refine h.even_of_tie hne (le_antisymm (hnear y hy) ?_)
    rw [htie]
    exact distance_magnitudeValue_le y negative hv

/-- Of each sign there is at most one nearest double. -/
theorem IsNearestTo.unique
    {x y : Binary64} {v : ℚ} (hx : x.IsNearestTo v) (hy : y.IsNearestTo v)
    (hsign : x.negative = y.negative) : x = y := by
  wlog hle : x.magnitude ≤ y.magnitude generalizing x y
  · exact (this hy hx hsign.symm (by omega)).symm
  have htie : |x.toRat - v| = |y.toRat - v| :=
    le_antisymm (hx.distance_le y hy.isNaN_eq_false)
      (hy.distance_le x hx.isNaN_eq_false)
  rcases hle.eq_or_lt with heq | hlt
  · obtain ⟨negative, magnitude, hbound⟩ := x
    obtain ⟨negative', magnitude', hbound'⟩ := y
    obtain rfl : negative = negative' := hsign
    obtain rfl : magnitude = magnitude' := heq
    rfl
  · have hxEven := hx.even_of_tie y hy.isNaN_eq_false hlt.ne' htie
    have hyEven := hy.even_of_tie x hx.isNaN_eq_false hlt.ne htie.symm
    have hnext := hx.distance_le (ofMagnitude x.negative (x.magnitude + 1))
      (isNaN_ofMagnitude _ _)
    have hbound := magnitude_le_of_isNaN_eq_false hy.isNaN_eq_false
    have hmin : min (x.magnitude + 1) infiniteMagnitude = x.magnitude + 1 :=
      min_eq_left (by omega)
    obtain ⟨w, rfl⟩ := exists_signed_eq x.negative v
    simp only [toRat_eq, ← hsign, abs_signed_sub, ofMagnitude, hmin]
      at htie hnext
    exact absurd htie (not_tie_of_even hlt hxEven hyEven hnext)

/-! ## Overflow -/

theorem magnitudeValue_infiniteMagnitude :
    magnitudeValue infiniteMagnitude = 2 ^ 1024 := by
  have hsplit : infiniteMagnitude = 2046 * 0x10000000000000 + 2 ^ 52 := rfl
  have hexponent : ((2046 : Nat) : Int) - 1074 = (972 : Nat) := rfl
  rw [hsplit, magnitudeValue_add (by norm_num) (by norm_num), hexponent,
    zpow_natCast, show 1024 = 52 + 972 from rfl, pow_add, Nat.cast_pow,
    Nat.cast_ofNat]

theorem magnitudeValue_greatest :
    magnitudeValue (infiniteMagnitude - 1) = 2 ^ 1024 - 2 ^ 971 := by
  have hsplit : infiniteMagnitude - 1 =
      2045 * 0x10000000000000 + (2 ^ 53 - 1) := rfl
  have hexponent : ((2045 : Nat) : Int) - 1074 = (971 : Nat) := rfl
  rw [hsplit, magnitudeValue_add (by norm_num) (by norm_num), hexponent,
    zpow_natCast, show 1024 = 53 + 971 from rfl, pow_add]
  generalize (2 : ℚ) ^ 971 = unit
  push_cast
  ring

/-- The least number that is too large for a finite double: the midpoint between
the greatest of them and `2 ^ 1024`. -/
def overflow : ℚ := 2 ^ 1024 - 2 ^ 970

theorem two_mul_overflow :
    2 * overflow =
      magnitudeValue (infiniteMagnitude - 1) +
        magnitudeValue infiniteMagnitude := by
  rw [magnitudeValue_greatest, magnitudeValue_infiniteMagnitude, overflow,
    pow_succ 2 970]
  generalize (2 : ℚ) ^ 1024 = top
  generalize (2 : ℚ) ^ 970 = unit
  ring

theorem RoundsTo.lt_infiniteMagnitude_iff
    {v : ℚ} {m : Nat} (h : RoundsTo v m) :
    m < infiniteMagnitude ↔ v < overflow := by
  have hoverflow := two_mul_overflow
  have hmono := strictMono_magnitudeValue
  constructor
  · intro hm
    have hle := h.le_midpoint infiniteMagnitude hm
    have hgreatest := hmono.monotone (show m ≤ infiniteMagnitude - 1 by omega)
    refine lt_of_le_of_ne (by linarith) ?_
    rintro rfl
    -- The greatest finite magnitude is odd, so the midpoint is rounded up.
    obtain rfl := hmono.injective (le_antisymm hgreatest (by linarith))
    have heven := h.even_of_midpoint infiniteMagnitude hm.ne' (by linarith)
    exact absurd heven (by decide)
  · intro hv
    by_contra hm
    have hlt : infiniteMagnitude - 1 < m := by
      have : 0 < infiniteMagnitude := by decide
      omega
    have hle := h.midpoint_le _ hlt
    have hinfinite := hmono.monotone (not_lt.mp hm)
    linarith

end Rulebook.Binary64

namespace Rulebook.Decimal

open Binary64

/-! ## Decimal numerals -/

/-- The value of a decimal numeral without its sign. -/
def absolute (d : Decimal) : ℚ := d.digits * 10 ^ d.exponent

theorem absolute_nonneg (d : Decimal) : 0 ≤ d.absolute := by
  rw [absolute]
  positivity

theorem ratio_eq_absolute (d : Decimal) :
    ((d.digits * 10 ^ d.exponent.toNat : Nat) : ℚ) /
      (10 ^ (-d.exponent).toNat : Nat) = d.absolute := by
  rw [absolute]
  rcases le_total 0 d.exponent with he | he
  · obtain ⟨n, hn⟩ := Int.eq_ofNat_of_zero_le he
    simp [hn]
  · obtain ⟨n, hn⟩ := Int.eq_ofNat_of_zero_le (Int.neg_nonneg_of_nonpos he)
    obtain hn' : d.exponent = -(n : Int) := by omega
    simp [hn', div_eq_mul_inv]

theorem roundsTo_absolute (d : Decimal) :
    RoundsTo d.absolute
      (roundedMagnitude (d.digits * 10 ^ d.exponent.toNat)
        (10 ^ (-d.exponent).toNat)) := by
  rw [← ratio_eq_absolute]
  exact roundsTo_roundedMagnitude _ (by positivity)

theorem overflow_le_absolute
    {d : Decimal} (hdigits : d.digits ≠ 0) (he : 400 < d.exponent) :
    overflow ≤ d.absolute := by
  have hdigits' : (1 : ℚ) ≤ d.digits := by
    exact_mod_cast Nat.one_le_iff_ne_zero.mpr hdigits
  have hten : (0 : ℚ) < 10 ^ d.exponent := by positivity
  calc overflow ≤ 2 ^ 1024 := sub_le_self _ (by positivity)
    _ ≤ 2 ^ (3 * 401) := pow_le_pow_right₀ (by norm_num) (by norm_num)
    _ = 8 ^ 401 := by rw [pow_mul]; norm_num
    _ ≤ 10 ^ 401 := by gcongr; norm_num
    _ = 10 ^ (401 : Int) := rfl
    _ ≤ 10 ^ d.exponent := zpow_le_zpow_right₀ (by norm_num) (by omega)
    _ ≤ d.absolute := by
      rw [absolute]
      exact le_mul_of_one_le_left hten.le hdigits'

theorem ten_zpow_le {e : Int} (he : e ≤ 0) : (10 : ℚ) ^ e ≤ 2 ^ (3 * e) := by
  obtain ⟨n, hn⟩ := Int.eq_ofNat_of_zero_le (Int.neg_nonneg_of_nonpos he)
  obtain rfl : e = -(n : Int) := by omega
  rw [zpow_mul, zpow_neg, zpow_neg, zpow_natCast, zpow_natCast]
  gcongr
  norm_num

theorem two_mul_absolute_lt
    {d : Decimal} (he : d.exponent < -400 - (d.digits.log2 : Int)) :
    2 * d.absolute < magnitudeValue 1 := by
  have hdigits : (d.digits : ℚ) ≤ 2 ^ ((d.digits.log2 : Int) + 1) := by
    have hlt : d.digits < 2 ^ (d.digits.log2 + 1) := Nat.lt_log2_self
    exact_mod_cast hlt.le
  have hunit : magnitudeValue 1 = 2 ^ (-1074 : Int) := by
    simpa using @magnitudeValue_add 0 1 (by norm_num) (.inl rfl)
  have hten := ten_zpow_le (show d.exponent ≤ 0 by omega)
  calc 2 * d.absolute
      ≤ 2 ^ (1 : Int) *
          (2 ^ ((d.digits.log2 : Int) + 1) * 2 ^ (3 * d.exponent)) := by
        rw [absolute, zpow_one]
        gcongr
    _ = 2 ^ (1 + ((d.digits.log2 : Int) + 1 + 3 * d.exponent)) := by
        rw [← zpow_add₀ two_ne_zero, ← zpow_add₀ two_ne_zero]
    _ < 2 ^ (-1074 : Int) := zpow_lt_zpow_right₀ (by norm_num) (by omega)
    _ = magnitudeValue 1 := hunit.symm

/-- All numerals are rounded, also those that are decided without computing
their power of ten. -/
theorem toBinary64_eq (d : Decimal) :
    d.toBinary64 =
      nearest d.negative (d.digits * 10 ^ d.exponent.toNat)
        (10 ^ (-d.exponent).toNat) := by
  have hrounds := d.roundsTo_absolute
  by_cases hdigits : d.digits = 0
  · simp [toBinary64, hdigits, nearest, roundedMagnitude, zero]
  by_cases hupper : 400 < d.exponent
  · have hinfinite := (not_congr hrounds.lt_infiniteMagnitude_iff).mpr
      (not_lt.mpr (overflow_le_absolute hdigits hupper))
    rw [toBinary64, if_neg hdigits, if_pos hupper, infinity, nearest]
    simp only [ofMagnitude, min_self, min_eq_right (not_lt.mp hinfinite)]
  by_cases hlower : d.exponent < -400 - (d.digits.log2 : Int)
  · have hzero : roundedMagnitude (d.digits * 10 ^ d.exponent.toNat)
        (10 ^ (-d.exponent).toNat) = 0 := by
      by_contra hne
      have hle := hrounds.midpoint_le 0 (Nat.pos_of_ne_zero hne)
      have hone := strictMono_magnitudeValue.monotone
        (Nat.one_le_iff_ne_zero.mpr hne)
      have hsmall := two_mul_absolute_lt hlower
      rw [magnitudeValue_zero] at hle
      linarith
    rw [toBinary64, if_neg hdigits, if_neg hupper, if_pos hlower, nearest,
      hzero, zero]
  · exact toBinary64_eq_nearest hdigits (not_lt.mp hupper) (not_lt.mp hlower)

@[simp] theorem negative_toBinary64 (d : Decimal) :
    d.toBinary64.negative = d.negative := by
  rw [toBinary64_eq]
  rfl

/-- A decimal numeral is read as the double that is nearest to it. -/
theorem isNearestTo_toBinary64 (d : Decimal) :
    d.toBinary64.IsNearestTo (signed d.negative d.absolute) := by
  rw [toBinary64_eq]
  exact d.roundsTo_absolute.isNearestTo d.absolute_nonneg d.negative

/-- A decimal numeral is read as a finite double if it is not too large. -/
theorem isFinite_toBinary64_iff (d : Decimal) :
    d.toBinary64.isFinite = true ↔ d.absolute < overflow := by
  rw [toBinary64_eq, ← d.roundsTo_absolute.lt_infiniteMagnitude_iff]
  simp [isFinite, nearest, ofMagnitude]

end Rulebook.Decimal
