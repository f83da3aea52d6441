import Rulebook.Proofs.Rounding
import Rulebook.Token.Scan

/-!
# Numerals that read back

A finite double is written as an optional minus sign, digits, and optionally a
point with more digits. Read as a numeral, that text has the value of the
digits that were chosen for the double, so it is read as the double again, down
to the sign of a zero.
-/

namespace Rulebook

namespace Decimal

/-! ## The texts that are numerals -/

theorem isDigit_of_isDigits
    {s : List Char} (h : isDigits s = true) : ∀ c ∈ s, c.isDigit = true := by
  simp only [isDigits, Bool.and_eq_true, List.all_eq_true] at h
  exact h.2

theorem isDigits_of_forall
    {s : List Char} (hne : s ≠ []) (h : ∀ c ∈ s, c.isDigit = true) :
    isDigits s = true := by
  simpa [isDigits, hne] using h

theorem ne_point_of_isDigits
    {s : List Char} (h : isDigits s = true) : ∀ c ∈ s, (c != '.') = true := by
  intro c hc
  have hdigit := isDigit_of_isDigits h c hc
  rw [bne_iff_ne]
  rintro rfl
  exact absurd hdigit (by decide)

end Decimal

/-- A numeral as it is written: a sign, digits, and the digits behind a point if
there is one. -/
structure Numeral where
  negative : Bool
  whole : List Char
  fraction : Option (List Char)
  isDigits_whole : Decimal.isDigits whole = true
  isDigits_fraction :
    ∀ digits, fraction = some digits → Decimal.isDigits digits = true

namespace Numeral

/-- The point of a numeral and the digits behind it. -/
def tail (n : Numeral) : List Char :=
  (n.fraction.map fun digits => '.' :: digits).getD []

/-- The text of a numeral. -/
def text (n : Numeral) : List Char :=
  (if n.negative then ['-'] else []) ++ (n.whole ++ n.tail)

/-- The number that a numeral spells. -/
def decimal (n : Numeral) : Decimal :=
  .ofParts n.negative n.whole (n.fraction.getD []) 0

theorem whole_eq_cons (n : Numeral) :
    ∃ c rest, n.whole = c :: rest ∧ c.isDigit = true := by
  have h := n.isDigits_whole
  cases hwhole : n.whole with
  | nil => simp [hwhole, Decimal.isDigits] at h
  | cons c rest =>
      rw [hwhole] at h
      exact ⟨c, rest, rfl, Decimal.isDigit_of_isDigits h c (by simp)⟩

theorem head?_text_eq_minus (n : Numeral) :
    (n.text.head? == some '-') = n.negative := by
  cases hsign : n.negative with
  | true => simp [text, hsign]
  | false =>
      obtain ⟨c, rest, hwhole, hdigit⟩ := n.whole_eq_cons
      have hc : c ≠ '-' := by
        rintro rfl
        exact absurd hdigit (by decide)
      simp [text, hsign, hwhole, hc]

theorem unsigned_text (n : Numeral) :
    (if n.negative then n.text.drop 1 else n.text) = n.whole ++ n.tail := by
  cases hsign : n.negative <;> simp [text, hsign]

/-- A numeral is read as the number that it spells. -/
theorem ofNumeral?_text (n : Numeral) :
    Decimal.ofNumeral? n.text = some n.decimal := by
  have hpoint := Decimal.ne_point_of_isDigits n.isDigits_whole
  simp only [Decimal.ofNumeral?, n.head?_text_eq_minus, n.unsigned_text]
  rw [List.dropWhile_append_of_pos hpoint, List.takeWhile_append_of_pos hpoint]
  cases hfraction : n.fraction with
  | none => simp [tail, decimal, hfraction, n.isDigits_whole]
  | some digits =>
      have := n.isDigits_fraction digits hfraction
      simp [tail, decimal, hfraction, n.isDigits_whole, this]

theorem mem_tail
    {n : Numeral} {c : Char} (h : c ∈ n.tail) :
    c.isDigit = true ∨ c = '.' := by
  cases hfraction : n.fraction with
  | none => simp [tail, hfraction] at h
  | some digits =>
      have hdigits := n.isDigits_fraction digits hfraction
      simp only [tail, hfraction, Option.map_some, Option.getD_some,
        List.mem_cons] at h
      rcases h with rfl | h
      · exact .inr rfl
      · exact .inl (Decimal.isDigit_of_isDigits hdigits c h)

/-- A numeral begins with a minus sign or a digit, and goes on with digits and
points. -/
theorem text_eq_cons (n : Numeral) :
    ∃ c rest, n.text = c :: rest ∧ (c = '-' ∨ c.isDigit = true) ∧
      ∀ d ∈ rest, d.isDigit = true ∨ d = '.' := by
  have hall : ∀ d ∈ n.whole ++ n.tail, d.isDigit = true ∨ d = '.' := by
    intro d hd
    rcases List.mem_append.mp hd with hd | hd
    · exact .inl (Decimal.isDigit_of_isDigits n.isDigits_whole d hd)
    · exact mem_tail hd
  cases hsign : n.negative with
  | true => exact ⟨'-', _, by simp [text, hsign], .inl rfl, hall⟩
  | false =>
      obtain ⟨c, rest, hwhole, hdigit⟩ := n.whole_eq_cons
      rw [hwhole] at hall
      refine ⟨c, rest ++ n.tail, by simp [text, hsign, hwhole], .inr hdigit, ?_⟩
      intro d hd
      exact hall d (List.mem_cons_of_mem c hd)

end Numeral

namespace Decimal

/-! ## Positional notation -/

theorem ofDigits_eq_ofDigitChars (ds : List Char) :
    ofDigits ds = Nat.ofDigitChars 10 ds 0 := by
  simp [ofDigits, Nat.ofDigitChars_eq_foldl, Nat.mul_comm]

theorem ofDigits_append_zeros (ds : List Char) (n : Nat) :
    ofDigits (ds ++ List.replicate n '0') = ofDigits ds * 10 ^ n := by
  simp [ofDigits_eq_ofDigitChars, Nat.ofDigitChars_append, Nat.mul_comm]

theorem ofDigits_zeros_append (ds : List Char) (n : Nat) :
    ofDigits (List.replicate n '0' ++ ds) = ofDigits ds := by
  simp [ofDigits_eq_ofDigitChars, Nat.ofDigitChars_append]

theorem ofDigits_toDigits (n : Nat) : ofDigits (Nat.toDigits 10 n) = n := by
  rw [ofDigits_eq_ofDigitChars, Nat.ofDigitChars_ten_toDigits]

theorem isDigit_of_mem_zeros_append
    {m n : Nat} {c : Char}
    (h : c ∈ List.replicate m '0' ++ Nat.toDigits 10 n) :
    c.isDigit = true := by
  rcases List.mem_append.mp h with h | h
  · rw [List.eq_of_mem_replicate h]
    decide
  · exact Nat.isDigit_of_mem_toDigits (by decide) (by decide) h

/-- The numeral that positional notation spells: powers of ten above one are
multiplied out. -/
def multipliedOut (d : Decimal) : Decimal :=
  if 0 ≤ d.exponent then ⟨d.negative, d.digits * 10 ^ d.exponent.toNat, 0⟩
  else d

/-- Positional notation is a numeral that spells the same number. -/
theorem positional_eq_text (d : Decimal) :
    ∃ n : Numeral, d.positional = n.text ∧ n.decimal = d.multipliedOut := by
  by_cases he : 0 ≤ d.exponent
  · refine ⟨⟨d.negative,
      Nat.toDigits 10 d.digits ++ List.replicate d.exponent.toNat '0', none,
      ?_, by simp⟩, ?_, ?_⟩
    · apply isDigits_of_forall
      · simp [Nat.toDigits_ne_nil]
      · intro c hc
        apply isDigit_of_mem_zeros_append (m := d.exponent.toNat)
          (n := d.digits)
        simpa [or_comm] using hc
    · simp [positional, Numeral.text, Numeral.tail, he]
    · simp [Numeral.decimal, ofParts, multipliedOut, he,
        ofDigits_append_zeros, ofDigits_toDigits]
  · obtain ⟨places, hplaces⟩ :=
      Int.eq_ofNat_of_zero_le (show 0 ≤ -d.exponent by omega)
    have hplacesPos : 0 < places := by omega
    let ds := Nat.toDigits 10 d.digits
    let padded := List.replicate (places + 1 - ds.length) '0' ++ ds
    have hlength : places < padded.length := by
      simp only [padded, List.length_append, List.length_replicate]
      omega
    have hdigit : ∀ c ∈ padded, c.isDigit = true := fun c hc =>
      isDigit_of_mem_zeros_append hc
    refine ⟨⟨d.negative, padded.take (padded.length - places),
      some (padded.drop (padded.length - places)), ?_, ?_⟩, ?_, ?_⟩
    · apply isDigits_of_forall
      · rw [ne_eq, ← List.length_eq_zero_iff, List.length_take]
        omega
      · exact fun c hc => hdigit c (List.mem_of_mem_take hc)
    · rintro digits ⟨⟩
      apply isDigits_of_forall
      · rw [ne_eq, ← List.length_eq_zero_iff, List.length_drop]
        omega
      · exact fun c hc => hdigit c (List.mem_of_mem_drop hc)
    · simp [positional, he, hplaces, Numeral.text, Numeral.tail, ds, padded]
    · have hvalue : ofDigits padded = d.digits := by
        rw [ofDigits_zeros_append, ofDigits_toDigits]
      simp only [Numeral.decimal, ofParts, multipliedOut, if_neg he,
        Option.getD_some, List.take_append_drop, List.length_drop, hvalue]
      obtain ⟨negative, digits, exponent⟩ := d
      simp only [mk.injEq, true_and]
      simp only at hplaces
      omega

theorem toBinary64_multipliedOut
    {d : Decimal} (h : d.toBinary64.isFinite = true) :
    d.multipliedOut.toBinary64 = d.toBinary64 := by
  by_cases he : 0 ≤ d.exponent
  · by_cases hdigits : d.digits = 0
    · simp [multipliedOut, he, toBinary64, hdigits]
    · have hle : d.exponent ≤ 400 := by
        by_contra hgt
        rw [toBinary64, if_neg hdigits, if_pos (by omega)] at h
        revert h
        cases d.negative <;> decide
      rw [Binary64.toBinary64_eq_nearest hdigits hle (by omega),
        multipliedOut, if_pos he,
        Binary64.toBinary64_eq_nearest (by positivity) (by simp)
          (by simp only; omega)]
      have : (-d.exponent).toNat = 0 := by omega
      simp [this]
  · rw [multipliedOut, if_neg he]

end Decimal

namespace Binary64

/-- The text of a finite double is a numeral that is read as the double. -/
theorem text_eq_numeral {x : Binary64} (hfinite : x.isFinite = true) :
    ∃ n : Numeral, x.text.toList = n.text ∧ n.decimal.toBinary64 = x := by
  have hread := toBinary64_shortestDecimal .upper hfinite
  obtain ⟨n, hpositional, hdecimal⟩ :=
    (x.shortestDecimal .upper).positional_eq_text
  refine ⟨n, ?_, ?_⟩
  · simp [text, isNaN_of_isFinite hfinite, hfinite, hpositional]
  · rw [hdecimal, Decimal.toBinary64_multipliedOut (by rw [hread, hfinite]),
      hread]

end Binary64

end Rulebook
