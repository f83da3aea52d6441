import Mathlib
import Rulebook.Proofs.Layout
import Rulebook.Proofs.Nearest

/-!
# Number tokens

Where a word begins with a minus sign or a digit, all letters, digits, low lines
and points behind it are taken. This run is a number exactly if it is a numeral,
`-?[0-9]+(\.[0-9]+)?`, whose value is not too large for a finite double; the
number is the double nearest to that value, with the sign of the text. All other
runs are refused, and reading goes on behind the run in either case.

No other way of writing a number is read anywhere in a text.
-/

namespace Rulebook

open Binary64

namespace Numeral

/-! ## The language of numerals -/

/-- One of the ten decimal digits. -/
def digit : RegularExpression Char :=
  ("0123456789".toList.map RegularExpression.char).sum

/-- One digit or more. -/
def digits : RegularExpression Char := digit * digit.star

/-- The texts `-?[0-9]+(\.[0-9]+)?`. -/
def pattern : RegularExpression Char :=
  (1 + RegularExpression.char '-') *
    (digits * (1 + RegularExpression.char '.' * digits))

theorem mem_char_iff (c : Char) (s : List Char) :
    s ∈ (RegularExpression.char c).matches' ↔ s = [c] := Iff.rfl

theorem mem_sum_char_iff (cs s : List Char) :
    s ∈ (cs.map RegularExpression.char).sum.matches' ↔ ∃ c ∈ cs, s = [c] := by
  induction cs with
  | nil => simp [Language.notMem_zero]
  | cons c cs ih =>
      rw [List.map_cons, List.sum_cons, RegularExpression.matches'_add,
        Language.mem_add, ih, mem_char_iff, List.exists_mem_cons_iff]

theorem mem_digits_iff_isDigit (c : Char) :
    c ∈ "0123456789".toList ↔ c.isDigit = true := by
  constructor
  · intro h
    have hall : ∀ d ∈ "0123456789".toList, d.isDigit = true := by simp
    exact hall c h
  · intro h
    have hcode : 48 ≤ c.toNat ∧ c.toNat ≤ 57 := by
      simpa [Char.isDigit, UInt32.le_iff_toNat_le] using h
    obtain ⟨hlower, hupper⟩ := hcode
    rw [← Char.ofNat_toNat c]
    generalize c.toNat = code at hlower hupper
    interval_cases code <;> decide

theorem mem_digit_iff (s : List Char) :
    s ∈ digit.matches' ↔ ∃ c, c.isDigit = true ∧ s = [c] := by
  rw [digit, mem_sum_char_iff]
  simp only [mem_digits_iff_isDigit]

theorem mem_star_digit_iff (s : List Char) :
    s ∈ digit.star.matches' ↔ ∀ c ∈ s, c.isDigit = true := by
  rw [RegularExpression.matches'_star, Language.mem_kstar]
  constructor
  · rintro ⟨pieces, rfl, hpieces⟩ c hc
    obtain ⟨piece, hpiece, hmem⟩ := List.mem_flatten.mp hc
    obtain ⟨d, hd, rfl⟩ := (mem_digit_iff piece).mp (hpieces piece hpiece)
    rwa [List.mem_singleton.mp hmem]
  · intro h
    refine ⟨s.map fun c => [c], ?_, ?_⟩
    · rw [← List.flatMap_def, List.flatMap_singleton']
    · intro piece hpiece
      obtain ⟨c, hc, rfl⟩ := List.mem_map.mp hpiece
      exact (mem_digit_iff _).mpr ⟨c, h c hc, rfl⟩

theorem mem_digits_iff (s : List Char) :
    s ∈ digits.matches' ↔ Decimal.isDigits s = true := by
  rw [digits, RegularExpression.matches'_mul, Language.mem_mul]
  constructor
  · rintro ⟨first, hfirst, rest, hrest, rfl⟩
    obtain ⟨c, hc, rfl⟩ := (mem_digit_iff first).mp hfirst
    refine Decimal.isDigits_of_forall (by simp) ?_
    exact List.forall_mem_cons.mpr ⟨hc, (mem_star_digit_iff rest).mp hrest⟩
  · intro h
    have hall := Decimal.isDigit_of_isDigits h
    cases s with
    | nil => cases h
    | cons c rest =>
        rw [List.forall_mem_cons] at hall
        exact ⟨[c], (mem_digit_iff _).mpr ⟨c, hall.1, rfl⟩, rest,
          (mem_star_digit_iff rest).mpr hall.2, rfl⟩

/-- The texts of that form are those of the numerals. -/
theorem mem_pattern_iff (s : List Char) :
    s ∈ pattern.matches' ↔ ∃ n : Numeral, n.text = s := by
  simp only [pattern, RegularExpression.matches'_mul,
    RegularExpression.matches'_add, RegularExpression.matches'_epsilon,
    Language.mem_mul, Language.mem_add, Language.mem_one, mem_char_iff,
    mem_digits_iff]
  constructor
  · rintro ⟨sign, hsign, _, ⟨whole, hwhole, tail, htail, rfl⟩, rfl⟩
    obtain ⟨negative, hnegative⟩ : ∃ negative : Bool,
        sign = if negative then ['-'] else [] := by
      rcases hsign with rfl | rfl
      · exact ⟨false, rfl⟩
      · exact ⟨true, rfl⟩
    rcases htail with rfl | ⟨_, rfl, fraction, hfraction, rfl⟩
    · exact ⟨⟨negative, whole, none, hwhole, by simp⟩, by
        simp [text, tail, hnegative]⟩
    · exact ⟨⟨negative, whole, some fraction, hwhole,
        by simpa using hfraction⟩, by
        simp [text, tail, hnegative]⟩
  · rintro ⟨n, rfl⟩
    refine ⟨if n.negative then ['-'] else [], ?_, n.whole ++ n.tail,
      ⟨n.whole, n.isDigits_whole, n.tail, ?_, rfl⟩, rfl⟩
    · cases n.negative <;> simp
    · cases hfraction : n.fraction with
      | none => simp [tail, hfraction]
      | some fraction =>
          right
          exact ⟨['.'], rfl, fraction, n.isDigits_fraction fraction hfraction,
            by simp [tail, hfraction]⟩

/-! ## The form of a numeral -/

theorem point_not_mem_of_isDigits
    {s : List Char} (h : Decimal.isDigits s = true) : '.' ∉ s := by
  intro hmem
  exact absurd (Decimal.ne_point_of_isDigits h '.' hmem) (by decide)

/-- What stands in front of the point: the sign and the whole digits. -/
def lead (n : Numeral) : List Char :=
  (if n.negative then ['-'] else []) ++ n.whole

theorem text_eq_lead_append (n : Numeral) : n.text = n.lead ++ n.tail :=
  (List.append_assoc _ _ _).symm

theorem point_not_mem_lead (n : Numeral) : '.' ∉ n.lead := by
  have hwhole := point_not_mem_of_isDigits n.isDigits_whole
  cases hsign : n.negative <;> simp [lead, hsign, hwhole]

theorem exists_getLast?_lead (n : Numeral) :
    ∃ d, n.lead.getLast? = some d ∧ d.isDigit = true := by
  obtain ⟨c, rest, hwhole, -⟩ := n.whole_eq_cons
  have hne : n.whole ≠ [] := by simp [hwhole]
  refine ⟨n.whole.getLast hne, ?_, ?_⟩
  · rw [lead, List.getLast?_append, List.getLast?_eq_some_getLast hne,
      Option.some_or]
  · exact Decimal.isDigit_of_isDigits n.isDigits_whole _ (List.getLast_mem hne)

end Numeral

/-- Behind its first character, which is a minus sign or a digit, a text has
only digits and at most one point; a point has a digit on either side. -/
structure Text.IsPlain (s : List Char) : Prop where
  head : ∀ c, s.head? = some c → c = '-' ∨ c.isDigit = true
  tail : ∀ c ∈ s.tail, c.isDigit = true ∨ c = '.'
  count_point_le_one : s.count '.' ≤ 1
  digit_beside_point : ∀ front behind, s = front ++ '.' :: behind →
    (∃ d, front.getLast? = some d ∧ d.isDigit = true) ∧
      ∃ d, behind.head? = some d ∧ d.isDigit = true

namespace Numeral

/-- A numeral has no letters, no plus sign, no second point and no point at an
end. -/
theorem isPlain_text (n : Numeral) : Text.IsPlain n.text := by
  obtain ⟨c, rest, htext, hc, hrest⟩ := n.text_eq_cons
  have hlead := n.point_not_mem_lead
  refine ⟨?_, ?_, ?_, ?_⟩
  · intro d hd
    rw [htext, List.head?_cons, Option.some.injEq] at hd
    rwa [← hd]
  · rwa [htext, List.tail_cons]
  · rw [text_eq_lead_append, List.count_append, List.count_eq_zero.mpr hlead]
    cases hfraction : n.fraction with
    | none => simp [tail, hfraction]
    | some digits =>
        have hdigits := point_not_mem_of_isDigits
          (n.isDigits_fraction digits hfraction)
        simp [tail, hfraction, List.count_eq_zero.mpr hdigits]
  · intro front behind hsplit
    rw [text_eq_lead_append] at hsplit
    cases hfraction : n.fraction with
    | none =>
        have hmem : '.' ∈ n.lead ++ n.tail := by simp [hsplit]
        simp [tail, hfraction, hlead] at hmem
    | some digits =>
        have hisDigits := n.isDigits_fraction digits hfraction
        have htail : n.tail = '.' :: digits := by simp [tail, hfraction]
        rw [htail, List.append_cons_inj_of_notMem hlead
          (point_not_mem_of_isDigits hisDigits)] at hsplit
        obtain ⟨rfl, -, rfl⟩ := hsplit
        refine ⟨n.exists_getLast?_lead, ?_⟩
        cases digits with
        | nil => cases hisDigits
        | cons d others =>
            exact ⟨d, rfl, Decimal.isDigit_of_isDigits hisDigits d (by simp)⟩

/-! ## The value of a numeral -/

/-- The natural number that decimal digits spell. -/
def ofPlaces (ds : List Char) : Nat :=
  Nat.ofDigits 10 (ds.reverse.map fun d => d.toNat - '0'.toNat)

/-- The value of a numeral: the digits in front of the point, and the digits
behind it divided by as many tens. -/
def value (n : Numeral) : ℚ :=
  let fraction := n.fraction.getD []
  signed n.negative
    (ofPlaces n.whole + ofPlaces fraction / 10 ^ fraction.length)

theorem ofDigits_eq_ofPlaces (ds : List Char) :
    Decimal.ofDigits ds = ofPlaces ds := by
  induction ds using List.reverseRecOn with
  | nil => rfl
  | append_singleton ds d ih =>
      rw [Decimal.ofDigits_append_singleton, ih, ofPlaces, ofPlaces,
        List.reverse_append, List.reverse_singleton, List.singleton_append,
        List.map_cons, Nat.ofDigits_cons, Nat.add_comm, Nat.mul_comm]

theorem ofPlaces_append (ds es : List Char) :
    ofPlaces (ds ++ es) = ofPlaces ds * 10 ^ es.length + ofPlaces es := by
  simp only [ofPlaces, List.reverse_append, List.map_append,
    Nat.ofDigits_append, List.length_map, List.length_reverse]
  ring

theorem value_eq (n : Numeral) :
    n.value = signed n.decimal.negative n.decimal.absolute := by
  have hten : (10 : ℚ) ^ (n.fraction.getD []).length ≠ 0 := by positivity
  rw [value, Decimal.absolute]
  congr 1
  simp only [decimal, Decimal.ofParts, ofDigits_eq_ofPlaces, ofPlaces_append,
    zero_sub, zpow_neg, zpow_natCast]
  push_cast
  field_simp

theorem decimal_eq_of_text_eq {m n : Numeral} (h : m.text = n.text) :
    m.decimal = n.decimal := by
  have hm := m.ofNumeral?_text
  rw [h, n.ofNumeral?_text] at hm
  exact (Option.some.inj hm).symm

theorem value_eq_of_text_eq {m n : Numeral} (h : m.text = n.text) :
    m.value = n.value := by
  rw [value_eq, value_eq, decimal_eq_of_text_eq h]

/-- A numeral denotes the double that is nearest to its value and has its
sign. -/
structure Denotes (n : Numeral) (x : Binary64) : Prop where
  negative_eq : x.negative = n.negative
  isNearestTo : x.IsNearestTo n.value

theorem denotes_toBinary64 (n : Numeral) : n.Denotes n.decimal.toBinary64 where
  negative_eq := n.decimal.negative_toBinary64
  isNearestTo := by
    rw [value_eq]
    exact n.decimal.isNearestTo_toBinary64

theorem denotes_iff (n : Numeral) (x : Binary64) :
    n.Denotes x ↔ x = n.decimal.toBinary64 := by
  have hread := n.denotes_toBinary64
  constructor
  · intro h
    exact h.isNearestTo.unique hread.isNearestTo
      (h.negative_eq.trans hread.negative_eq.symm)
  · rintro rfl
    exact hread

theorem isFinite_toBinary64_iff (n : Numeral) :
    n.decimal.toBinary64.isFinite = true ↔ |n.value| < overflow := by
  rw [Decimal.isFinite_toBinary64_iff, value_eq, abs_signed,
    abs_of_nonneg n.decimal.absolute_nonneg]

/-! ## Reading a numeral -/

/-- The only texts that are read as decimal numerals are those of numerals. -/
theorem exists_text_eq_of_ofNumeral?
    {s : List Char} {d : Decimal} (h : Decimal.ofNumeral? s = some d) :
    ∃ n : Numeral, n.text = s := by
  unfold Decimal.ofNumeral? at h
  dsimp only at h
  have hsign : s = (if s.head? == some '-' then ['-'] else []) ++
      (if s.head? == some '-' then s.drop 1 else s) := by
    cases s with
    | nil => rfl
    | cons c rest =>
        rcases eq_or_ne c '-' with rfl | hne
        · rfl
        · simp [hne]
  generalize (s.head? == some '-') = negative at h hsign
  generalize (if negative then s.drop 1 else s) = unsigned at h hsign
  have hsplit : unsigned.takeWhile (· != '.') ++ unsigned.dropWhile (· != '.') =
      unsigned := List.takeWhile_append_dropWhile
  split at h
  · next hdrop =>
    rw [hdrop, List.append_nil] at hsplit
    rw [hsplit] at h
    split at h
    · next hwhole =>
      exact ⟨⟨negative, unsigned, none, hwhole, by simp⟩, by
        rw [hsign]
        simp [text, tail]⟩
    · cases h
  · next point fraction hdrop =>
    have hpoint : (point != '.') = false := by
      refine @Text.eq_false_of_head?_dropWhile (· != '.') unsigned point ?_
      rw [hdrop, List.head?_cons]
    obtain rfl : point = '.' := by simpa using hpoint
    rw [hdrop] at hsplit
    generalize unsigned.takeWhile (· != '.') = whole at h hsplit
    subst hsplit
    split at h
    · next hdigits =>
      rw [Bool.and_eq_true] at hdigits
      exact ⟨⟨negative, whole, some fraction, hdigits.1,
        by simpa using hdigits.2⟩, by
        rw [hsign]
        simp [text, tail]⟩
    · cases h

end Numeral

namespace Token

theorem ofNumeral_text {n : Numeral} (h : |n.value| < overflow) :
    ofNumeral n.text = .ok (.literal (.number n.decimal.toBinary64)) := by
  simp only [ofNumeral, n.ofNumeral?_text, n.isFinite_toBinary64_iff.mpr h,
    if_true]

theorem ofNumeral_text_of_overflow_le
    {n : Numeral} (h : overflow ≤ |n.value|) :
    ofNumeral n.text = .error (.malformedNumber (String.ofList n.text)) := by
  have hinfinite := (not_congr n.isFinite_toBinary64_iff).mpr (not_lt.mpr h)
  simp only [ofNumeral, n.ofNumeral?_text, if_neg hinfinite]

theorem ofNumeral_of_not_mem_pattern
    {run : List Char} (h : run ∉ Numeral.pattern.matches') :
    ofNumeral run = .error (.malformedNumber (String.ofList run)) := by
  rw [Numeral.mem_pattern_iff] at h
  cases hread : Decimal.ofNumeral? run with
  | none => simp only [ofNumeral, hread]
  | some d => exact absurd (Numeral.exists_text_eq_of_ofNumeral? hread) h

end Token

/-- A text stands for a double that a numeral with this text denotes. -/
def Text.StandsFor (s : List Char) (x : Binary64) : Prop :=
  ∃ n : Numeral, n.text = s ∧ n.Denotes x

theorem Numeral.existsUnique_standsFor
    {s : List Char} (h : s ∈ pattern.matches') : ∃! x, Text.StandsFor s x := by
  obtain ⟨n, rfl⟩ := (mem_pattern_iff s).mp h
  refine ⟨n.decimal.toBinary64, ⟨n, rfl, n.denotes_toBinary64⟩, ?_⟩
  rintro x ⟨m, hm, hx⟩
  rw [(m.denotes_iff x).mp hx, decimal_eq_of_text_eq hm]

namespace Token

/-- A run is read as a number exactly if it is a numeral and the double for
which it stands is finite. -/
theorem ofNumeral_eq_ok_iff (run : List Char) (x : Binary64) :
    ofNumeral run = .ok (.literal (.number x)) ↔
      run ∈ Numeral.pattern.matches' ∧ Text.StandsFor run x ∧
        x.isFinite = true := by
  constructor
  · intro h
    by_cases hmem : run ∈ Numeral.pattern.matches'
    · obtain ⟨n, rfl⟩ := (Numeral.mem_pattern_iff run).mp hmem
      rcases lt_or_ge |n.value| overflow with hsmall | hlarge
      · rw [ofNumeral_text hsmall] at h
        cases h
        exact ⟨hmem, ⟨n, rfl, n.denotes_toBinary64⟩,
          n.isFinite_toBinary64_iff.mpr hsmall⟩
      · rw [ofNumeral_text_of_overflow_le hlarge] at h
        cases h
    · rw [ofNumeral_of_not_mem_pattern hmem] at h
      cases h
  · rintro ⟨-, ⟨n, rfl, hx⟩, hfinite⟩
    obtain rfl := (n.denotes_iff x).mp hx
    exact ofNumeral_text (n.isFinite_toBinary64_iff.mp hfinite)

/-- A run that is not read as a number is refused. -/
theorem ofNumeral_eq_error_iff (run : List Char) :
    ofNumeral run = .error (.malformedNumber (String.ofList run)) ↔
      ¬∃ x, ofNumeral run = .ok (.literal (.number x)) := by
  constructor
  · rintro h ⟨x, hx⟩
    cases h.symm.trans hx
  · intro h
    by_cases hmem : run ∈ Numeral.pattern.matches'
    · obtain ⟨n, rfl⟩ := (Numeral.mem_pattern_iff run).mp hmem
      rcases lt_or_ge |n.value| overflow with hsmall | hlarge
      · exact absurd ⟨_, ofNumeral_text hsmall⟩ h
      · exact ofNumeral_text_of_overflow_le hlarge
    · exact ofNumeral_of_not_mem_pattern hmem

/-- A numeral is refused only if it is too large. -/
theorem ofNumeral_text_eq_error_iff (n : Numeral) :
    ofNumeral n.text = .error (.malformedNumber (String.ofList n.text)) ↔
      overflow ≤ |n.value| := by
  constructor
  · intro h
    by_contra hsmall
    rw [ofNumeral_text (not_le.mp hsmall)] at h
    cases h
  · exact ofNumeral_text_of_overflow_le

end Token

/-! ## Where a scanner stands -/

namespace Scanner

theorem ask_eq_of_next?
    {s next : Scanner} {outcome : Except LexError Lexeme}
    (h : s.next? = some (outcome, next)) : s.ask = (some outcome, next) := by
  rw [ask, h]

theorem readingAt_eq_ok
    {start stop : Nat} {outcome : Except LexCause Token} {l : Lexeme}
    (h : readingAt start stop outcome = .ok l) :
    outcome = .ok l.token ∧ l.start = start ∧ l.stop = stop := by
  cases outcome with
  | error cause => cases h
  | ok t =>
      cases h
      exact ⟨rfl, rfl, rfl⟩

/-- Whatever a scanner answers, it has left a first part of its text behind. -/
theorem exists_front_ask (s : Scanner) :
    ∃ front, s.rest = front ++ s.ask.2.rest ∧
      s.ask.2.offset = s.offset + Text.byteLength front := by
  obtain ⟨rest, offset⟩ := s
  rcases exists_isReadBefore rest with hblank | ⟨p, behind, rfl, hread⟩
  · rw [ask, next?_eq_none_of_blanks hblank]
    exact ⟨rest, (List.append_nil rest).symm, rfl⟩
  · rw [ask_eq_of_next? (next?_of_isReadBefore hread offset)]
    refine ⟨p.gap ++ p.taken, (List.append_assoc _ _ _).symm, ?_⟩
    change p.stop offset = offset + Text.byteLength (p.gap ++ p.taken)
    rw [Piece.stop, Text.byteLength_append, Nat.add_assoc]

theorem exists_front_after (n : Nat) (s : Scanner) :
    ∃ front, s.rest = front ++ (s.after n).rest ∧
      (s.after n).offset = s.offset + Text.byteLength front := by
  induction n generalizing s with
  | zero => exact ⟨[], rfl, rfl⟩
  | succ n ih =>
      obtain ⟨first, hfirst, hfirstOffset⟩ := s.exists_front_ask
      obtain ⟨later, hlater, hlaterOffset⟩ := ih s.ask.2
      refine ⟨first ++ later, ?_, ?_⟩
      · rw [hfirst, hlater, List.append_assoc]
        rfl
      · rw [after, hlaterOffset, hfirstOffset, Text.byteLength_append,
          Nat.add_assoc]

/-- A scanner of a text that was asked some times. -/
def IsReachedIn (s : Scanner) (text : String) : Prop :=
  ∃ asked, s = (ofText text).after asked

/-- A scanner of a text stands, but for blanks, in front of a run that begins
with a minus sign or a digit and goes on with all letters, digits, low lines and
points that are there. -/
structure MeetsRun (s : Scanner) (text : String)
    (before run behind : List Char) : Prop where
  toList_eq : text.toList = before ++ (run ++ behind)
  exists_gap : ∃ front gap, before = front ++ gap ∧
    (∀ c ∈ gap, Text.isBlank c = true) ∧ s.rest = gap ++ (run ++ behind)
  exists_start : ∃ c w, run = c :: w ∧ (c = '-' ∨ c.isDigit = true) ∧
    ∀ d ∈ w, Text.isNumeralChar d = true
  maximal : ∀ d, behind.head? = some d → Text.isNumeralChar d = false

theorem IsReachedIn.exists_front
    {s : Scanner} {text : String} (hs : s.IsReachedIn text) :
    ∃ front, text.toList = front ++ s.rest := by
  obtain ⟨asked, rfl⟩ := hs
  obtain ⟨front, hfront, -⟩ := exists_front_after asked (ofText text)
  exact ⟨front, hfront⟩

theorem IsReachedIn.offset_eq
    {s : Scanner} {text : String} {front : List Char}
    (hs : s.IsReachedIn text) (htext : text.toList = front ++ s.rest) :
    s.offset = Text.byteLength front := by
  obtain ⟨asked, rfl⟩ := hs
  obtain ⟨first, hfirst, hoffset⟩ := exists_front_after asked (ofText text)
  have heq : front = first := List.append_cancel_right (htext.symm.trans hfirst)
  rw [hoffset, heq]
  exact Nat.zero_add _

/-- In front of such a run, it is read as a number, and all of it is taken. -/
theorem MeetsRun.ask_eq
    {s : Scanner} {text : String} {before run behind : List Char}
    (h : s.MeetsRun text before run behind) (hs : s.IsReachedIn text) :
    s.ask =
      (some (readingAt (Text.byteLength before)
          (Text.byteLength before + Text.byteLength run) (Token.ofNumeral run)),
        ⟨behind, Text.byteLength before + Text.byteLength run⟩) := by
  obtain ⟨front, gap, rfl, hgap, hrest⟩ := h.exists_gap
  obtain ⟨c, w, rfl, hc, hw⟩ := h.exists_start
  have hoffset : s.offset = Text.byteLength front := by
    apply hs.offset_eq
    rw [hrest, h.toList_eq, List.append_assoc]
  have hstart : Text.isNumeralStart c = true := by
    simpa [Text.isNumeralStart] using hc
  have hblank : Text.isBlank c = false := by
    rcases hc with rfl | hdigit
    · decide
    · apply Text.isBlank_eq_false_of_isNumeralChar
      simp [Text.isNumeralChar, Text.isWordChar, Char.isAlphanum, hdigit]
  have hmunch := Token.munch_of_isNumeralStart hstart (w ++ behind)
  rw [Text.takeWhile_append_eq hw h.maximal,
    Text.dropWhile_append_eq hw h.maximal] at hmunch
  obtain ⟨rest, offset⟩ := s
  obtain rfl : rest = gap ++ (c :: w ++ behind) := hrest
  obtain rfl : offset = Text.byteLength front := hoffset
  rw [ask_eq_of_next? (next?_of_munch hgap hblank hmunch _),
    Text.byteLength_append]

end Scanner

namespace Token

theorem ofWord_ne_number (word : String) (x : Binary64) :
    ofWord word ≠ .literal (.number x) := by
  intro h
  unfold ofWord at h
  split at h
  · cases h
  · split at h
    · cases h
    · split at h <;> cases h

/-- Only a minus sign or a digit begins a number. -/
theorem isNumeralStart_of_munch
    {c : Char} {rest : List Char} {x : Binary64}
    (h : (munch c rest).outcome = .ok (.literal (.number x))) :
    Text.isNumeralStart c = true := by
  rcases start_of_isRun h trivial with hc | hc
  · exact hc
  · rw [munch_of_isWordStart hc] at h
    exact absurd (Except.ok.inj h) (ofWord_ne_number _ x)

end Token

namespace Scanner

/-- A number is read in front of such a run only. -/
theorem IsReachedIn.exists_meetsRun
    {s : Scanner} {text : String} {x : Binary64} {start stop : Nat}
    (hs : s.IsReachedIn text)
    (h : s.ask.1 = some (.ok ⟨.literal (.number x), start, stop⟩)) :
    ∃ before run behind, s.MeetsRun text before run behind ∧
      start = Text.byteLength before ∧
      stop = start + Text.byteLength run ∧
      Token.ofNumeral run = .ok (.literal (.number x)) := by
  obtain ⟨front, htext⟩ := hs.exists_front
  have hoffset := hs.offset_eq htext
  obtain ⟨rest, offset⟩ := s
  rcases exists_isReadBefore rest with hblank | ⟨p, behind, rfl, hread⟩
  · rw [ask, next?_eq_none_of_blanks hblank] at h
    cases h
  · rw [ask_eq_of_next? (next?_of_isReadBefore hread offset)] at h
    obtain ⟨hnumber, hstart, hstop⟩ := readingAt_eq_ok (Option.some.inj h)
    obtain ⟨c, w, htaken, -, hmunch⟩ := hread.exists_munch
    have hreads : (Token.munch c (w ++ behind)).outcome =
        .ok (.literal (.number x)) := by
      rw [hmunch, hnumber]
    have hc := Token.isNumeralStart_of_munch hreads
    rw [Token.munch_of_isNumeralStart hc, Token.Munch.mk.injEq,
      List.cons.injEq] at hmunch
    obtain ⟨hnumeral, ⟨-, htake⟩, hdrop⟩ := hmunch
    rw [htake, ← htaken, hnumber] at hnumeral
    refine ⟨front ++ p.gap, p.taken, behind, ⟨?_, ?_, ?_, ?_⟩, ?_, ?_, hnumeral⟩
    · rw [htext, List.append_assoc]
    · exact ⟨front, p.gap, rfl, hread.isBlank_of_mem_gap, rfl⟩
    · refine ⟨c, w, htaken, by simpa [Text.isNumeralStart] using hc, ?_⟩
      rw [← htake]
      exact List.all_eq_true.mp List.all_takeWhile
    · intro d hd
      rw [← hdrop] at hd
      exact Text.eq_false_of_head?_dropWhile hd
    · rw [Text.byteLength_append, ← hoffset]
      exact hstart
    · exact hstop.trans (by rw [← hstart])

theorem readingAt_eq_ok_iff
    {start stop : Nat} {outcome : Except LexCause Token} {t : Token} :
    readingAt start stop outcome = .ok ⟨t, start, stop⟩ ↔ outcome = .ok t := by
  cases outcome <;> simp [readingAt]

theorem readingAt_eq_error_iff
    {start stop : Nat} {outcome : Except LexCause Token} {cause : LexCause} :
    readingAt start stop outcome = .error ⟨start, cause⟩ ↔
      outcome = .error cause := by
  cases outcome <;> simp [readingAt]

/-- Number tokens are the finite decimals. A run is read as a number exactly if
it has the form of a numeral and the double that is nearest to its value is
finite, and it is read as that double, with the sign of the text. In all other
cases the run is refused, where it begins; one that has the form is refused only
if its value is too large. Reading goes on behind the run in either case.

A number is read only in front of such a run, and the run is plain: it has no
letters, no plus sign, no second point and no point at an end. -/
theorem numbers_are_finite_decimals
    {text : String} {s : Scanner} (hs : s.IsReachedIn text) :
    (∀ before run behind, s.MeetsRun text before run behind →
      (∀ x, s.ask.1 = some (.ok ⟨.literal (.number x), Text.byteLength before,
          Text.byteLength before + Text.byteLength run⟩) ↔
        run ∈ Numeral.pattern.matches' ∧ Text.StandsFor run x ∧
          x.isFinite = true) ∧
      (s.ask.1 = some (.error ⟨Text.byteLength before,
          .malformedNumber (String.ofList run)⟩) ↔
        ¬∃ x, s.ask.1 = some (.ok ⟨.literal (.number x), Text.byteLength before,
          Text.byteLength before + Text.byteLength run⟩)) ∧
      (run ∈ Numeral.pattern.matches' →
        (∃! x, Text.StandsFor run x) ∧
        (s.ask.1 = some (.error ⟨Text.byteLength before,
            .malformedNumber (String.ofList run)⟩) ↔
          ∃ n : Numeral, n.text = run ∧ overflow ≤ |n.value|)) ∧
      s.ask.2 =
        ⟨behind, Text.byteLength before + Text.byteLength run⟩) ∧
    ∀ x start stop,
      s.ask.1 = some (.ok ⟨.literal (.number x), start, stop⟩) →
        ∃ before run behind, s.MeetsRun text before run behind ∧
          start = Text.byteLength before ∧
          stop = start + Text.byteLength run ∧ Text.IsPlain run := by
  refine ⟨?_, ?_⟩
  · intro before run behind hmeets
    simp only [hmeets.ask_eq hs, Option.some.injEq, readingAt_eq_ok_iff,
      readingAt_eq_error_iff]
    refine ⟨Token.ofNumeral_eq_ok_iff run, Token.ofNumeral_eq_error_iff run,
      ?_, trivial⟩
    intro hmem
    refine ⟨Numeral.existsUnique_standsFor hmem, ?_⟩
    obtain ⟨n, rfl⟩ := (Numeral.mem_pattern_iff run).mp hmem
    rw [Token.ofNumeral_text_eq_error_iff]
    constructor
    · intro hlarge
      exact ⟨n, rfl, hlarge⟩
    · rintro ⟨m, hm, hlarge⟩
      rwa [← Numeral.value_eq_of_text_eq hm]
  · intro x start stop hanswer
    obtain ⟨before, run, behind, hmeets, hstart, hstop, hread⟩ :=
      hs.exists_meetsRun hanswer
    obtain ⟨-, ⟨n, rfl, -⟩, -⟩ := (Token.ofNumeral_eq_ok_iff run x).mp hread
    exact ⟨before, n.text, behind, hmeets, hstart, hstop, n.isPlain_text⟩

theorem numbers_are_finite_decimals_of_negative_tenth :
    let s := (ofText "t >= -0.1").after 2
    let x := ofBits 0xBFB999999999999A
    s.IsReachedIn "t >= -0.1" ∧
      s.MeetsRun "t >= -0.1" "t >= ".toList "-0.1".toList [] ∧
      s.ask.1 = some (.ok ⟨.literal (.number x), 5, 9⟩) ∧
      x.IsNearestTo (-1 / 10) ∧ x.isFinite = true ∧
      ∃ before run behind, s.MeetsRun "t >= -0.1" before run behind ∧
        5 = Text.byteLength before ∧ 9 = 5 + Text.byteLength run ∧
        Text.IsPlain run := by
  intro s x
  have hs : s.IsReachedIn "t >= -0.1" := ⟨2, rfl⟩
  have hmeets : s.MeetsRun "t >= -0.1" "t >= ".toList "-0.1".toList [] := by
    refine ⟨by decide +kernel, ?_, ?_, by rintro d ⟨⟩⟩
    · exact ⟨"t >=".toList, [' '], by decide +kernel,
        List.all_eq_true.mp (by decide), by decide +kernel⟩
    · exact ⟨'-', ['0', '.', '1'], by decide +kernel, .inl rfl,
        List.all_eq_true.mp (by decide)⟩
  have hanswer : s.ask.1 = some (.ok ⟨.literal (.number x), 5, 9⟩) := by
    decide +kernel
  obtain ⟨hlocal, hplain⟩ := numbers_are_finite_decimals hs
  obtain ⟨haccepts, -, -, -⟩ := hlocal _ _ _ hmeets
  obtain ⟨-, ⟨n, htext, hdenotes⟩, hfinite⟩ := (haccepts x).mp hanswer
  let tenth : Numeral := ⟨true, ['0'], some ['1'], by decide, by
    rintro digits ⟨⟩
    decide⟩
  have hvalue : n.value = -1 / 10 := by
    have htenth : n.text = tenth.text := htext.trans (by decide +kernel)
    have hwhole : Numeral.ofPlaces ['0'] = 0 := by decide
    have hfraction : Numeral.ofPlaces ['1'] = 1 := by decide
    rw [Numeral.value_eq_of_text_eq htenth]
    norm_num [Numeral.value, signed, tenth, hwhole, hfraction]
  refine ⟨hs, hmeets, hanswer, ?_, hfinite, hplain x 5 9 hanswer⟩
  rw [← hvalue]
  exact hdenotes.isNearestTo

/-- An exponent is no part of a number. -/
example :
    (ofText "1e5").ask.1 = some (.error ⟨0, .malformedNumber "1e5"⟩) := by
  decide

end Scanner

end Rulebook
