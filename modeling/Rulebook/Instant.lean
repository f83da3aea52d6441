import Rulebook.Decimal
import Rulebook.Text.Blank

/-!
# Points in time

A point in time is counted in seconds from the start of 1970 in UTC, and in
nanoseconds from there. Within a leap second the nanoseconds go on beyond a
whole second, so that the points of time stay in order.

Dates are those of the Gregorian calendar, continued backwards. A year is taken
to start in March, so that the leap day is its last day.
-/

namespace Rulebook

/-- A point in time. -/
structure Instant where
  seconds : Int
  nanoseconds : Nat
deriving DecidableEq

/-- A day of the Gregorian calendar. -/
structure Date where
  year : Int
  month : Nat
  day : Nat
deriving DecidableEq, Repr

namespace Date

/-- The number of days from the first of January 1970 to a day. -/
def toDays (d : Date) : Int :=
  let year := if d.month ≤ 2 then d.year - 1 else d.year
  let era := year.fdiv 400
  let yearOfEra := year - era * 400
  let month := if d.month ≤ 2 then d.month + 9 else d.month - 3
  let dayOfYear : Int := (153 * month + 2) / 5 + d.day - 1
  let dayOfEra := yearOfEra * 365 + yearOfEra / 4 - yearOfEra / 100 + dayOfYear
  era * 146097 + dayOfEra - 719468

/-- The day that lies the given number of days after the first of January
1970. -/
def ofDays (days : Int) : Date :=
  let shifted := days + 719468
  let era := shifted.fdiv 146097
  let dayOfEra := shifted - era * 146097
  let yearOfEra :=
    (dayOfEra - dayOfEra / 1460 + dayOfEra / 36524 - dayOfEra / 146096) / 365
  let dayOfYear :=
    dayOfEra - (365 * yearOfEra + yearOfEra / 4 - yearOfEra / 100)
  let month := (5 * dayOfYear + 2) / 153
  let day := dayOfYear - (153 * month + 2) / 5 + 1
  let year := yearOfEra + era * 400
  if month < 10 then ⟨year, (month + 3).toNat, day.toNat⟩
  else ⟨year + 1, (month - 9).toNat, day.toNat⟩

/-- Whether a year has a leap day. -/
def isLeapYear (year : Int) : Bool :=
  year % 4 == 0 && (year % 100 != 0 || year % 400 == 0)

/-- The number of days in a month. -/
def daysInMonth (year : Int) (month : Nat) : Nat :=
  if month = 2 then if isLeapYear year then 29 else 28
  else if month = 4 ∨ month = 6 ∨ month = 9 ∨ month = 11 then 30
  else 31

/-- The years for which there are dates. -/
def isYear (year : Int) : Bool :=
  decide (-262143 ≤ year) && decide (year ≤ 262142)

/-- Whether there is such a day. -/
def isValid (d : Date) : Bool :=
  isYear d.year && decide (1 ≤ d.month) && decide (d.month ≤ 12) &&
    decide (1 ≤ d.day) && decide (d.day ≤ daysInMonth d.year d.month)

end Date

namespace Instant

/-- Whether a point in time is not later than another. -/
def atMost (a b : Instant) : Bool :=
  decide (a.seconds < b.seconds) ||
    (decide (a.seconds = b.seconds) && decide (a.nanoseconds ≤ b.nanoseconds))

/-- Whether a point in time is earlier than another. -/
def before (a b : Instant) : Bool := !b.atMost a

theorem atMost_iff {a b : Instant} :
    a.atMost b = true ↔ a.seconds < b.seconds ∨
      a.seconds = b.seconds ∧ a.nanoseconds ≤ b.nanoseconds := by
  simp [atMost]

theorem atMost_refl (a : Instant) : a.atMost a = true :=
  atMost_iff.mpr (.inr ⟨rfl, Nat.le_refl _⟩)

theorem before_iff {a b : Instant} :
    a.before b = true ↔ a.seconds < b.seconds ∨
      a.seconds = b.seconds ∧ a.nanoseconds < b.nanoseconds := by
  rw [before, Bool.not_eq_true', Bool.eq_false_iff, Ne, atMost_iff]
  omega

theorem before_trans {a b c : Instant} (hab : a.before b = true)
    (hbc : b.before c = true) : a.before c = true := by
  rw [before_iff] at *
  omega

theorem before_or_eq_or_before (a b : Instant) :
    a.before b = true ∨ a = b ∨ b.before a = true := by
  obtain ⟨seconds, nanoseconds⟩ := a
  obtain ⟨seconds', nanoseconds'⟩ := b
  rw [before_iff, before_iff, mk.injEq]
  dsimp only
  omega

theorem not_before_self (a : Instant) : ¬a.before a = true := by
  rw [before_iff]
  omega

theorem atMost_iff_before_or_eq {a b : Instant} :
    a.atMost b = true ↔ a.before b = true ∨ a = b := by
  obtain ⟨seconds, nanoseconds⟩ := a
  obtain ⟨seconds', nanoseconds'⟩ := b
  rw [atMost_iff, before_iff, mk.injEq]
  dsimp only
  omega

/-- A natural number with zeros in front, up to the given width. -/
def padded (width n : Nat) : String :=
  let digits := Nat.toDigits 10 n
  String.ofList (List.replicate (width - digits.length) '0' ++ digits)

/-- A year, with a sign unless it has four digits. -/
def yearText (year : Int) : String :=
  if 0 ≤ year ∧ year ≤ 9999 then padded 4 year.toNat
  else (if year < 0 then "-" else "+") ++ padded 4 year.natAbs

/-- A fraction of a second with three, six or nine digits, whichever are enough;
nothing for zero. -/
def fractionText (nanoseconds : Nat) : String :=
  if nanoseconds = 0 then ""
  else if nanoseconds % 1000000 = 0 then
    "." ++ padded 3 (nanoseconds / 1000000)
  else if nanoseconds % 1000 = 0 then "." ++ padded 6 (nanoseconds / 1000)
  else "." ++ padded 9 nanoseconds

/-- A point in time as RFC 3339 text in UTC. -/
def text (t : Instant) : String :=
  let days := t.seconds.fdiv 86400
  let time := (t.seconds - days * 86400).toNat
  let date := Date.ofDays days
  let leap := t.nanoseconds / 1000000000
  yearText date.year ++ "-" ++ padded 2 date.month ++ "-" ++
    padded 2 date.day ++ "T" ++ padded 2 (time / 3600) ++ ":" ++
    padded 2 (time / 60 % 60) ++ ":" ++ padded 2 (time % 60 + leap) ++
    fractionText (t.nanoseconds % 1000000000) ++ "Z"

/-- One to `width` digits at the start of a text, and the text behind. -/
def readDigits (width : Nat) (s : List Char) : Option (Nat × List Char) :=
  let digits := (s.take width).takeWhile Char.isDigit
  if digits.isEmpty then none
  else some (Decimal.ofDigits digits, s.drop digits.length)

/-- A number after blanks: at most `width` digits. -/
def readField (width : Nat) (s : List Char) : Option (Nat × List Char) :=
  readDigits width (Text.dropBlanks s)

/-- The text behind a character that has to come after blanks. -/
def readMark (mark : Char) (s : List Char) : Option (List Char) :=
  match Text.dropBlanks s with
  | c :: rest => if c = mark then some rest else none
  | [] => none

/-- A year after blanks: up to four digits, or a sign and any number of
digits. -/
def readYear (s : List Char) : Option (Int × List Char) :=
  match Text.dropBlanks s with
  | '-' :: rest =>
    (readDigits rest.length rest).map fun (n, rest) => (-(n : Int), rest)
  | '+' :: rest =>
    (readDigits rest.length rest).map fun (n, rest) => ((n : Int), rest)
  | s => (readDigits 4 s).map fun (n, rest) => ((n : Int), rest)

/-- A fraction of a second in nanoseconds, if there is one; digits behind the
ninth are dropped. -/
def readFraction (s : List Char) : Option (Nat × List Char) :=
  match s with
  | '.' :: rest =>
    let digits := rest.takeWhile Char.isDigit
    if digits.isEmpty then none
    else
      let kept := digits.take 9
      some (Decimal.ofDigits kept * Nat.pow 10 (9 - kept.length),
        rest.dropWhile Char.isDigit)
  | s => some (0, s)

/-- Two digits of an offset. -/
def readTwo (s : List Char) : Option (Nat × List Char) :=
  match s with
  | a :: b :: rest =>
    if a.isDigit && b.isDigit then some (Decimal.ofDigits [a, b], rest)
    else none
  | _ => none

/-- An offset from UTC in seconds: its name, or a sign with hours and minutes,
between which colons and blanks may stand. -/
def readOffset (s : List Char) : Option (Int × List Char) :=
  let signed (sign : Int) (s : List Char) : Option (Int × List Char) := do
    let (hours, s) ← readTwo s
    let (minutes, s) ←
      readTwo (s.dropWhile fun c => c == ':' || Text.isBlank c)
    if 60 ≤ minutes then none
    else some (sign * (hours * 3600 + minutes * 60), s)
  match s with
  | 'Z' :: rest => some (0, rest)
  | 'z' :: rest => some (0, rest)
  | '+' :: rest => signed 1 rest
  | '-' :: rest => signed (-1) rest
  | '\u2212' :: rest => signed (-1) rest
  | a :: b :: c :: rest =>
    if [a, b, c].map Char.toUpper = ['U', 'T', 'C'] then some (0, rest)
    else none
  | _ => none

/-- The point in time that a text denotes: a date, `T` or a blank, a time with
seconds, and an offset. Blanks may stand between the parts, and numbers may
have fewer digits than usual. The sixtieth second of a minute is a leap
second. -/
def ofText? (text : String) : Option Instant := do
  let (year, s) ← readYear text.toList
  let s ← readMark '-' s
  let (month, s) ← readField 2 s
  let s ← readMark '-' s
  let (day, s) ← readField 2 s
  let s ←
    match s with
    | c :: rest => if c = 'T' ∨ c = 't' ∨ c = ' ' then some rest else none
    | [] => none
  let (hour, s) ← readField 2 s
  let s ← readMark ':' s
  let (minute, s) ← readField 2 s
  let s ← readMark ':' s
  let (second, s) ← readField 2 s
  let (nanoseconds, s) ← readFraction s
  let (offset, s) ← readOffset (Text.dropBlanks s)
  let date : Date := ⟨year, month, day⟩
  let isTime := hour < 24 && minute < 60 && second ≤ 60
  if !date.isValid || !isTime || 86400 ≤ offset.natAbs ||
      !(Text.dropBlanks s).isEmpty then none
  else
    let leap := second / 60
    let seconds :=
      date.toDays * 86400 + (hour * 3600 + minute * 60 + second - leap : Nat) -
        offset
    if Date.isYear (Date.ofDays (seconds.fdiv 86400)).year then
      some ⟨seconds, nanoseconds + leap * 1000000000⟩
    else none

end Instant

end Rulebook
