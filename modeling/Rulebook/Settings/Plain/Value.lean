import Rulebook.Binary64.Text
import Rulebook.Settings.Tree
import Rulebook.Text.Natural

/-!
# Converting the values of settings

Where a setting needs a value of another type it is converted, unless there is
no sensible way to do that. This is how the plain library of settings does it.
-/

namespace Rulebook.Plain

/-- A number as it is written: a sign, digits before a point, digits behind it,
and a power of ten. -/
structure WrittenNumber where
  negative : Bool
  whole : List Char
  fraction : Option (List Char)
  exponent : Option Int
deriving DecidableEq, Repr

namespace WrittenNumber

/-- A text without the sign in front of it, and whether that is a minus. -/
def unsigned (s : List Char) : Bool × List Char :=
  match s with
  | '-' :: rest => (true, rest)
  | '+' :: rest => (false, rest)
  | s => (false, s)

/-- The power of ten that a whole text spells. -/
def exponentOf? : List Char → Option (Option Int)
  | [] => some none
  | c :: rest =>
    let (negative, digits) := unsigned rest
    if c = 'e' ∨ c = 'E' then
      (Text.natural? digits).map fun n =>
        some (if negative then -(n : Int) else n)
    else none

/-- The number that a whole text spells. Digits may be missing on one side of
the point. -/
def ofText? (s : List Char) : Option WrittenNumber := do
  let (negative, s) := unsigned s
  let whole := s.takeWhile Char.isDigit
  let (fraction, rest) :=
    match s.dropWhile Char.isDigit with
    | '.' :: rest =>
      (some (rest.takeWhile Char.isDigit), rest.dropWhile Char.isDigit)
    | rest => (none, rest)
  let exponent ← exponentOf? rest
  if whole.isEmpty && (fraction.getD []).isEmpty then none
  else some ⟨negative, whole, fraction, exponent⟩

/-- The whole number that is written, if there is no point and no power of ten,
and 64 bits are enough for it. -/
def integer? (n : WrittenNumber) : Option Int :=
  let size := Decimal.ofDigits n.whole
  if n.fraction.isSome || n.exponent.isSome then none
  else if n.negative then if size ≤ 0x8000000000000000 then some (-size) else none
  else if size < 0x8000000000000000 then some size
  else none

/-- The double that is nearest to what is written. -/
def toBinary64 (n : WrittenNumber) : Binary64 :=
  (Decimal.ofParts n.negative n.whole (n.fraction.getD [])
    (n.exponent.getD 0)).toBinary64

/-- The value that a word with an optional sign names and that no digits
spell: infinity, or what is no number. -/
def special? (s : List Char) : Option Binary64 :=
  let (negative, word) := unsigned s
  if word = "inf".toList then some (.infinity negative)
  else if word = "nan".toList then some .notANumber
  else none

end WrittenNumber

/-- The words for yes. -/
def affirmations : List String := ["true", "on", "yes"]

/-- The words for no. -/
def negations : List String := ["false", "off", "no"]

/-- The text that a value is taken as. -/
def toText : SettingValue → String
  | .boolean true => "true"
  | .boolean false => "false"
  | .integer i => toString i
  | .float x => x.text
  | .text s => s

/-- The number of 64 bits without sign nearest to a double, a half away from
zero; what is no number counts as zero. -/
def clamped (x : Binary64) : Nat :=
  if x.isNaN || x.negative then 0
  else if x.isFinite then min x.roundHalfUp 0xFFFFFFFFFFFFFFFF
  else 0xFFFFFFFFFFFFFFFF

/-- The natural number of 64 bits that a value is taken as. -/
def toNatural? : SettingValue → Option Nat
  | .boolean b => some b.toNat
  | .integer i => if 0 ≤ i then some i.toNat else none
  | .float x => some (clamped x)
  | .text s =>
    let word := s.map Char.toLower
    if affirmations.contains word then some 1
    else if negations.contains word then some 0
    else Text.naturalBelow? 0x10000000000000000 s.toList

/-- The number of a port that a value is taken as. -/
def toPort? (v : SettingValue) : Option Nat :=
  (toNatural? v).filter fun n => decide (n < 0x10000)

/-- The truth value that a value is taken as. -/
def toBoolean? : SettingValue → Option Bool
  | .boolean b => some b
  | .integer i => some (decide (i ≠ 0))
  | .float x => some (!x.equal (.zero false))
  | .text s =>
    let word := s.map Char.toLower
    if word == "1" || affirmations.contains word then some true
    else if word == "0" || negations.contains word then some false
    else none

end Rulebook.Plain
