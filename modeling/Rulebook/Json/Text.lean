import Rulebook.Binary64.Arithmetic
import Rulebook.Binary64.Text
import Rulebook.Json.Basic
import Rulebook.Text.Hexadecimal

/-!
# The text of a JSON value

Values are written without space. In strings only quotes, backslashes and
control characters are escaped. A finite double is written with its shortest
digits and always with a point or an exponent, so that it is told from a whole
number; any other double is written as null.
-/

namespace Rulebook.Json

/-- A character inside a string. -/
def escape (c : Char) : List Char :=
  if c = '"' then ['\\', '"']
  else if c = '\\' then ['\\', '\\']
  else if c.toNat < 0x20 then
    ['\\', 'u', '0', '0', Text.hexDigit (c.toNat / 16),
      Text.hexDigit c.toNat]
  else [c]

/-- A string between its quotes. -/
def quote (s : String) : String :=
  "\"" ++ String.ofList (s.toList.flatMap escape) ++ "\""

/-- A numeral with its first digit in front of the point and an exponent. -/
def scientific (d : Decimal) : List Char :=
  let digits := Nat.toDigits 10 d.digits
  let sign := if d.negative then ['-'] else []
  let fraction := if digits.length = 1 then [] else '.' :: digits.drop 1
  let exponent : Int := d.exponent + digits.length - 1
  sign ++ digits.take 1 ++ fraction ++ 'e' :: (toString exponent).toList

/-- The text of a finite double. Numbers that are neither large nor small are
written without an exponent. -/
def doubleText (x : Binary64) : String :=
  let d := x.shortestDecimal .even
  let order : Int := d.exponent + Decimal.digitCount d.digits
  String.ofList
    (if -5 < order ∧ order ≤ 16 then
      if 0 ≤ d.exponent then d.positional ++ ['.', '0'] else d.positional
    else scientific d)

mutual

/-- The text of a value. -/
def text : Json → String
  | .null => "null"
  | .boolean true => "true"
  | .boolean false => "false"
  | .integer i => toString i
  | .double x => if x.isFinite then doubleText x else "null"
  | .string s => quote s
  | .array items => "[" ++ ",".intercalate (itemTexts items) ++ "]"
  | .object members =>
    "\x7b" ++ ",".intercalate (memberTexts members) ++ "\x7d"

/-- The texts of the items of an array. -/
def itemTexts : List Json → List String
  | [] => []
  | item :: rest => text item :: itemTexts rest

/-- The texts of the members of an object. -/
def memberTexts : List (String × Json) → List String
  | [] => []
  | (name, value) :: rest =>
    (quote name ++ ":" ++ text value) :: memberTexts rest

end

end Rulebook.Json
