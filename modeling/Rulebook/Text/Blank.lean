/-!
# Blank characters

Blanks separate the lexemes of a rule and are cut off both ends of a name.
They are the characters with the Unicode property `White_Space`, which is more
than the four that `Char.isWhitespace` knows.
-/

namespace Rulebook.Text

/-- The code points with the property `White_Space`, as closed intervals. -/
def blankIntervals : List (Nat × Nat) :=
  [(0x09, 0x0D), (0x20, 0x20), (0x85, 0x85), (0xA0, 0xA0), (0x1680, 0x1680),
    (0x2000, 0x200A), (0x2028, 0x2029), (0x202F, 0x202F), (0x205F, 0x205F),
    (0x3000, 0x3000)]

/-- Whether a character has the property `White_Space`. -/
def isBlank (c : Char) : Bool :=
  blankIntervals.any fun interval =>
    decide (interval.1 ≤ c.toNat) && decide (c.toNat ≤ interval.2)

/-- A text without the blanks at its start. -/
def dropBlanks (s : List Char) : List Char :=
  s.dropWhile isBlank

/-- A text without the blanks at its start and at its end. -/
def trim (s : String) : String :=
  String.ofList (dropBlanks (dropBlanks s.toList).reverse).reverse

theorem length_dropBlanks_le (s : List Char) :
    (dropBlanks s).length ≤ s.length :=
  (List.dropWhile_suffix isBlank).length_le

end Rulebook.Text
