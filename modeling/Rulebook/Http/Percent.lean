import Rulebook.Text.Hexadecimal

/-!
# Percent encoding

A percent sign with two hexadecimal digits stands for a byte. Where the digits
are missing the percent sign stands for itself.
-/

namespace Rulebook.Http

/-- The byte that two hexadecimal digits spell. -/
def hexByte? (a b : UInt8) : Option UInt8 := do
  let high ← Text.hexDigit? (Char.ofNat a.toNat)
  let low ← Text.hexDigit? (Char.ofNat b.toNat)
  return UInt8.ofNat (high * 16 + low)

/-- The bytes that a row of bytes stands for. -/
def percentDecode : List UInt8 → List UInt8
  | 0x25 :: a :: b :: rest =>
    match hexByte? a b with
    | some byte => byte :: percentDecode rest
    | none => 0x25 :: percentDecode (a :: b :: rest)
  | byte :: rest => byte :: percentDecode rest
  | [] => []

/-- The text that a text with percent signs stands for, if it is UTF-8. -/
def percentDecoded? (s : List Char) : Option String :=
  String.fromUTF8? ⟨(percentDecode (s.flatMap String.utf8EncodeChar)).toArray⟩

end Rulebook.Http
