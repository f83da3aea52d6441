import Rulebook.Text.Blank
import Rulebook.Token.Basic

/-!
# Scanning a text for tokens

After any blanks, the longest lexeme that starts at a character is taken; which
lexeme it is depends on that character alone. What is not a token is taken too,
so that scanning can go on behind an error: a character that starts no token, a
whole run of letters and digits that is no number, or all the rest of a text
whose last string is not closed.
-/

namespace Rulebook

namespace Text

/-- The length of a text in bytes of its UTF-8 encoding. -/
def byteLength : List Char → Nat
  | [] => 0
  | c :: rest => c.utf8Size + byteLength rest

@[simp] theorem byteLength_append (s t : List Char) :
    byteLength (s ++ t) = byteLength s + byteLength t := by
  induction s with
  | nil => simp [byteLength]
  | cons c rest ih => simp [byteLength, ih, Nat.add_assoc]

/-- The characters of fields and keywords: ASCII letters, ASCII digits and the
low line. -/
def isWordChar (c : Char) : Bool :=
  c.isAlphanum || c == '_'

/-- The characters that stick to a number, although not all of them make one. -/
def isNumeralChar (c : Char) : Bool :=
  isWordChar c || c == '.'

end Text

namespace Decimal

/-- The numeral spelled by an optional minus sign, digits, and optionally a
point with more digits. -/
def ofNumeral? (s : List Char) : Option Decimal :=
  let negative := s.head? == some '-'
  let unsigned := if negative then s.drop 1 else s
  let whole := unsigned.takeWhile (· != '.')
  match unsigned.dropWhile (· != '.') with
  | [] => if isDigits whole then some (ofParts negative whole [] 0) else none
  | _ :: fraction =>
    if isDigits whole && isDigits fraction then
      some (ofParts negative whole fraction 0)
    else none

end Decimal

namespace Token

/-- The word that a run of word characters spells. -/
def ofWord (word : String) : Token :=
  match Connector.ofKeyword? word with
  | some k => .connector k
  | none =>
    if word = "true" then .literal (.boolean true)
    else if word = "false" then .literal (.boolean false)
    else .field word

/-- The number that a run of numeral characters spells. -/
def ofNumeral (run : List Char) : Except LexCause Token :=
  match Decimal.ofNumeral? run with
  | some d =>
    if d.toBinary64.isFinite then .ok (.literal (.number d.toBinary64))
    else .error (.malformedNumber (String.ofList run))
  | none => .error (.malformedNumber (String.ofList run))

/-- What was taken from the start of a text: the token or the reason that there
is none, the characters of it, and the text behind. -/
structure Munch where
  outcome : Except LexCause Token
  taken : List Char
  rest : List Char

/-- An operator that is longer by one character if that is an equals sign. -/
def munchComparison (c : Char) (rest : List Char)
    (short : Except LexCause Token) (long : Operator) : Munch :=
  match rest with
  | '=' :: rest => ⟨.ok (.operator long), [c, '='], rest⟩
  | rest => ⟨short, [c], rest⟩

/-- A string up to the next quote; no character has a special meaning in it. -/
def munchString (quote : Char) (rest : List Char) : Munch :=
  let body := rest.takeWhile (· != quote)
  match rest.dropWhile (· != quote) with
  | [] => ⟨.error .unterminatedString, quote :: rest, []⟩
  | close :: behind =>
    ⟨.ok (.literal (.string (String.ofList body))),
      quote :: body ++ [close], behind⟩

/-- The lexeme at the start of the text `c :: rest`, where `c` is not blank. -/
def munch (c : Char) (rest : List Char) : Munch :=
  if c = '(' then ⟨.ok .opening, [c], rest⟩
  else if c = ')' then ⟨.ok .closing, [c], rest⟩
  else if c = '=' then ⟨.ok (.operator .equal), [c], rest⟩
  else if c = '>' then
    munchComparison c rest (.ok (.operator .greater)) .greaterOrEqual
  else if c = '<' then
    munchComparison c rest (.ok (.operator .less)) .lessOrEqual
  else if c = '!' then
    munchComparison c rest (.error (.unexpectedCharacter c)) .notEqual
  else if c = '\x27' then munchString c rest
  else if c = '-' || c.isDigit then
    let run := c :: rest.takeWhile Text.isNumeralChar
    ⟨ofNumeral run, run, rest.dropWhile Text.isNumeralChar⟩
  else if c.isAlpha || c = '_' then
    let run := c :: rest.takeWhile Text.isWordChar
    ⟨.ok (ofWord (String.ofList run)), run, rest.dropWhile Text.isWordChar⟩
  else ⟨.error (.unexpectedCharacter c), [c], rest⟩

theorem munchComparison_taken_append_rest {c : Char} {rest : List Char}
    {short : Except LexCause Token} {long : Operator} :
    (munchComparison c rest short long).taken ++
      (munchComparison c rest short long).rest = c :: rest := by
  unfold munchComparison
  split <;> rfl

theorem munchString_taken_append_rest {c : Char} {rest : List Char} :
    (munchString c rest).taken ++ (munchString c rest).rest = c :: rest := by
  unfold munchString
  have h := List.takeWhile_append_dropWhile (p := (· != c)) (l := rest)
  split
  · simp
  · next close behind hd =>
    rw [hd] at h
    simpa using h

/-- Nothing is lost: what was taken and the text behind it are the text. -/
theorem munch_taken_append_rest (c : Char) (rest : List Char) :
    (munch c rest).taken ++ (munch c rest).rest = c :: rest := by
  unfold munch
  split; · rfl
  split; · rfl
  split; · rfl
  split; · exact munchComparison_taken_append_rest
  split; · exact munchComparison_taken_append_rest
  split; · exact munchComparison_taken_append_rest
  split; · exact munchString_taken_append_rest
  split; · simp [List.takeWhile_append_dropWhile]
  split; · simp [List.takeWhile_append_dropWhile]
  rfl

theorem munch_taken_ne_nil (c : Char) (rest : List Char) :
    (munch c rest).taken ≠ [] := by
  unfold munch munchComparison munchString
  repeat' split
  all_goals simp

theorem length_munch_rest_le (c : Char) (rest : List Char) :
    (munch c rest).rest.length ≤ rest.length := by
  have happ := congrArg List.length (munch_taken_append_rest c rest)
  have hpos := List.length_pos_iff.mpr (munch_taken_ne_nil c rest)
  simp only [List.length_append, List.length_cons] at happ
  omega

end Token

/-- Where scanning stands: the text that is left, and the number of bytes in
front of it. -/
structure Scanner where
  rest : List Char
  offset : Nat

namespace Scanner

/-- The start of a text. -/
def ofText (s : String) : Scanner := ⟨s.toList, 0⟩

/-- The next token or error and the place behind it; nothing at the end of the
text. -/
def next? (s : Scanner) : Option (Except LexError Lexeme × Scanner) :=
  let blanks := s.rest.takeWhile Text.isBlank
  match Text.dropBlanks s.rest with
  | [] => none
  | c :: rest =>
    let found := Token.munch c rest
    let start := s.offset + Text.byteLength blanks
    let stop := start + Text.byteLength found.taken
    let outcome :=
      match found.outcome with
      | .ok token => Except.ok ⟨token, start, stop⟩
      | .error cause => Except.error ⟨start, cause⟩
    some (outcome, ⟨found.rest, stop⟩)

theorem length_rest_lt_of_next? {s t : Scanner}
    {outcome : Except LexError Lexeme} (h : s.next? = some (outcome, t)) :
    t.rest.length < s.rest.length := by
  have hblanks := Text.length_dropBlanks_le s.rest
  unfold next? at h
  split at h
  · cases h
  · next c rest hrest =>
    simp only [Option.some.injEq, Prod.mk.injEq] at h
    obtain ⟨-, rfl⟩ := h
    have := Token.length_munch_rest_le c rest
    rw [hrest, List.length_cons] at hblanks
    simp only
    omega

/-- All tokens and errors from here to the end of the text. -/
def readings (s : Scanner) : List (Except LexError Lexeme) :=
  match _h : s.next? with
  | none => []
  | some (outcome, next) => outcome :: next.readings
termination_by s.rest.length
decreasing_by exact length_rest_lt_of_next? _h

end Scanner

/-- The tokens of a text, or the first error in it. -/
def lexemes (s : String) : Except LexError (List Lexeme) :=
  (Scanner.ofText s).readings.mapM id

end Rulebook
