import Rulebook.Json.Numeral
import Rulebook.Text.Hexadecimal

/-!
# The marks of a JSON text

A JSON text is a row of marks: punctuation, and values that contain no others.
Reading them stops at the first character that cannot be part of a mark; the
fault is the last mark then.

What a string or a number means is not decided here as long as it can be read:
a string with half of a surrogate pair is a mark, although it has no
characters, and so is a number that is too large for a double.
-/

namespace Rulebook.Json

/-- A value that contains no others. -/
inductive Atom where
  | null
  | boolean (value : Bool)
  | number (value : Numeral)
  | string (value : Option String)
deriving DecidableEq

/-- A part of a JSON text. -/
inductive Mark where
  | openArray
  | closeArray
  | openObject
  | closeObject
  | comma
  | colon
  | atom (value : Atom)
  | fault
deriving DecidableEq

/-- Whether a character may stand between marks. -/
def isSpace (c : Char) : Bool :=
  c == ' ' || c == '\n' || c == '\t' || c == '\r'

/-- The value of four hexadecimal digits. -/
def hexQuad? (a b c d : Char) : Option Nat := do
  let a ← Text.hexDigit? a
  let b ← Text.hexDigit? b
  let c ← Text.hexDigit? c
  let d ← Text.hexDigit? d
  return ((a * 16 + b) * 16 + c) * 16 + d

/-- The character that a backslash with one letter stands for. -/
def simpleEscape? : Char → Option Char
  | '"' => some '"'
  | '\\' => some '\\'
  | '/' => some '/'
  | 'b' => some '\x08'
  | 'f' => some '\x0c'
  | 'n' => some '\n'
  | 'r' => some '\r'
  | 't' => some '\t'
  | _ => none

/-- A part of a string: a character, or a unit of 16 bits written in
hexadecimal digits. -/
inductive StringPart where
  | char (c : Char)
  | unit (n : Nat)

/-- The parts of a string up to its closing quote, behind the parts in `seen`
in reverse, and the text behind the quote. -/
def stringParts (seen : List StringPart) :
    List Char → Option (List StringPart × List Char)
  | [] => none
  | '"' :: rest => some (seen.reverse, rest)
  | '\\' :: 'u' :: a :: b :: c :: d :: rest =>
    match hexQuad? a b c d with
    | some n => stringParts (.unit n :: seen) rest
    | none => none
  | '\\' :: c :: rest =>
    match simpleEscape? c with
    | some c => stringParts (.char c :: seen) rest
    | none => none
  | c :: rest =>
    if c.toNat < 0x20 ∨ c = '\\' then none
    else stringParts (.char c :: seen) rest

/-- The characters of a string. Two units that are a surrogate pair make one
character, and half of a pair makes none. -/
def joinParts : List StringPart → Option (List Char)
  | [] => some []
  | .char c :: rest => (joinParts rest).map (c :: ·)
  | .unit high :: rest =>
    if high < 0xD800 ∨ 0xE000 ≤ high then
      (joinParts rest).map (Char.ofNat high :: ·)
    else if 0xDC00 ≤ high then none
    else
      match rest with
      | .unit low :: rest =>
        if 0xDC00 ≤ low ∧ low < 0xE000 then
          (joinParts rest).map
            (Char.ofNat (0x10000 + (high - 0xD800) * 0x400 + (low - 0xDC00)) :: ·)
        else none
      | _ => none

/-- The digits in front of a text, and the text behind them. -/
def spanDigits (s : List Char) : List Char × List Char :=
  (s.takeWhile Char.isDigit, s.dropWhile Char.isDigit)

/-- The digits behind a point, if there is a point, and the text behind. -/
def readFraction : List Char → Option (List Char × List Char)
  | '.' :: rest =>
    let digits := spanDigits rest
    if digits.1.isEmpty then none else some digits
  | s => some ([], s)

/-- The exponent of a number, if there is one, and the text behind. -/
def readExponent : List Char → Option (Option Int × List Char)
  | [] => some (none, [])
  | c :: rest =>
    if c = 'e' ∨ c = 'E' then
      let sign := rest.head?
      let signed := sign == some '+' || sign == some '-'
      let digits := spanDigits (if signed then rest.drop 1 else rest)
      let size : Int := Decimal.ofDigits digits.1
      if digits.1.isEmpty then none
      else some (some (if sign == some '-' then -size else size), digits.2)
    else some (none, c :: rest)

/-- A number behind its sign, and the text behind it: digits without a zero in
front of others, then optionally a fraction and an exponent. -/
def readNumber (negative : Bool) (s : List Char) :
    Option (Numeral × List Char) :=
  let whole := spanDigits s
  if whole.1.isEmpty || (1 < whole.1.length && whole.1.head? == some '0') then
    none
  else do
    let fraction ← readFraction whole.2
    let exponent ← readExponent fraction.2
    return (⟨negative, whole.1, fraction.1, exponent.1⟩, exponent.2)

/-- The rest of a word after its first letter, and the text behind it. -/
def readWord (word : List Char) (value : Atom) (s : List Char) :
    Option (Atom × List Char) :=
  if word.isPrefixOf s then some (value, s.drop word.length) else none

/-- The value that starts with the character `c`, and the text behind it. -/
def readAtom (c : Char) (rest : List Char) : Option (Atom × List Char) :=
  if c = '"' then
    (stringParts [] rest).map fun (parts, rest) =>
      (.string ((joinParts parts).map String.ofList), rest)
  else if c = '-' then
    (readNumber true rest).map fun (value, rest) => (.number value, rest)
  else if c.isDigit then
    (readNumber false (c :: rest)).map fun (value, rest) =>
      (.number value, rest)
  else if c = 'n' then readWord ['u', 'l', 'l'] .null rest
  else if c = 't' then readWord ['r', 'u', 'e'] (.boolean true) rest
  else if c = 'f' then readWord ['a', 'l', 's', 'e'] (.boolean false) rest
  else none

/-- The punctuation that a character is. -/
def punctuation? : Char → Option Mark
  | '[' => some .openArray
  | ']' => some .closeArray
  | '{' => some .openObject
  | '}' => some .closeObject
  | ',' => some .comma
  | ':' => some .colon
  | _ => none

theorem length_le_of_stringParts {seen parts : List StringPart}
    {s rest : List Char} (h : stringParts seen s = some (parts, rest)) :
    rest.length ≤ s.length := by
  fun_induction stringParts seen s with
  | case1 => cases h
  | case2 => cases h; simp
  | case3 _ _ _ _ _ _ _ _ ih =>
    have := ih h
    simp only [List.length_cons]
    omega
  | case4 => cases h
  | case5 _ _ _ _ _ _ ih =>
    have := ih h
    simp only [List.length_cons]
    omega
  | case6 => cases h
  | case7 => cases h
  | case8 _ _ _ _ _ _ _ ih =>
    have := ih h
    simp only [List.length_cons]
    omega

theorem length_spanDigits_le (s : List Char) :
    (spanDigits s).2.length ≤ s.length :=
  (List.dropWhile_suffix Char.isDigit).length_le

theorem length_spanDigits (s : List Char) :
    (spanDigits s).1.length + (spanDigits s).2.length = s.length := by
  rw [← List.length_append]
  exact congrArg List.length List.takeWhile_append_dropWhile

theorem length_le_of_readFraction {s digits rest : List Char}
    (h : readFraction s = some (digits, rest)) : rest.length ≤ s.length := by
  unfold readFraction at h
  split at h
  · next behind =>
    have := length_spanDigits_le behind
    simp only [Option.ite_none_left_eq_some, Option.some.injEq] at h
    rw [h.2] at this
    simp only [List.length_cons] at *
    omega
  · cases h
    exact Nat.le_refl _

theorem length_le_of_readExponent {s rest : List Char} {e : Option Int}
    (h : readExponent s = some (e, rest)) : rest.length ≤ s.length := by
  unfold readExponent at h
  split at h
  · cases h
    exact Nat.le_refl _
  · next c behind =>
    split at h
    · simp only [Option.ite_none_left_eq_some, Option.some.injEq,
        Prod.mk.injEq] at h
      have := length_spanDigits_le
        (if (behind.head? == some '+' || behind.head? == some '-') = true then
          behind.drop 1 else behind)
      rw [h.2.2] at this
      split at this
      · simp only [List.length_drop, List.length_cons] at *
        omega
      · simp only [List.length_cons]
        omega
    · cases h
      exact Nat.le_refl _

theorem length_lt_of_readNumber {negative : Bool} {s rest : List Char}
    {n : Numeral} (h : readNumber negative s = some (n, rest)) :
    rest.length < s.length := by
  simp only [readNumber, Option.ite_none_left_eq_some, Option.bind_eq_bind,
    Option.bind_eq_some_iff, Option.pure_def, Option.some.injEq,
    Prod.mk.injEq, Bool.or_eq_true, not_or] at h
  obtain ⟨⟨hdigits, -⟩, ⟨fraction, behind⟩, hfraction, ⟨e, rest'⟩, hexponent,
    -, rfl⟩ := h
  have hwhole := length_spanDigits s
  have hpos : 0 < (spanDigits s).1.length := by
    rw [List.length_pos_iff]
    simpa [List.isEmpty_iff] using hdigits
  have := length_le_of_readFraction hfraction
  have := length_le_of_readExponent hexponent
  simp only at *
  omega

theorem length_le_of_readWord {word s rest : List Char} {value a : Atom}
    (h : readWord word value s = some (a, rest)) : rest.length ≤ s.length := by
  simp only [readWord, Option.ite_none_right_eq_some, Option.some.injEq,
    Prod.mk.injEq] at h
  rw [← h.2.2, List.length_drop]
  omega

theorem length_le_of_readAtom {c : Char} {s rest : List Char} {a : Atom}
    (h : readAtom c s = some (a, rest)) : rest.length ≤ s.length := by
  unfold readAtom at h
  split at h
  · obtain ⟨⟨parts, behind⟩, hparts, heq⟩ := Option.map_eq_some_iff.mp h
    cases heq
    exact length_le_of_stringParts hparts
  split at h
  · obtain ⟨⟨d, behind⟩, hnumber, heq⟩ := Option.map_eq_some_iff.mp h
    cases heq
    exact Nat.le_of_lt (length_lt_of_readNumber hnumber)
  split at h
  · obtain ⟨⟨d, behind⟩, hnumber, heq⟩ := Option.map_eq_some_iff.mp h
    cases heq
    exact Nat.le_of_lt_succ (length_lt_of_readNumber hnumber)
  split at h
  · exact length_le_of_readWord h
  split at h
  · exact length_le_of_readWord h
  split at h
  · exact length_le_of_readWord h
  · cases h

/-- The marks of a text, up to the first fault. -/
def marks : List Char → List Mark
  | [] => []
  | c :: rest =>
    if isSpace c then marks rest
    else
      match punctuation? c with
      | some mark => mark :: marks rest
      | none =>
        match h : readAtom c rest with
        | some (value, behind) =>
          have := length_le_of_readAtom h
          .atom value :: marks behind
        | none => [.fault]
termination_by s => s.length

theorem marks_cons_of_punctuation? {c : Char} {mark : Mark} (rest : List Char)
    (hspace : isSpace c = false) (h : punctuation? c = some mark) :
    marks (c :: rest) = mark :: marks rest := by
  simp [marks, hspace, h]

theorem marks_cons_of_readAtom {c : Char} {value : Atom}
    {rest behind : List Char} (hspace : isSpace c = false)
    (hnone : punctuation? c = none)
    (h : readAtom c rest = some (value, behind)) :
    marks (c :: rest) = .atom value :: marks behind := by
  rw [marks]
  simp only [hspace, hnone]
  split
  · next hspaced => cases hspaced
  · split
    · next found foundBehind hfound =>
      cases hfound.symm.trans h
      rfl
    · next hfails =>
      cases hfails.symm.trans h

end Rulebook.Json
