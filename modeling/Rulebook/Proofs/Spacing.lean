import Mathlib
import Rulebook.Token.Scan

/-!
# Blanks between words

A word is a text that is read as one token. Behind a word, a character either
sticks to it, so that the word would not end there, or it does not. When words
stand in a text with blanks between them, and with no blank only where the next
character does not stick, then reading the text gives the tokens of the words.
-/

namespace Rulebook

namespace Text

/-- Whether a character directly behind a word could be a part of it: an equals
sign behind a lone comparison, and what numbers and names are made of behind a
number or a name. -/
def sticks (word : List Char) (d : Char) : Bool :=
  match word with
  | [] => false
  | c :: rest =>
    if c = '>' ∨ c = '<' then rest.isEmpty && d == '='
    else if c = '-' || c.isDigit then isNumeralChar d
    else if c.isAlpha || c = '_' then isWordChar d
    else false

/-- Only characters of numbers and names and the equals sign stick. -/
theorem sticks_eq_false
    {d : Char} (hequals : d ≠ '=') (hnumeral : isNumeralChar d = false)
    (word : List Char) : sticks word d = false := by
  have hword : isWordChar d = false := by
    simp only [isNumeralChar, Bool.or_eq_false_iff] at hnumeral
    exact hnumeral.1
  unfold sticks
  split
  · rfl
  · split
    · simp [hequals]
    · split
      · exact hnumeral
      · split
        · exact hword
        · rfl

/-- The codes of the characters of numbers and names. -/
theorem code_of_isNumeralChar
    {d : Char} (h : isNumeralChar d = true) :
    0x2E ≤ d.toNat ∧ d.toNat ≤ 0x7A := by
  simp only [isNumeralChar, isWordChar, Char.isAlphanum, Char.isAlpha,
    Char.isUpper, Char.isLower, Char.isDigit, Bool.or_eq_true,
    Bool.and_eq_true, decide_eq_true_eq, beq_iff_eq, ge_iff_le,
    UInt32.le_iff_toNat_le] at h
  rcases h with (((h | h) | h) | rfl) | rfl
  · change 65 ≤ d.toNat ∧ d.toNat ≤ 90 at h
    omega
  · change 97 ≤ d.toNat ∧ d.toNat ≤ 122 at h
    omega
  · change 48 ≤ d.toNat ∧ d.toNat ≤ 57 at h
    omega
  · decide
  · decide

theorem isBlank_eq_false_of_code
    {d : Char} (h : 0x21 ≤ d.toNat ∧ d.toNat ≤ 0x84) : isBlank d = false := by
  simp [isBlank, blankIntervals]
  omega

theorem isBlank_eq_false_of_isNumeralChar
    {c : Char} (h : isNumeralChar c = true) : isBlank c = false := by
  have hcode := code_of_isNumeralChar h
  exact isBlank_eq_false_of_code (by omega)

/-- Blanks do not stick. -/
theorem sticks_eq_false_of_isBlank
    {d : Char} (h : isBlank d = true) (word : List Char) :
    sticks word d = false := by
  apply sticks_eq_false
  · rintro rfl
    exact absurd h (by decide)
  · cases hnumeral : isNumeralChar d with
    | false => rfl
    | true =>
        rw [isBlank_eq_false_of_isNumeralChar hnumeral] at h
        cases h

theorem isDigit_eq_false_of_isAlpha
    {c : Char} (h : c.isAlpha = true) : c.isDigit = false := by
  simp only [Char.isAlpha, Char.isUpper, Char.isLower, Char.isDigit,
    Bool.or_eq_true, Bool.and_eq_true, decide_eq_true_eq,
    ge_iff_le, UInt32.le_iff_toNat_le, Bool.and_eq_false_iff,
    decide_eq_false_iff_not] at h ⊢
  have hA : 'A'.val.toNat = 65 := rfl
  have ha : 'a'.val.toNat = 97 := rfl
  have hnine : '9'.val.toNat = 57 := rfl
  omega

/-- A number begins with a minus sign or a digit. -/
def isNumeralStart (c : Char) : Bool := c = '-' || c.isDigit

/-- A name or a keyword begins with a letter or a low line. -/
def isWordStart (c : Char) : Bool := c.isAlpha || c = '_'

theorem isNumeralStart_eq_false_of_isWordStart
    {c : Char} (h : isWordStart c = true) : isNumeralStart c = false := by
  simp only [isWordStart, Bool.or_eq_true, decide_eq_true_eq] at h
  rcases h with h | rfl
  · have hminus : c ≠ '-' := by
      rintro rfl
      exact absurd h (by decide)
    simp [isNumeralStart, hminus, isDigit_eq_false_of_isAlpha h]
  · decide

theorem ne_of_isNumeralStart
    {c d : Char} (hc : isNumeralStart c = true)
    (hd : isNumeralStart d = false) : c ≠ d := by
  rintro rfl
  rw [hc] at hd
  cases hd

theorem ne_of_isWordStart
    {c d : Char} (hc : isWordStart c = true) (hd : isWordStart d = false) :
    c ≠ d := by
  rintro rfl
  rw [hc] at hd
  cases hd

theorem sticks_numeral
    {c : Char} (h : isNumeralStart c = true) (rest : List Char) (d : Char) :
    sticks (c :: rest) d = isNumeralChar d := by
  have hgreater := ne_of_isNumeralStart (d := '>') h rfl
  have hless := ne_of_isNumeralStart (d := '<') h rfl
  rw [sticks, if_neg (not_or.mpr ⟨hgreater, hless⟩)]
  exact if_pos h

theorem sticks_word
    {c : Char} (h : isWordStart c = true) (rest : List Char) (d : Char) :
    sticks (c :: rest) d = isWordChar d := by
  have hgreater := ne_of_isWordStart (d := '>') h rfl
  have hless := ne_of_isWordStart (d := '<') h rfl
  have hnumeral := isNumeralStart_eq_false_of_isWordStart h
  rw [sticks, if_neg (not_or.mpr ⟨hgreater, hless⟩)]
  refine (if_neg ?_).trans (if_pos h)
  exact (Bool.not_eq_true _).mpr hnumeral

theorem takeWhile_append_eq
    {p : Char → Bool} {s tail : List Char} (hs : ∀ c ∈ s, p c = true)
    (htail : ∀ d, tail.head? = some d → p d = false) :
    (s ++ tail).takeWhile p = s := by
  rw [List.takeWhile_append_of_pos hs]
  cases tail with
  | nil => simp
  | cons d rest => simp [htail d rfl]

theorem dropWhile_append_eq
    {p : Char → Bool} {s tail : List Char} (hs : ∀ c ∈ s, p c = true)
    (htail : ∀ d, tail.head? = some d → p d = false) :
    (s ++ tail).dropWhile p = tail := by
  rw [List.dropWhile_append_of_pos hs]
  cases tail with
  | nil => simp
  | cons d rest => simp [htail d rfl]

/-- Dropping stops in front of a character that is not dropped. -/
theorem eq_false_of_head?_dropWhile
    {p : Char → Bool} {s : List Char} {d : Char}
    (h : (s.dropWhile p).head? = some d) : p d = false := by
  have hstops := List.head?_dropWhile_not p s
  rw [h] at hstops
  exact hstops

theorem forall_of_takeWhile_eq
    {p : Char → Bool} {s : List Char} (h : s.takeWhile p = s) :
    ∀ c ∈ s, p c = true := by
  rw [← h]
  exact List.all_eq_true.mp List.all_takeWhile

end Text

namespace Token

/-- A lexeme of one character is the same in front of any text. -/
theorem munch_single_append
    {c : Char} {rest tail : List Char} {t u : Token}
    (h : (⟨.ok u, [c], rest⟩ : Munch) = ⟨.ok t, c :: rest, []⟩) :
    (⟨.ok u, [c], rest ++ tail⟩ : Munch) = ⟨.ok t, c :: rest, tail⟩ := by
  simp only [Munch.mk.injEq, Except.ok.injEq] at h
  obtain ⟨rfl, -, rfl⟩ := h
  rfl

/-- A comparison is the same in front of a text that does not begin with an
equals sign, or of any text if it has one itself. -/
theorem munchComparison_append
    {c : Char} {rest tail : List Char} {short : Except LexCause Token}
    {long : Operator} {t : Token}
    (h : munchComparison c rest short long = ⟨.ok t, c :: rest, []⟩)
    (htail : rest = [] → tail.head? ≠ some '=') :
    munchComparison c (rest ++ tail) short long =
      ⟨.ok t, c :: rest, tail⟩ := by
  unfold munchComparison at h
  split at h
  · next behind =>
    simp only [Munch.mk.injEq, Except.ok.injEq] at h
    obtain ⟨rfl, -, rfl⟩ := h
    rfl
  · simp only [Munch.mk.injEq] at h
    obtain ⟨rfl, -, rfl⟩ := h
    unfold munchComparison
    split
    · next behind heq =>
      rw [List.nil_append] at heq
      exact absurd (by rw [heq]; rfl) (htail rfl)
    · rfl

/-- A string is the same in front of any text. -/
theorem munchString_append
    {quote : Char} {rest tail : List Char} {t : Token}
    (h : munchString quote rest = ⟨.ok t, quote :: rest, []⟩) :
    munchString quote (rest ++ tail) = ⟨.ok t, quote :: rest, tail⟩ := by
  unfold munchString at h
  split at h
  · simp at h
  · next close behind hclose =>
    simp only [Munch.mk.injEq, Except.ok.injEq] at h
    obtain ⟨rfl, htaken, rfl⟩ := h
    have hbody := List.takeWhile_append_dropWhile (p := (· != quote)) (l := rest)
    rw [hclose] at hbody
    have hstops : (close != quote) = false := by
      refine @Text.eq_false_of_head?_dropWhile (· != quote) rest close ?_
      rw [hclose, List.head?_cons]
    have hinside : ∀ c ∈ rest.takeWhile (· != quote), (c != quote) = true :=
      List.all_eq_true.mp List.all_takeWhile
    have hboundary : ∀ d, (close :: tail).head? = some d →
        (d != quote) = false := by
      rintro d ⟨⟩
      exact hstops
    have hsplit : rest ++ tail =
        rest.takeWhile (· != quote) ++ close :: tail := by
      calc rest ++ tail
          = rest.takeWhile (· != quote) ++ [close] ++ tail := by rw [hbody]
        _ = rest.takeWhile (· != quote) ++ close :: tail := by simp
    unfold munchString
    rw [hsplit, Text.dropWhile_append_eq hinside hboundary,
      Text.takeWhile_append_eq hinside hboundary]
    simp [hbody]

/-- A run is the same in front of a text whose first character is not of its
kind. -/
theorem munch_run_append
    {p : Char → Bool} {c : Char} {rest tail : List Char} {t : Token}
    (read : List Char → Except LexCause Token)
    (h : (⟨read (c :: rest.takeWhile p), c :: rest.takeWhile p,
      rest.dropWhile p⟩ : Munch) = ⟨.ok t, c :: rest, []⟩)
    (htail : ∀ d, tail.head? = some d → p d = false) :
    (⟨read (c :: (rest ++ tail).takeWhile p), c :: (rest ++ tail).takeWhile p,
      (rest ++ tail).dropWhile p⟩ : Munch) = ⟨.ok t, c :: rest, tail⟩ := by
  simp only [Munch.mk.injEq, List.cons.injEq, true_and] at h
  obtain ⟨hread, htaken, -⟩ := h
  have hinside := Text.forall_of_takeWhile_eq htaken
  rw [Text.takeWhile_append_eq hinside htail,
    Text.dropWhile_append_eq hinside htail, ← hread, htaken]

/-- What is read at the start of a text, by the first character of it. -/
inductive Lead (c : Char) : (List Char → Munch) → Prop
  | single (t : Token)
      (ht : t = .opening ∨ t = .closing ∨ t = .operator .equal) :
      Lead c fun rest => ⟨.ok t, [c], rest⟩
  | ordering (hc : c = '>' ∨ c = '<') (short long : Operator) :
      Lead c fun rest =>
        munchComparison c rest (.ok (.operator short)) long
  | inequality :
      Lead c fun rest =>
        munchComparison c rest (.error (.unexpectedCharacter c)) .notEqual
  | quote (hc : c = '\x27') : Lead c fun rest => munchString c rest
  | numeral (hc : Text.isNumeralStart c = true) :
      Lead c fun rest =>
        ⟨ofNumeral (c :: rest.takeWhile Text.isNumeralChar),
          c :: rest.takeWhile Text.isNumeralChar,
          rest.dropWhile Text.isNumeralChar⟩
  | word (hc : Text.isWordStart c = true) :
      Lead c fun rest =>
        ⟨.ok (ofWord (String.ofList (c :: rest.takeWhile Text.isWordChar))),
          c :: rest.takeWhile Text.isWordChar,
          rest.dropWhile Text.isWordChar⟩
  | stray :
      Lead c fun rest => ⟨.error (.unexpectedCharacter c), [c], rest⟩

theorem lead_munch (c : Char) : Lead c (munch c) := by
  unfold munch
  split
  · exact .single .opening (by simp)
  split
  · exact .single .closing (by simp)
  split
  · exact .single (.operator .equal) (by simp)
  split
  · next hc => exact .ordering (.inl hc) .greater .greaterOrEqual
  split
  · next hc => exact .ordering (.inr hc) .less .lessOrEqual
  split
  · exact .inequality
  split
  · next hc => exact .quote hc
  split
  · next hc => exact .numeral hc
  split
  · next hc => exact .word hc
  · exact .stray

/-- A word is read in front of any text whose first character does not stick to
it. -/
theorem munch_append
    {c : Char} {rest tail : List Char} {t : Token}
    (h : munch c rest = ⟨.ok t, c :: rest, []⟩)
    (htail : ∀ d, tail.head? = some d →
      Text.sticks (c :: rest) d = false) :
    munch c (rest ++ tail) = ⟨.ok t, c :: rest, tail⟩ := by
  have hlead := lead_munch c
  generalize munch c = read at h hlead ⊢
  cases hlead with
  | single u hu => exact munch_single_append h
  | ordering hc short long =>
      refine munchComparison_append h fun hrest hhead => ?_
      have := htail '=' hhead
      simp [Text.sticks, hc, hrest] at this
  | inequality =>
      -- A lone exclamation mark is an error, so this one has its equals sign.
      refine munchComparison_append h fun hrest => ?_
      subst hrest
      simp [munchComparison] at h
  | quote hc => exact munchString_append h
  | numeral hc =>
      refine munch_run_append ofNumeral h fun d hd => ?_
      rw [← Text.sticks_numeral hc rest d]
      exact htail d hd
  | word hc =>
      refine munch_run_append (fun run => .ok (ofWord (String.ofList run))) h
        fun d hd => ?_
      rw [← Text.sticks_word hc rest d]
      exact htail d hd
  | stray => simp at h

/-- A text is a word if all of it is read as one token. -/
def Spells (word : List Char) (t : Token) : Prop :=
  ∃ c rest, word = c :: rest ∧ Text.isBlank c = false ∧
    munch c rest = ⟨.ok t, c :: rest, []⟩

end Token

/-! ## Words with blanks between them -/

namespace Scanner

theorem readings_eq_nil {s : Scanner} (h : s.next? = none) :
    s.readings = [] := by
  rw [readings]
  split
  · rfl
  · next outcome next heq =>
    rw [h] at heq
    cases heq

theorem readings_eq_cons
    {s next : Scanner} {outcome : Except LexError Lexeme}
    (h : s.next? = some (outcome, next)) :
    s.readings = outcome :: next.readings := by
  rw [readings]
  split
  · next heq =>
    rw [h] at heq
    cases heq
  · next other behind heq =>
    rw [h] at heq
    cases heq
    rfl

theorem next?_eq_none_of_blanks
    {blanks : List Char} (h : ∀ c ∈ blanks, Text.isBlank c = true)
    (offset : Nat) : (⟨blanks, offset⟩ : Scanner).next? = none := by
  have hdrop : Text.dropBlanks blanks = [] := by
    have : (blanks ++ []).dropWhile Text.isBlank = [] :=
      Text.dropWhile_append_eq h (by simp)
    rwa [List.append_nil] at this
  simp only [next?, hdrop]

/-- What is told of an outcome between two places in a text. -/
def readingAt (start stop : Nat) :
    Except LexCause Token → Except LexError Lexeme
  | .ok t => .ok ⟨t, start, stop⟩
  | .error cause => .error ⟨start, cause⟩

/-- Behind blanks, what is taken there is read. -/
theorem next?_of_munch
    {gap w behind : List Char} {c : Char} {outcome : Except LexCause Token}
    (hgap : ∀ d ∈ gap, Text.isBlank d = true) (hblank : Text.isBlank c = false)
    (hmunch : Token.munch c (w ++ behind) = ⟨outcome, c :: w, behind⟩)
    (offset : Nat) :
    (⟨gap ++ (c :: w ++ behind), offset⟩ : Scanner).next? =
      some (readingAt (offset + Text.byteLength gap)
          (offset + Text.byteLength gap + Text.byteLength (c :: w)) outcome,
        ⟨behind, offset + Text.byteLength gap + Text.byteLength (c :: w)⟩) := by
  have hboundary : ∀ d, (c :: w ++ behind).head? = some d →
      Text.isBlank d = false := by
    rintro d ⟨⟩
    exact hblank
  have hdrop :
      Text.dropBlanks (gap ++ (c :: w ++ behind)) = c :: (w ++ behind) :=
    Text.dropWhile_append_eq hgap hboundary
  have htake := Text.takeWhile_append_eq hgap hboundary
  simp only [next?, hdrop, htake, hmunch]
  cases outcome <;> rfl

/-- The first word of a text is read, and what is behind it is left. -/
theorem next?_word
    {gap word tail : List Char} {t : Token}
    (hgap : ∀ c ∈ gap, Text.isBlank c = true) (hword : Token.Spells word t)
    (htail : ∀ d, tail.head? = some d → Text.sticks word d = false)
    (offset : Nat) :
    (⟨gap ++ (word ++ tail), offset⟩ : Scanner).next? =
      some (.ok ⟨t, offset + Text.byteLength gap,
          offset + Text.byteLength gap + Text.byteLength word⟩,
        ⟨tail, offset + Text.byteLength gap + Text.byteLength word⟩) := by
  obtain ⟨c, rest, rfl, hblank, hmunch⟩ := hword
  exact next?_of_munch hgap hblank (Token.munch_append hmunch htail) offset

end Scanner

/-- A word in a text: the blanks in front of it, the word, and the token that it
spells. -/
structure SpacedWord where
  gap : List Char
  word : List Char
  token : Token

namespace SpacedWord

/-- The text in which words stand one after another. -/
def text : List SpacedWord → List Char
  | [] => []
  | w :: rest => w.gap ++ (w.word ++ text rest)

/-- The tokens of words where they stand in a text. -/
def lexemes (offset : Nat) : List SpacedWord → List Lexeme
  | [] => []
  | w :: rest =>
    let start := offset + Text.byteLength w.gap
    let stop := start + Text.byteLength w.word
    ⟨w.token, start, stop⟩ :: lexemes stop rest

/-- Whether each word spells its token, only blanks are between the words, and
nothing sticks to a word. -/
def Separated : List SpacedWord → Prop
  | [] => True
  | w :: rest =>
    (∀ c ∈ w.gap, Text.isBlank c = true) ∧ Token.Spells w.word w.token ∧
      (∀ d, (text rest).head? = some d → Text.sticks w.word d = false) ∧
      Separated rest

theorem map_token_lexemes (offset : Nat) (ws : List SpacedWord) :
    (lexemes offset ws).map Lexeme.token = ws.map SpacedWord.token := by
  induction ws generalizing offset with
  | nil => rfl
  | cons w rest ih => simp [lexemes, ih]

/-- Reading a text of separated words, with any blanks behind them, gives the
tokens of the words where they stand. -/
theorem readings_text
    {ws : List SpacedWord} (h : Separated ws) {blanks : List Char}
    (hblanks : ∀ c ∈ blanks, Text.isBlank c = true) (offset : Nat) :
    (⟨text ws ++ blanks, offset⟩ : Scanner).readings =
      (lexemes offset ws).map .ok := by
  induction ws generalizing offset with
  | nil =>
      exact Scanner.readings_eq_nil
        (Scanner.next?_eq_none_of_blanks hblanks offset)
  | cons w rest ih =>
      obtain ⟨hgap, hword, hsticks, hrest⟩ := h
      have hbehind : ∀ d, (text rest ++ blanks).head? = some d →
          Text.sticks w.word d = false := by
        intro d hd
        cases htext : text rest with
        | nil =>
            rw [htext, List.nil_append] at hd
            exact Text.sticks_eq_false_of_isBlank
              (hblanks d (List.mem_of_mem_head? hd)) w.word
        | cons c others =>
            rw [htext] at hd hsticks
            exact hsticks d hd
      have hnext := Scanner.next?_word hgap hword hbehind offset
      have hassoc : text (w :: rest) ++ blanks =
          w.gap ++ (w.word ++ (text rest ++ blanks)) := by
        simp [text]
      rw [hassoc, Scanner.readings_eq_cons hnext, ih hrest]
      rfl

end SpacedWord

theorem mapM_id_map_ok
    {ε α : Type} (xs : List α) :
    (xs.map (Except.ok (ε := ε))).mapM id = .ok xs := by
  induction xs with
  | nil => rfl
  | cons x xs ih =>
      rw [List.map_cons, List.mapM_cons, ih]
      rfl

/-- A text of separated words has exactly the tokens of the words. -/
theorem lexemes_text
    {ws : List SpacedWord} (h : SpacedWord.Separated ws) {s : String}
    (hs : s.toList = SpacedWord.text ws) :
    lexemes s = .ok (SpacedWord.lexemes 0 ws) := by
  have hblanks : ∀ c ∈ ([] : List Char), Text.isBlank c = true := by simp
  have hreadings := SpacedWord.readings_text h hblanks 0
  rw [List.append_nil, ← hs] at hreadings
  rw [lexemes, Scanner.ofText, hreadings, mapM_id_map_ok]

end Rulebook
