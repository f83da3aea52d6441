import Mathlib
import Rulebook.Proofs.Partition
import Rulebook.Proofs.RoundTrip
import Rulebook.Proofs.Viability

/-!
# Layouts

Words are laid out in a text by choosing the blanks in front of them, between
them and behind them. Some words would be read as one if they stood directly
behind each other: a number or a name takes in the letters and digits behind it,
and a lone comparison an equals sign. A layout that keeps these apart is read as
the tokens of its words, and no other layout is.

So the parser is given the same tokens by all such layouts, at different places.
It looks at the places only to say where an error is.
-/

namespace Rulebook

/-! ## Words on their own -/

theorem Text.eq_nil_of_byteLength_eq_zero
    {s : List Char} (h : byteLength s = 0) : s = [] := by
  by_contra hne
  have hpos := byteLength_pos_of_ne_nil hne
  omega

/-- A text is a word for a token if, on its own, it is read as this token from
its first character to its last. -/
def IsWord (word : List Char) (t : Token) : Prop :=
  lexemes (String.ofList word) = .ok [⟨t, 0, Text.byteLength word⟩]

theorem Piece.eq_singleton_of_readings_eq
    {pieces : List Piece} {x : Except LexError Lexeme}
    (h : readings 0 pieces = [x]) : ∃ p, pieces = [p] ∧ p.reading 0 = x := by
  have hlength := congrArg List.length h
  rw [length_readings] at hlength
  obtain ⟨p, rfl⟩ := List.length_eq_one_iff.mp hlength
  exact ⟨p, rfl, (List.cons.inj h).1⟩

theorem isWord_iff_spells {word : List Char} {t : Token} :
    IsWord word t ↔ Token.Spells word t := by
  constructor
  · intro h
    have hone := lexemes_eq_ok_iff.mp h
    obtain ⟨pieces, blanks, htext, -, hread, hreadings⟩ :=
      Scanner.exists_pieces (Scanner.ofText (String.ofList word))
    rw [hone] at hreadings
    obtain ⟨p, rfl, hp⟩ := Piece.eq_singleton_of_readings_eq hreadings.symm
    have hword : word = p.gap ++ (p.taken ++ blanks) := by
      simpa [Scanner.ofText, Piece.text] using htext
    cases houtcome : p.outcome with
    | error cause => simp [Piece.reading, Scanner.readingAt, houtcome] at hp
    | ok u =>
        simp only [Piece.reading, Scanner.readingAt, houtcome, hword,
          Except.ok.injEq, Lexeme.mk.injEq, Text.byteLength_append] at hp
        obtain ⟨rfl, hstart, hstop⟩ := hp
        have hgap := Text.eq_nil_of_byteLength_eq_zero (s := p.gap) (by omega)
        have hblanks := Text.eq_nil_of_byteLength_eq_zero (s := blanks) (by omega)
        obtain ⟨c, w, htaken, hblank, hmunch⟩ := hread.1.exists_munch
        rw [hgap, hblanks, List.nil_append, List.append_nil] at hword
        rw [hblanks, houtcome, Piece.text, List.append_nil, List.append_nil]
          at hmunch
        exact ⟨c, w, hword.trans htaken, hblank, hmunch⟩
  · intro h
    have hseparated : SpacedWord.Separated [⟨[], word, t⟩] :=
      ⟨by simp, h, by simp [SpacedWord.text], trivial⟩
    have hlexemes := lexemes_text hseparated (s := String.ofList word)
      (by simp [SpacedWord.text])
    simpa [IsWord, SpacedWord.lexemes, Text.byteLength] using hlexemes

/-! ## Words that merge -/

namespace Token

/-- Numbers, names and keywords end only where a run of characters ends. -/
def IsRun : Token → Prop
  | .field _ | .connector _ | .literal (.number _) | .literal (.boolean _) =>
    True
  | _ => False

theorem isRun_ofWord (word : String) : (ofWord word).IsRun := by
  unfold ofWord
  split
  · trivial
  · split
    · trivial
    · split <;> trivial

theorem isRun_of_ofNumeral
    {run : List Char} {t : Token} (h : ofNumeral run = .ok t) : t.IsRun := by
  unfold ofNumeral at h
  split at h
  · split at h
    · cases h
      trivial
    · cases h
  · cases h

end Token

/-- Two words merge if they are read as one where nothing is between them: a
letter, a digit or a low line behind a number, a name or a keyword, and an
equals sign behind a lone comparison. -/
def SpacedWord.Merges (left right : SpacedWord) : Prop :=
  (left.token.IsRun ∧
    ∃ d, right.word.head? = some d ∧ Text.isWordChar d = true) ∨
  (left.word = ['>'] ∨ left.word = ['<']) ∧ right.word = ['=']

theorem Text.sticks_cons_iff {c d : Char} {rest : List Char} :
    sticks (c :: rest) d = true ↔
      (c = '>' ∨ c = '<') ∧ rest = [] ∧ d = '=' ∨
      isNumeralStart c = true ∧ isNumeralChar d = true ∨
      isWordStart c = true ∧ isWordChar d = true := by
  constructor
  · intro h
    by_cases hordering : c = '>' ∨ c = '<'
    · rw [sticks, if_pos hordering, Bool.and_eq_true, List.isEmpty_iff,
        beq_iff_eq] at h
      exact .inl ⟨hordering, h⟩
    · by_cases hnumeral : isNumeralStart c = true
      · rw [sticks_numeral hnumeral] at h
        exact .inr (.inl ⟨hnumeral, h⟩)
      · by_cases hword : isWordStart c = true
        · rw [sticks_word hword] at h
          exact .inr (.inr ⟨hword, h⟩)
        · rw [sticks, if_neg hordering] at h
          cases h.symm.trans ((if_neg hnumeral).trans (if_neg hword))
  · rintro (⟨hc, rfl, rfl⟩ | ⟨hc, hd⟩ | ⟨hc, hd⟩)
    · simp [sticks, hc]
    · rw [sticks_numeral hc, hd]
    · rw [sticks_word hc, hd]

namespace Token

variable {c d : Char} {rest tail : List Char} {t : Token}

theorem isRun_of_isNumeralStart
    (hc : Text.isNumeralStart c = true) (h : (munch c rest).outcome = .ok t) :
    t.IsRun := by
  rw [munch_of_isNumeralStart hc] at h
  exact isRun_of_ofNumeral h

theorem isRun_of_isWordStart
    (hc : Text.isWordStart c = true) (h : (munch c rest).outcome = .ok t) :
    t.IsRun := by
  rw [munch_of_isWordStart hc] at h
  cases h
  exact isRun_ofWord _

theorem not_isRun_of_munchComparison
    {short : Except LexCause Token} {long : Operator}
    (hshort : ∀ u, short = .ok u → ¬u.IsRun)
    (h : (munchComparison c rest short long).outcome = .ok t) : ¬t.IsRun := by
  unfold munchComparison at h
  split at h
  · cases h
    exact not_false
  · exact hshort t h

theorem not_isRun_of_munchString
    (h : (munchString c rest).outcome = .ok t) : ¬t.IsRun := by
  unfold munchString at h
  split at h
  · cases h
  · cases h
    exact not_false

/-- What is read as a run begins like a number or like a name. -/
theorem start_of_isRun
    (h : (munch c rest).outcome = .ok t) (ht : t.IsRun) :
    Text.isNumeralStart c = true ∨ Text.isWordStart c = true := by
  have hlead := lead_munch c
  generalize munch c = read at h hlead
  cases hlead with
  | single u hu =>
      cases h
      rcases hu with rfl | rfl | rfl <;> cases ht
  | ordering hc short long =>
      refine absurd ht (not_isRun_of_munchComparison ?_ h)
      rintro u ⟨⟩
      exact not_false
  | inequality =>
      refine absurd ht (not_isRun_of_munchComparison ?_ h)
      rintro u ⟨⟩
  | quote hc => exact absurd ht (not_isRun_of_munchString h)
  | numeral hc => exact .inl hc
  | word hc => exact .inr hc
  | stray => cases h

end Token

namespace SpacedWord

variable {v w : SpacedWord}

/-- Two words merge exactly if the first character of one sticks to the
other. -/
theorem merges_iff
    (hv : Token.Spells v.word v.token) (hw : Token.Spells w.word w.token) :
    v.Merges w ↔
      ∃ d, w.word.head? = some d ∧ Text.sticks v.word d = true := by
  obtain ⟨c, rest, hword, -, hmunch⟩ := hv
  obtain ⟨d, others, hother, -, hbehind⟩ := hw
  have houtcome : (Token.munch c rest).outcome = .ok v.token := by rw [hmunch]
  rw [Merges, hword, hother]
  simp only [List.head?_cons, Option.some.injEq, exists_eq_left',
    Text.sticks_cons_iff]
  constructor
  · rintro (⟨hrun, hd⟩ | ⟨hc, hd⟩)
    · rcases Token.start_of_isRun houtcome hrun with hc | hc
      · refine .inr (.inl ⟨hc, ?_⟩)
        rw [Text.isNumeralChar, hd, Bool.true_or]
      · exact .inr (.inr ⟨hc, hd⟩)
    · simp only [List.cons.injEq] at hc hd
      exact .inl ⟨hc.imp And.left And.left, hc.elim And.right And.right, hd.1⟩
  · rintro (⟨hc, rfl, rfl⟩ | ⟨hc, hd⟩ | ⟨hc, hd⟩)
    · -- Nothing but the equals sign itself begins with an equals sign.
      have hequal : others = [] := by
        have := congrArg Token.Munch.taken hbehind
        simpa [Token.munch] using this.symm
      rw [hequal]
      exact .inr ⟨by simpa using hc, rfl⟩
    · refine .inl ⟨Token.isRun_of_isNumeralStart hc houtcome, ?_⟩
      simp only [Text.isNumeralChar, Bool.or_eq_true, beq_iff_eq] at hd
      refine hd.resolve_right ?_
      rintro rfl
      have := congrArg Token.Munch.outcome hbehind
      simp [Token.munch] at this
    · exact .inl ⟨Token.isRun_of_isWordStart hc houtcome, hd⟩

/-- Nothing sticks to a word in front of a word with a gap, and in front of one
without a gap if the two do not merge. -/
theorem not_sticks_text_iff
    (hv : Token.Spells v.word v.token) (hw : Token.Spells w.word w.token)
    (hgap : ∀ c ∈ w.gap, Text.isBlank c = true) (rest : List SpacedWord) :
    (∀ d, (text (w :: rest)).head? = some d → Text.sticks v.word d = false) ↔
      (v.Merges w → w.gap ≠ []) := by
  rw [merges_iff hv hw]
  obtain ⟨e, others, hword, -, -⟩ := hw
  cases hblanks : w.gap with
  | nil => simp [text, hblanks, hword]
  | cons c blanks =>
      have hblank : Text.isBlank c = true := by
        apply hgap
        rw [hblanks]
        exact List.mem_cons_self
      simp [text, hblanks, Text.sticks_eq_false_of_isBlank hblank]

end SpacedWord

/-! ## Layouts -/

/-- Words are laid out with blanks in front of each of them, and with blanks
behind all of them. -/
structure IsLayout (ws : List SpacedWord) (blanks : List Char) : Prop where
  isWord_of_mem : ∀ w ∈ ws, IsWord w.word w.token
  isBlank_of_mem_gap : ∀ w ∈ ws, ∀ c ∈ w.gap, Text.isBlank c = true
  isBlank_of_mem : ∀ c ∈ blanks, Text.isBlank c = true

/-- Words are kept apart if there is a gap between any two neighbours that
merge. -/
def KeptApart (ws : List SpacedWord) : Prop :=
  ws.IsChain fun v w => v.Merges w → w.gap ≠ []

/-- The text of a layout. -/
def layoutText (ws : List SpacedWord) (blanks : List Char) : String :=
  String.ofList (SpacedWord.text ws ++ blanks)

namespace IsLayout

variable {w : SpacedWord} {ws : List SpacedWord} {blanks : List Char}

theorem tail (h : IsLayout (w :: ws) blanks) : IsLayout ws blanks where
  isWord_of_mem := fun v hv => h.isWord_of_mem v (List.mem_cons_of_mem w hv)
  isBlank_of_mem_gap := fun v hv =>
    h.isBlank_of_mem_gap v (List.mem_cons_of_mem w hv)
  isBlank_of_mem := h.isBlank_of_mem

theorem spells_head (h : IsLayout (w :: ws) blanks) :
    Token.Spells w.word w.token :=
  isWord_iff_spells.mp (h.isWord_of_mem w List.mem_cons_self)

theorem separated_iff_keptApart (h : IsLayout ws blanks) :
    SpacedWord.Separated ws ↔ KeptApart ws := by
  unfold KeptApart
  induction ws with
  | nil => simp [SpacedWord.Separated]
  | cons v rest ih =>
      have hgap := h.isBlank_of_mem_gap v List.mem_cons_self
      have hspells := h.spells_head
      cases rest with
      | nil =>
          have hfree : ∀ d, (SpacedWord.text []).head? = some d →
              Text.sticks v.word d = false := by
            rintro d ⟨⟩
          simp only [List.IsChain.singleton, iff_true]
          exact ⟨hgap, hspells, hfree, trivial⟩
      | cons w rest =>
          have hneighbour := SpacedWord.not_sticks_text_iff hspells
            h.tail.spells_head
            (h.tail.isBlank_of_mem_gap w List.mem_cons_self) rest
          rw [List.isChain_cons_cons, ← ih h.tail, SpacedWord.Separated,
            hneighbour]
          exact ⟨fun hall => hall.2.2, fun hboth => ⟨hgap, hspells, hboth⟩⟩

end IsLayout

namespace Token

variable {c d : Char} {rest tail : List Char} {t : Token}

theorem takeWhile_append_of_isRun
    {p : Char → Bool} (hrest : rest.takeWhile p = rest)
    (hhead : tail.head? = some d) (hd : p d = true) :
    ∃ extra, extra ≠ [] ∧ (rest ++ tail).takeWhile p = rest ++ extra := by
  have hinside := Text.forall_of_takeWhile_eq hrest
  obtain ⟨others, rfl⟩ : ∃ others, tail = d :: others :=
    ⟨tail.tail, (List.cons_head?_tail hhead).symm⟩
  refine ⟨d :: others.takeWhile p, List.cons_ne_nil _ _, ?_⟩
  rw [List.takeWhile_append_of_pos hinside, List.takeWhile_cons_of_pos hd]

/-- Where something sticks to a word, more than the word is taken. -/
theorem exists_taken_of_sticks
    (h : munch c rest = ⟨.ok t, c :: rest, []⟩) (hhead : tail.head? = some d)
    (hsticks : Text.sticks (c :: rest) d = true) :
    ∃ extra, extra ≠ [] ∧
      (munch c (rest ++ tail)).taken = c :: (rest ++ extra) := by
  rcases Text.sticks_cons_iff.mp hsticks with
    ⟨hc, rfl, rfl⟩ | ⟨hc, hd⟩ | ⟨hc, hd⟩
  · obtain ⟨others, rfl⟩ : ∃ others, tail = '=' :: others :=
      ⟨tail.tail, (List.cons_head?_tail hhead).symm⟩
    refine ⟨['='], List.cons_ne_nil _ _, ?_⟩
    rcases hc with rfl | rfl <;> rfl
  · rw [munch_of_isNumeralStart hc, Munch.mk.injEq, List.cons.injEq] at h
    obtain ⟨extra, hextra, htake⟩ :=
      takeWhile_append_of_isRun h.2.1.2 hhead hd
    exact ⟨extra, hextra, by rw [munch_of_isNumeralStart hc, htake]⟩
  · rw [munch_of_isWordStart hc, Munch.mk.injEq, List.cons.injEq] at h
    obtain ⟨extra, hextra, htake⟩ :=
      takeWhile_append_of_isRun h.2.1.2 hhead hd
    exact ⟨extra, hextra, by rw [munch_of_isWordStart hc, htake]⟩

end Token

namespace Scanner

/-- If a word is read behind a gap where it stands in a text, nothing sticks to
it there. -/
theorem not_sticks_of_readings_eq_cons
    {gap word tail : List Char} {t : Token} {offset : Nat}
    {more : List (Except LexError Lexeme)}
    (hgap : ∀ c ∈ gap, Text.isBlank c = true) (hword : Token.Spells word t)
    (h : (⟨gap ++ (word ++ tail), offset⟩ : Scanner).readings =
      .ok ⟨t, offset + Text.byteLength gap,
        offset + Text.byteLength gap + Text.byteLength word⟩ :: more) :
    ∀ d, tail.head? = some d → Text.sticks word d = false := by
  intro d hd
  by_contra hsticks
  rw [Bool.not_eq_false] at hsticks
  obtain ⟨c, rest, rfl, hblank, hmunch⟩ := hword
  obtain ⟨extra, hextra, htaken⟩ :=
    Token.exists_taken_of_sticks hmunch hd hsticks
  have hall := Token.munch_taken_append_rest c (rest ++ tail)
  rw [htaken, List.cons_append, List.cons.injEq] at hall
  have hlonger : Token.munch c
      (rest ++ extra ++ (Token.munch c (rest ++ tail)).rest) =
      ⟨(Token.munch c (rest ++ tail)).outcome, c :: (rest ++ extra),
        (Token.munch c (rest ++ tail)).rest⟩ := by
    rw [hall.2, ← htaken]
  have hnext := next?_of_munch hgap hblank hlonger offset
  rw [List.cons_append, hall.2] at hnext
  rw [List.cons_append, readings_eq_cons hnext, List.cons.injEq] at h
  have hpos := Text.byteLength_pos_of_ne_nil hextra
  cases houtcome : (Token.munch c (rest ++ tail)).outcome with
  | error cause => simp [readingAt, houtcome] at h
  | ok u =>
      simp only [readingAt, houtcome, Except.ok.injEq, Lexeme.mk.injEq,
        Text.byteLength, Text.byteLength_append] at h
      omega

end Scanner

namespace IsLayout

variable {ws : List SpacedWord} {blanks : List Char}

theorem separated_of_readings_eq
    (h : IsLayout ws blanks) {offset : Nat}
    (hreadings : (⟨SpacedWord.text ws ++ blanks, offset⟩ : Scanner).readings =
      (SpacedWord.lexemes offset ws).map .ok) : SpacedWord.Separated ws := by
  induction ws generalizing offset with
  | nil => trivial
  | cons w rest ih =>
      have hgap := h.isBlank_of_mem_gap w List.mem_cons_self
      have hassoc : SpacedWord.text (w :: rest) ++ blanks =
          w.gap ++ (w.word ++ (SpacedWord.text rest ++ blanks)) := by
        simp [SpacedWord.text]
      rw [hassoc, SpacedWord.lexemes, List.map_cons] at hreadings
      have hsticks :=
        Scanner.not_sticks_of_readings_eq_cons hgap h.spells_head hreadings
      rw [Scanner.readings_eq_cons
        (Scanner.next?_word hgap h.spells_head hsticks offset),
        List.cons.injEq] at hreadings
      refine ⟨hgap, h.spells_head, fun d hd => hsticks d ?_,
        ih h.tail hreadings.2⟩
      rw [List.head?_append, hd, Option.some_or]

/-- A layout has the tokens of its words, each where its word stands, exactly if
it keeps apart what would merge. -/
theorem lexemes_eq_iff (h : IsLayout ws blanks) :
    lexemes (layoutText ws blanks) = .ok (SpacedWord.lexemes 0 ws) ↔
      KeptApart ws := by
  have htext : Scanner.ofText (layoutText ws blanks) =
      ⟨SpacedWord.text ws ++ blanks, 0⟩ := by
    rw [Scanner.ofText, layoutText, String.toList_ofList]
  rw [lexemes_eq_ok_iff, htext, ← h.separated_iff_keptApart]
  exact ⟨h.separated_of_readings_eq, fun hseparated =>
    SpacedWord.readings_text hseparated h.isBlank_of_mem 0⟩

end IsLayout

/-! ## Places do not matter to the parser -/

/-- The parser finds the same fault in two lists of tokens: it has no tokens, or
it has the same reason to stop at the same token, or at the end of both. -/
inductive SameFault (ls ls' : List Lexeme) : ParseError → ParseError → Prop where
  | empty (h : ls = []) : SameFault ls ls' .empty .empty
  | misplaced (k : Nat) (cause : ParseCause) (h : k ≤ ls.length) :
      SameFault ls ls' (.misplaced (placeAt ls k) cause)
        (.misplaced (placeAt ls' k) cause)

theorem Progress.answer_read_congr
    {depth stop stop' : Nat} {p : Progress} {ls ls' : List Lexeme}
    (h : ls.map Lexeme.token = ls'.map Lexeme.token) :
    (∃ e, (p.read depth stop ls).answer = .ok e ∧
      (p.read depth stop' ls').answer = .ok e) ∨
    ∃ k cause, k ≤ ls.length ∧
      (p.read depth stop ls).answer =
        .error (.misplaced ((ls[k]?.map Lexeme.start).getD stop) cause) ∧
      (p.read depth stop' ls').answer =
        .error (.misplaced ((ls'[k]?.map Lexeme.start).getD stop') cause) := by
  induction ls generalizing p ls' with
  | nil =>
      obtain rfl : ls' = [] := by simpa using h.symm
      simp only [read]
      cases p.finish with
      | ok e => exact .inl ⟨e, rfl, rfl⟩
      | error cause => exact .inr ⟨0, cause, le_rfl, rfl, rfl⟩
  | cons l rest ih =>
      cases ls' with
      | nil => cases h
      | cons l' rest' =>
          rw [List.map_cons, List.map_cons, List.cons.injEq] at h
          obtain ⟨htoken, hrest⟩ := h
          simp only [read, htoken]
          cases p.step depth l'.token with
          | error cause =>
              exact .inr ⟨0, cause, Nat.zero_le _, rfl, rfl⟩
          | ok next =>
              rcases ih (p := next) hrest with
                hboth | ⟨k, cause, hk, hleft, hright⟩
              · exact .inl hboth
              · exact .inr ⟨k + 1, cause, Nat.succ_le_succ hk, hleft, hright⟩

/-- The same tokens spell the same expression wherever they stand, or have the
same fault. -/
theorem Expression.ofTokens_congr
    {ls ls' : List Lexeme} (h : ls.map Lexeme.token = ls'.map Lexeme.token) :
    (∃ e, ofTokens ls = .ok e ∧ ofTokens ls' = .ok e) ∨
    ∃ fault fault', ofTokens ls = .error fault ∧
      ofTokens ls' = .error fault' ∧ SameFault ls ls' fault fault' := by
  by_cases hnil : ls = []
  · subst hnil
    obtain rfl : ls' = [] := by simpa using h.symm
    exact .inr ⟨.empty, .empty, rfl, rfl, .empty rfl⟩
  · have hnil' : ls' ≠ [] := by
      rintro rfl
      exact hnil (by simpa using h)
    rw [ofTokens_eq_answer hnil, ofTokens_eq_answer hnil']
    rcases @Progress.answer_read_congr 0
        ((ls.getLast?.map Lexeme.stop).getD 0)
        ((ls'.getLast?.map Lexeme.stop).getD 0) .start ls ls' h with
      hboth | ⟨k, cause, hk, hleft, hright⟩
    · exact .inl hboth
    · exact .inr ⟨_, _, hleft, hright, .misplaced k cause hk⟩

/-! ## Blanks only separate -/

namespace IsLayout

variable {ws vs : List SpacedWord} {blanks blanks' : List Char}

theorem map_token_eq_of_map_word_eq
    (h : IsLayout ws blanks) (h' : IsLayout vs blanks')
    (hwords : ws.map SpacedWord.word = vs.map SpacedWord.word) :
    ws.map SpacedWord.token = vs.map SpacedWord.token := by
  induction ws generalizing vs with
  | nil =>
      obtain rfl : vs = [] := by simpa using hwords.symm
      rfl
  | cons w ws ih =>
      cases vs with
      | nil => cases hwords
      | cons v vs =>
          rw [List.map_cons, List.map_cons, List.cons.injEq] at hwords
          have hw := h.isWord_of_mem w List.mem_cons_self
          have hv := h'.isWord_of_mem v List.mem_cons_self
          rw [IsWord, hwords.1, hv, Except.ok.injEq] at hw
          rw [List.map_cons, List.map_cons, ih h.tail h'.tail hwords.2]
          rw [(Lexeme.mk.inj (List.cons.inj hw).1).1]

/-- Blanks only separate words. A layout is read as the tokens of its words, each
where its word stands, exactly if there is a gap between any two neighbours that
merge. Two such layouts of the same words are read as the same expression, or
the same fault is found in both. -/
theorem blanks_only_separate (h : IsLayout ws blanks) :
    (lexemes (layoutText ws blanks) = .ok (SpacedWord.lexemes 0 ws) ↔
      KeptApart ws) ∧
    ∀ vs blanks', IsLayout vs blanks' →
      ws.map SpacedWord.word = vs.map SpacedWord.word →
      KeptApart ws → KeptApart vs →
        (∃ e, Expression.ofText (layoutText ws blanks) = .ok e ∧
          Expression.ofText (layoutText vs blanks') = .ok e) ∨
        ∃ fault fault',
          Expression.ofText (layoutText ws blanks) =
            .error (.grammatical fault) ∧
          Expression.ofText (layoutText vs blanks') =
            .error (.grammatical fault') ∧
          SameFault (SpacedWord.lexemes 0 ws) (SpacedWord.lexemes 0 vs) fault
            fault' := by
  refine ⟨h.lexemes_eq_iff, fun vs blanks' h' hwords hapart hapart' => ?_⟩
  have htokens : (SpacedWord.lexemes 0 ws).map Lexeme.token =
      (SpacedWord.lexemes 0 vs).map Lexeme.token := by
    rw [SpacedWord.map_token_lexemes, SpacedWord.map_token_lexemes,
      h.map_token_eq_of_map_word_eq h' hwords]
  unfold Expression.ofText
  rw [h.lexemes_eq_iff.mpr hapart, h'.lexemes_eq_iff.mpr hapart']
  rcases Expression.ofTokens_congr htokens with
    ⟨e, hleft, hright⟩ | ⟨fault, fault', hleft, hright, hsame⟩
  · exact .inl ⟨e, by simp only [hleft]; rfl, by simp only [hright]; rfl⟩
  · exact .inr ⟨fault, fault', by simp only [hleft]; rfl,
      by simp only [hright]; rfl, hsame⟩

theorem blanks_only_separate_of_incomplete_text :
    ∃ x : Binary64,
      let tight : List SpacedWord :=
        [⟨[], ['a'], .field "a"⟩, ⟨[], ['>'], .operator .greater⟩,
          ⟨[], ['-', '0'], .literal (.number x)⟩,
          ⟨[' '], ['O', 'R'], .connector .or⟩]
      let loose : List SpacedWord :=
        [⟨['\n'], ['a'], .field "a"⟩, ⟨[' '], ['>'], .operator .greater⟩,
          ⟨['\x85'], ['-', '0'], .literal (.number x)⟩,
          ⟨['\t'], ['O', 'R'], .connector .or⟩]
      IsLayout tight [] ∧ IsLayout loose [' '] ∧
        KeptApart tight ∧ KeptApart loose ∧
        lexemes "a>-0 OR" = .ok (SpacedWord.lexemes 0 tight) ∧
        ∃ fault fault',
          Expression.ofText "a>-0 OR" = .error (.grammatical fault) ∧
          Expression.ofText "\na >\x85-0\tOR " =
            .error (.grammatical fault') ∧
          SameFault (SpacedWord.lexemes 0 tight) (SpacedWord.lexemes 0 loose)
            fault fault' := by
  have hname : IsWord ['a'] (.field "a") :=
    isWord_iff_spells.mpr ⟨_, _, rfl, by decide, rfl⟩
  have hgreater : IsWord ['>'] (.operator .greater) :=
    isWord_iff_spells.mpr (Token.spells_operator .greater)
  obtain ⟨x, hnumber⟩ : ∃ x, IsWord ['-', '0'] (.literal (.number x)) := by
    refine ⟨(Decimal.mk true 0 0).toBinary64, ?_⟩
    rw [isWord_iff_spells]
    exact ⟨'-', ['0'], rfl, by decide, by cbv⟩
  have hor : IsWord ['O', 'R'] (.connector .or) :=
    isWord_iff_spells.mpr (Token.spells_connector .or)
  refine ⟨x, ?_⟩
  intro tight loose
  have htight : IsLayout tight [] := by
    constructor
    · simp [tight, hname, hgreater, hnumber, hor]
    · simp [tight, Text.isBlank, Text.blankIntervals]
    · simp
  have hloose : IsLayout loose [' '] := by
    constructor
    · simp [loose, hname, hgreater, hnumber, hor]
    · simp [loose, Text.isBlank, Text.blankIntervals]
    · simp [Text.isBlank, Text.blankIntervals]
  have hapart : KeptApart tight := by
    simp [KeptApart, tight, SpacedWord.Merges, Token.IsRun, Text.isWordChar]
  have hapart' : KeptApart loose := by
    simp [KeptApart, loose]
  obtain ⟨hlexemes, hanswers⟩ := blanks_only_separate htight
  refine ⟨htight, hloose, hapart, hapart', hlexemes.mpr hapart, ?_⟩
  refine (hanswers loose [' '] hloose rfl hapart hapart').resolve_left ?_
  rintro ⟨e, he, -⟩
  have hread : Expression.ofText "a>-0 OR" =
      .error (.grammatical (.misplaced 7 (.unexpected .term none))) := by
    cbv
  cases hread.symm.trans he

end IsLayout

end Rulebook
