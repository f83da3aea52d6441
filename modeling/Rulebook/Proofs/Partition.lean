import Mathlib
import Rulebook.Proofs.Legible

/-!
# Texts cut into lexemes

Scanning cuts a text into pieces: blanks, and behind them the characters that
are read at once, as a token or as an error. Nothing is lost and nothing is read
twice, also behind errors, since every piece begins where the one in front of it
ends.

What is read does not depend on how far the text goes on behind it. So each
piece is read in the same way on its own, and no longer piece could have been
read in its place.
-/

namespace Rulebook

/-! ## Reading does not look far ahead -/

namespace Token

variable {c : Char} {w tail others : List Char} {o : Except LexCause Token}

theorem munch_single_truncate {t : Except LexCause Token}
    (h : (⟨t, [c], w ++ (tail ++ others)⟩ : Munch) =
      ⟨o, c :: w, tail ++ others⟩) :
    (⟨t, [c], w ++ tail⟩ : Munch) = ⟨o, c :: w, tail⟩ := by
  simp only [Munch.mk.injEq, List.cons.injEq, true_and] at h
  obtain ⟨rfl, rfl, -⟩ := h
  rfl

theorem munchComparison_truncate {short : Except LexCause Token}
    {long : Operator}
    (h : munchComparison c (w ++ (tail ++ others)) short long =
      ⟨o, c :: w, tail ++ others⟩) :
    munchComparison c (w ++ tail) short long = ⟨o, c :: w, tail⟩ := by
  unfold munchComparison at h
  split at h
  · next behind heq =>
    simp only [Munch.mk.injEq, List.cons.injEq, true_and] at h
    obtain ⟨rfl, rfl, -⟩ := h
    rfl
  · next hother =>
    simp only [Munch.mk.injEq, List.cons.injEq, true_and] at h
    obtain ⟨rfl, rfl, -⟩ := h
    unfold munchComparison
    split
    · next behind heq =>
      -- The equals sign would have been there before.
      rw [List.nil_append] at heq
      exact absurd (by rw [heq]; rfl) (hother (behind ++ others))
    · rfl

theorem munchString_truncate
    (h : munchString c (w ++ (tail ++ others)) = ⟨o, c :: w, tail ++ others⟩) :
    munchString c (w ++ tail) = ⟨o, c :: w, tail⟩ := by
  unfold munchString at h
  split at h
  · next hdrop =>
    -- The string is not closed, so nothing was left behind it.
    simp only [Munch.mk.injEq, List.cons.injEq, true_and] at h
    obtain ⟨rfl, -, hnil⟩ := h
    obtain ⟨rfl, rfl⟩ := List.append_eq_nil_iff.mp hnil.symm
    rw [List.append_nil, List.append_nil] at hdrop
    rw [List.append_nil, munchString, hdrop]
  · next close behind hdrop =>
    simp only [Munch.mk.injEq, List.cons_append, List.cons.injEq, true_and] at h
    obtain ⟨rfl, hword, rfl⟩ := h
    generalize hbody :
      (w ++ (tail ++ others)).takeWhile (· != c) = body at hword ⊢
    have hinside : ∀ d ∈ body, (d != c) = true := by
      rw [← hbody]
      exact List.all_eq_true.mp List.all_takeWhile
    have hboundary : ∀ d, (close :: tail).head? = some d → (d != c) = false := by
      rintro d ⟨⟩
      refine @Text.eq_false_of_head?_dropWhile (· != c)
        (w ++ (tail ++ others)) close ?_
      rw [hdrop, List.head?_cons]
    have hsplit : w ++ tail = body ++ close :: tail := by
      rw [← hword, List.append_assoc, List.singleton_append]
    rw [munchString, hsplit, Text.dropWhile_append_eq hinside hboundary,
      Text.takeWhile_append_eq hinside hboundary, ← hword]
    rfl

theorem munch_run_truncate {p : Char → Bool}
    (read : List Char → Except LexCause Token)
    (h : (⟨read (c :: (w ++ (tail ++ others)).takeWhile p),
        c :: (w ++ (tail ++ others)).takeWhile p,
        (w ++ (tail ++ others)).dropWhile p⟩ : Munch) =
      ⟨o, c :: w, tail ++ others⟩) :
    (⟨read (c :: (w ++ tail).takeWhile p), c :: (w ++ tail).takeWhile p,
        (w ++ tail).dropWhile p⟩ : Munch) = ⟨o, c :: w, tail⟩ := by
  simp only [Munch.mk.injEq, List.cons.injEq, true_and] at h
  obtain ⟨hread, htake, hdrop⟩ := h
  have hinside : ∀ d ∈ w, p d = true := by
    rw [← htake]
    exact List.all_eq_true.mp List.all_takeWhile
  have hboundary : ∀ d, tail.head? = some d → p d = false := by
    intro d hd
    refine @Text.eq_false_of_head?_dropWhile p (w ++ (tail ++ others)) d ?_
    rw [hdrop, List.head?_append, hd, Option.some_or]
  rw [htake] at hread
  rw [Text.takeWhile_append_eq hinside hboundary,
    Text.dropWhile_append_eq hinside hboundary, hread]

/-- What is read at the start of a text stays the same if the text is cut off
behind it. -/
theorem munch_truncate
    (h : munch c (w ++ (tail ++ others)) = ⟨o, c :: w, tail ++ others⟩) :
    munch c (w ++ tail) = ⟨o, c :: w, tail⟩ := by
  have hlead := lead_munch c
  generalize munch c = read at h hlead ⊢
  cases hlead with
  | single t ht => exact munch_single_truncate h
  | ordering hc short long => exact munchComparison_truncate h
  | inequality => exact munchComparison_truncate h
  | quote hc => exact munchString_truncate h
  | numeral hc => exact munch_run_truncate ofNumeral h
  | word hc =>
      exact munch_run_truncate (fun run => .ok (ofWord (String.ofList run))) h
  | stray => exact munch_single_truncate h

end Token

/-! ## Pieces -/

/-- A piece of a text: blanks, the characters that are taken behind them, and
what they are read as. -/
structure Piece where
  gap : List Char
  taken : List Char
  outcome : Except LexCause Token

namespace Piece

/-- What is told of a piece that begins at an offset. The token or the error
starts behind the blanks, and a token stops where the piece ends. -/
def reading (offset : Nat) (p : Piece) : Except LexError Lexeme :=
  let start := offset + Text.byteLength p.gap
  Scanner.readingAt start (start + Text.byteLength p.taken) p.outcome

/-- Where a piece ends that begins at an offset. -/
def stop (offset : Nat) (p : Piece) : Nat :=
  offset + Text.byteLength p.gap + Text.byteLength p.taken

/-- The text in which pieces stand one after another. -/
def text : List Piece → List Char
  | [] => []
  | p :: rest => p.gap ++ (p.taken ++ text rest)

/-- What is told of pieces one after another. -/
def readings (offset : Nat) : List Piece → List (Except LexError Lexeme)
  | [] => []
  | p :: rest => p.reading offset :: readings (p.stop offset) rest

/-- A piece is read in front of a text if the characters behind its blanks are
what is taken there. -/
structure IsReadBefore (p : Piece) (behind : List Char) : Prop where
  isBlank_of_mem_gap : ∀ c ∈ p.gap, Text.isBlank c = true
  exists_munch : ∃ c w, p.taken = c :: w ∧ Text.isBlank c = false ∧
    Token.munch c (w ++ behind) = ⟨p.outcome, c :: w, behind⟩

/-- Pieces are read one after another, in front of a text. -/
def AreReadBefore (behind : List Char) : List Piece → Prop
  | [] => True
  | p :: rest =>
    p.IsReadBefore (text rest ++ behind) ∧ AreReadBefore behind rest

theorem length_readings (offset : Nat) (ps : List Piece) :
    (readings offset ps).length = ps.length := by
  induction ps generalizing offset with
  | nil => rfl
  | cons p rest ih => rw [readings, List.length_cons, ih, List.length_cons]

/-- The pieces behind other pieces begin where the text of those ends. -/
theorem readings_append (offset : Nat) (before after : List Piece) :
    readings offset (before ++ after) =
      readings offset before ++
        readings (offset + Text.byteLength (text before)) after := by
  induction before generalizing offset with
  | nil => rfl
  | cons p before ih =>
      have hstop : p.stop offset + Text.byteLength (text before) =
          offset + Text.byteLength (text (p :: before)) := by
        simp only [stop, text, Text.byteLength_append, Nat.add_assoc]
      rw [List.cons_append, readings, ih, hstop, readings, List.cons_append]

/-- A piece is told of where it stands in the text. -/
theorem getElem?_readings (before after : List Piece) (p : Piece) :
    (readings 0 (before ++ p :: after))[before.length]? =
      some (p.reading (Text.byteLength (text before))) := by
  rw [readings_append, ← length_readings 0 before, List.getElem?_append_right le_rfl,
    Nat.sub_self, Nat.zero_add]
  rfl

theorem AreReadBefore.isReadBefore_of_append
    {behind : List Char} {before after : List Piece} {p : Piece}
    (h : AreReadBefore behind (before ++ p :: after)) :
    p.IsReadBefore (text after ++ behind) := by
  induction before with
  | nil => exact h.1
  | cons q before ih => exact ih h.2

end Piece

namespace Scanner

/-- A text that is not blank begins with a piece. -/
theorem exists_isReadBefore (rest : List Char) :
    (∀ c ∈ rest, Text.isBlank c = true) ∨
      ∃ (p : Piece) (behind : List Char),
        rest = p.gap ++ (p.taken ++ behind) ∧ p.IsReadBefore behind := by
  cases hdrop : rest.dropWhile Text.isBlank with
  | nil => exact .inl (List.dropWhile_eq_nil_iff.mp hdrop)
  | cons c others =>
      have hblank : Text.isBlank c = false := by
        refine @Text.eq_false_of_head?_dropWhile Text.isBlank rest c ?_
        rw [hdrop, List.head?_cons]
      have happend := Token.munch_taken_append_rest c others
      cases htaken : (Token.munch c others).taken with
      | nil => exact absurd htaken (Token.munch_taken_ne_nil c others)
      | cons d w =>
          rw [htaken, List.cons_append, List.cons.injEq] at happend
          obtain ⟨rfl, hothers⟩ := happend
          refine .inr ⟨⟨rest.takeWhile Text.isBlank, d :: w,
            (Token.munch d others).outcome⟩, (Token.munch d others).rest, ?_,
            List.all_eq_true.mp List.all_takeWhile, d, w, rfl, hblank, ?_⟩
          · rw [List.cons_append, hothers, ← hdrop,
              List.takeWhile_append_dropWhile]
          · rw [hothers, ← htaken]

theorem next?_of_isReadBefore
    {p : Piece} {behind : List Char} (h : p.IsReadBefore behind)
    (offset : Nat) :
    (⟨p.gap ++ (p.taken ++ behind), offset⟩ : Scanner).next? =
      some (p.reading offset, ⟨behind, p.stop offset⟩) := by
  obtain ⟨hgap, c, w, htaken, hblank, hmunch⟩ := h
  rw [htaken, next?_of_munch hgap hblank hmunch]
  simp only [Piece.reading, Piece.stop, htaken]

/-- A text consists of pieces and of blanks behind them, and what is told of it
is what is told of the pieces. -/
theorem exists_pieces (s : Scanner) :
    ∃ (pieces : List Piece) (blanks : List Char),
      s.rest = Piece.text pieces ++ blanks ∧
      (∀ c ∈ blanks, Text.isBlank c = true) ∧
      Piece.AreReadBefore blanks pieces ∧
      s.readings = Piece.readings s.offset pieces := by
  obtain ⟨rest, offset⟩ := s
  induction hlength : rest.length using Nat.strong_induction_on
    generalizing rest offset with
  | _ n ih =>
      rcases exists_isReadBefore rest with hblank | ⟨p, behind, rfl, hread⟩
      · exact ⟨[], rest, rfl, hblank, trivial,
          readings_eq_nil (next?_eq_none_of_blanks hblank offset)⟩
      · have hnext := next?_of_isReadBefore hread offset
        have hshorter : behind.length < n := by
          rw [← hlength]
          exact length_rest_lt_of_next? hnext
        obtain ⟨pieces, blanks, rfl, hblanks, hpieces, hreadings⟩ :=
          ih behind.length hshorter behind (p.stop offset) rfl
        refine ⟨p :: pieces, blanks, ?_, hblanks, ⟨hread, hpieces⟩, ?_⟩
        · rw [Piece.text, List.append_assoc, List.append_assoc]
        · rw [readings_eq_cons hnext, hreadings, Piece.readings]

end Scanner

/-! ## What is told of a piece -/

/-- All that is read in a text on its own. -/
def Text.readings (s : List Char) : List (Except LexError Lexeme) :=
  (⟨s, 0⟩ : Scanner).readings

/-- What is taken for an error: one character, a run of all characters that
stick to a minus sign or a digit, or a quote and all that is behind it. -/
def LexCause.Takes (taken behind : List Char) : LexCause → Prop
  | .unexpectedCharacter c => taken = [c]
  | .malformedNumber run =>
    taken = run.toList ∧
      (∃ c w, taken = c :: w ∧ Text.isNumeralStart c = true ∧
        ∀ d ∈ w, Text.isNumeralChar d = true) ∧
      ∀ d, behind.head? = some d → Text.isNumeralChar d = false
  | .unterminatedString => taken.head? = some '\x27' ∧ behind = []

/-- What holds of a piece in front of a text. It has only blanks in its gap, and
takes at least one character; for an error it takes what is said of that error.
What it takes is read in the same way on its own, and nothing longer is read
there as one token. -/
structure Piece.IsMaximalBefore (p : Piece) (behind : List Char) : Prop where
  isBlank_of_mem_gap : ∀ c ∈ p.gap, Text.isBlank c = true
  taken_ne_nil : p.taken ≠ []
  takes_of_error : ∀ cause, p.outcome = .error cause →
    cause.Takes p.taken behind
  readings_of_ok : ∀ t, p.outcome = .ok t →
    Text.readings p.taken = [.ok ⟨t, 0, Text.byteLength p.taken⟩]
  readings_of_error : ∀ cause, p.outcome = .error cause →
    Text.readings p.taken = [.error ⟨0, cause⟩]
  readings_longer : ∀ longer, longer <+: p.taken ++ behind →
    p.taken.length < longer.length →
    ∀ t, Text.readings longer ≠ [.ok ⟨t, 0, Text.byteLength longer⟩]

namespace Token

theorem takes_of_munchComparison
    {c : Char} {rest : List Char} {short : Except LexCause Token}
    {long : Operator} {cause : LexCause}
    (h : (munchComparison c rest short long).outcome = .error cause)
    (hshort : ∀ other, short = .error other → other = .unexpectedCharacter c) :
    cause.Takes (munchComparison c rest short long).taken
      (munchComparison c rest short long).rest := by
  unfold munchComparison at h ⊢
  split at h
  · cases h
  · obtain rfl := hshort cause h
    rfl

theorem takes_of_munchString
    {rest : List Char} {cause : LexCause}
    (h : (munchString '\x27' rest).outcome = .error cause) :
    cause.Takes (munchString '\x27' rest).taken
      (munchString '\x27' rest).rest := by
  unfold munchString at h ⊢
  split at h
  · cases h
    exact ⟨rfl, rfl⟩
  · cases h

theorem eq_malformedNumber_of_ofNumeral
    {run : List Char} {cause : LexCause} (h : ofNumeral run = .error cause) :
    cause = .malformedNumber (String.ofList run) := by
  unfold ofNumeral at h
  split at h
  · split at h
    · cases h
    · cases h
      rfl
  · cases h
    rfl

/-- What is taken for an error is what is said of that error. -/
theorem takes_of_munch
    {c : Char} {rest : List Char} {cause : LexCause}
    (h : (munch c rest).outcome = .error cause) :
    cause.Takes (munch c rest).taken (munch c rest).rest := by
  have hlead := lead_munch c
  generalize munch c = read at h hlead ⊢
  cases hlead with
  | single t ht => cases h
  | ordering hc short long =>
      exact takes_of_munchComparison h (by rintro other ⟨⟩)
  | inequality =>
      refine takes_of_munchComparison h ?_
      rintro other ⟨⟩
      rfl
  | quote hc =>
      subst hc
      exact takes_of_munchString h
  | numeral hc =>
      obtain rfl := eq_malformedNumber_of_ofNumeral h
      refine ⟨String.toList_ofList.symm, ⟨c, _, rfl, hc, ?_⟩, ?_⟩
      · exact List.all_eq_true.mp List.all_takeWhile
      · intro d hd
        exact Text.eq_false_of_head?_dropWhile hd
  | word hc => cases h
  | stray =>
      cases h
      rfl

end Token

namespace Text

theorem byteLength_pos_of_ne_nil {s : List Char} (h : s ≠ []) :
    0 < byteLength s := by
  cases s with
  | nil => exact absurd rfl h
  | cons c rest => exact Nat.lt_add_right _ c.utf8Size_pos

end Text

namespace Piece

variable {p : Piece} {behind tail others : List Char}

theorem IsReadBefore.taken_ne_nil (h : p.IsReadBefore behind) :
    p.taken ≠ [] := by
  obtain ⟨c, w, htaken, -, -⟩ := h.exists_munch
  rw [htaken]
  exact List.cons_ne_nil c w

theorem IsReadBefore.takes_of_error
    (h : p.IsReadBefore behind) {cause : LexCause}
    (hcause : p.outcome = .error cause) : cause.Takes p.taken behind := by
  obtain ⟨c, w, htaken, -, hmunch⟩ := h.exists_munch
  have htakes := @Token.takes_of_munch c (w ++ behind) cause
    (by rw [hmunch, hcause])
  rwa [hmunch, ← htaken] at htakes

/-- What a piece takes is the first piece of it and of any longer text that was
there. -/
theorem IsReadBefore.truncate (h : p.IsReadBefore (tail ++ others)) :
    (⟨[], p.taken, p.outcome⟩ : Piece).IsReadBefore tail := by
  obtain ⟨c, w, htaken, hblank, hmunch⟩ := h.exists_munch
  exact ⟨List.forall_mem_nil _, c, w, htaken, hblank,
    Token.munch_truncate hmunch⟩

/-- A text that begins with what a piece takes is read as this piece and then
further. -/
theorem IsReadBefore.readings_taken_append (h : p.IsReadBefore (tail ++ others)) :
    Text.readings (p.taken ++ tail) =
      (⟨[], p.taken, p.outcome⟩ : Piece).reading 0 ::
        (⟨tail, Text.byteLength p.taken⟩ : Scanner).readings := by
  have hnext := Scanner.next?_of_isReadBefore h.truncate 0
  simp only [stop, Text.byteLength, Nat.zero_add] at hnext
  exact Scanner.readings_eq_cons hnext

theorem IsReadBefore.readings_taken (h : p.IsReadBefore behind) :
    Text.readings p.taken =
      [(⟨[], p.taken, p.outcome⟩ : Piece).reading 0] := by
  have hreadings := @readings_taken_append p [] behind h
  rwa [List.append_nil, Scanner.readings_eq_nil
    (Scanner.next?_eq_none_of_blanks (List.forall_mem_nil _) _)] at hreadings

/-- What a piece takes is read first in any longer text, so no such text is one
token. -/
theorem IsReadBefore.readings_longer
    (h : p.IsReadBefore behind) {longer : List Char}
    (hinitial : longer <+: p.taken ++ behind)
    (hlonger : p.taken.length < longer.length) (t : Token) :
    Text.readings longer ≠ [.ok ⟨t, 0, Text.byteLength longer⟩] := by
  obtain ⟨tail, rfl⟩ : p.taken <+: longer :=
    List.prefix_of_prefix_length_le (List.prefix_append p.taken behind) hinitial
      hlonger.le
  obtain ⟨others, rfl⟩ := (List.prefix_append_right_inj p.taken).mp hinitial
  have htail : tail ≠ [] := by
    rintro rfl
    rw [List.append_nil] at hlonger
    exact lt_irrefl _ hlonger
  have hpos := Text.byteLength_pos_of_ne_nil htail
  intro heq
  rw [h.readings_taken_append] at heq
  have hfirst := (List.cons.inj heq).1
  cases houtcome : p.outcome with
  | error cause =>
      simp [reading, Scanner.readingAt, houtcome] at hfirst
  | ok token =>
      simp only [reading, Scanner.readingAt, houtcome, Except.ok.injEq, Lexeme.mk.injEq,
        Text.byteLength, Text.byteLength_append, Nat.zero_add] at hfirst
      omega

/-- Pieces that are read are maximal. -/
theorem IsReadBefore.isMaximalBefore (h : p.IsReadBefore behind) :
    p.IsMaximalBefore behind where
  isBlank_of_mem_gap := h.isBlank_of_mem_gap
  taken_ne_nil := h.taken_ne_nil
  takes_of_error := fun _ hcause => h.takes_of_error hcause
  readings_of_ok := by
    intro t ht
    rw [h.readings_taken]
    simp [reading, Scanner.readingAt, ht, Text.byteLength]
  readings_of_error := by
    intro cause hcause
    rw [h.readings_taken]
    simp [reading, Scanner.readingAt, hcause, Text.byteLength]
  readings_longer := fun _ hinitial hlonger => h.readings_longer hinitial hlonger

/-- There are no more pieces than characters. -/
theorem AreReadBefore.length_le {ps : List Piece}
    (h : AreReadBefore behind ps) : ps.length ≤ (text ps).length := by
  induction ps with
  | nil => exact le_rfl
  | cons p rest ih =>
      have hpos := List.length_pos_of_ne_nil h.1.taken_ne_nil
      have hrest := ih h.2
      simp only [text, List.length_cons, List.length_append]
      omega

end Piece

/-! ## Scanning on and on -/

namespace Scanner

/-- What a scanner answers when it is asked for the next token, and where it
stands then. At the end of the text it answers nothing and stays there. -/
def ask (s : Scanner) : Option (Except LexError Lexeme) × Scanner :=
  match s.next? with
  | some (outcome, behind) => (some outcome, behind)
  | none => (none, ⟨[], s.offset + Text.byteLength s.rest⟩)

/-- Where a scanner stands after it was asked some times. -/
def after : Nat → Scanner → Scanner
  | 0, s => s
  | n + 1, s => after n s.ask.2

/-- However often a scanner is asked, it answers with what is read in the text,
one after another, and then with nothing for ever. -/
theorem ask_after (n : Nat) (s : Scanner) :
    (s.after n).ask.1 = s.readings[n]? := by
  induction n generalizing s with
  | zero =>
      rw [after, ask]
      cases hnext : s.next? with
      | none =>
          rw [readings_eq_nil hnext]
          rfl
      | some read =>
          rw [readings_eq_cons hnext]
          rfl
  | succ n ih =>
      rw [after, ih, ask]
      cases hnext : s.next? with
      | none =>
          -- Nothing is left of the text, so nothing is read in it.
          have hend := next?_eq_none_of_blanks (List.forall_mem_nil _)
            (s.offset + Text.byteLength s.rest)
          rw [readings_eq_nil hnext, readings_eq_nil hend]
          rfl
      | some read =>
          rw [readings_eq_cons hnext]
          rfl

end Scanner

/-! ## All tokens, or the first error -/

theorem mapM_id_append_error
    {ε α : Type} (ys : List α) (e : ε) (rest : List (Except ε α)) :
    (ys.map Except.ok ++ Except.error e :: rest).mapM id = .error e := by
  induction ys with
  | nil => rfl
  | cons y ys ih =>
      rw [List.map_cons, List.cons_append, List.mapM_cons, ih]
      rfl

theorem eq_append_error_of_mapM_id
    {ε α : Type} {xs : List (Except ε α)} {e : ε} (h : xs.mapM id = .error e) :
    ∃ (ys : List α) (rest : List (Except ε α)),
      xs = ys.map .ok ++ .error e :: rest := by
  induction xs with
  | nil => cases h
  | cons x xs ih =>
      rw [List.mapM_cons] at h
      cases x with
      | error first =>
          cases h
          exact ⟨[], xs, rfl⟩
      | ok y =>
          cases hxs : xs.mapM id with
          | ok zs =>
              rw [hxs] at h
              cases h
          | error later =>
              rw [hxs] at h
              cases h
              obtain ⟨ys, rest, rfl⟩ := ih hxs
              exact ⟨y :: ys, rest, rfl⟩

/-- A text has tokens exactly if each reading in it is a token. -/
theorem lexemes_eq_ok_iff {s : String} {ls : List Lexeme} :
    lexemes s = .ok ls ↔ (Scanner.ofText s).readings = ls.map .ok := by
  constructor
  · exact eq_map_ok_of_mapM_id
  · intro h
    rw [lexemes, h, mapM_id_map_ok]

/-- A text has an error exactly if that is the first reading in it that is no
token. -/
theorem lexemes_eq_error_iff {s : String} {e : LexError} :
    lexemes s = .error e ↔ ∃ (ls : List Lexeme) (rest : List _),
      (Scanner.ofText s).readings = ls.map .ok ++ .error e :: rest := by
  constructor
  · exact eq_append_error_of_mapM_id
  · rintro ⟨ls, rest, h⟩
    rw [lexemes, h, mapM_id_append_error]

/-! ## Texts in pieces -/

/-- Scanning partitions a text. The text consists of pieces, which are maximal
where they stand, and of blanks behind them; what is read in the text, also
behind errors, is what is told of the pieces, one after another. These are not
more than the text has characters. Asked again and again, a scanner answers with
them and then with nothing for ever. A text has the tokens of all the readings
in it, or else the first error among them. -/
theorem Scanner.readings_partition_text (s : String) :
    ∃ (pieces : List Piece) (blanks : List Char),
      s.toList = Piece.text pieces ++ blanks ∧
      (∀ c ∈ blanks, Text.isBlank c = true) ∧
      (∀ before p after, pieces = before ++ p :: after →
        (ofText s).readings[before.length]? =
          some (p.reading (Text.byteLength (Piece.text before))) ∧
        p.IsMaximalBefore (Piece.text after ++ blanks)) ∧
      (ofText s).readings = Piece.readings 0 pieces ∧
      (ofText s).readings.length ≤ s.length ∧
      (∀ n, ((ofText s).after n).ask.1 = (ofText s).readings[n]?) ∧
      (∀ ls, lexemes s = .ok ls ↔ (ofText s).readings = ls.map .ok) ∧
      (∀ e, lexemes s = .error e ↔ ∃ (ls : List Lexeme) (rest : List _),
        (ofText s).readings = ls.map .ok ++ .error e :: rest) := by
  obtain ⟨pieces, blanks, htext, hblanks, hread, hreadings⟩ :=
    exists_pieces (ofText s)
  refine ⟨pieces, blanks, htext, hblanks, ?_, hreadings, ?_,
    fun n => ask_after n _, fun _ => lexemes_eq_ok_iff,
    fun _ => lexemes_eq_error_iff⟩
  · rintro before p after rfl
    refine ⟨?_, hread.isReadBefore_of_append.isMaximalBefore⟩
    rw [hreadings]
    exact Piece.getElem?_readings before after p
  · calc (ofText s).readings.length
        = pieces.length := by rw [hreadings, Piece.length_readings]
      _ ≤ (Piece.text pieces).length := hread.length_le
      _ ≤ (Piece.text pieces ++ blanks).length := by
          rw [List.length_append]
          exact Nat.le_add_right _ _
      _ = s.length := by rw [← String.length_toList, ← htext]; rfl

/-- Scanning goes on behind errors, and ends with the text. -/
example :
    let s := Scanner.ofText "a! 'b"
    (s.after 1).ask.1 = some (.error ⟨1, .unexpectedCharacter '!'⟩) ∧
      (s.after 2).ask.1 = some (.error ⟨3, .unterminatedString⟩) ∧
      (s.after 3).ask.1 = none := by decide

end Rulebook
