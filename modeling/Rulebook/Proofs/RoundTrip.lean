import Rulebook.Expression.Canonical
import Rulebook.Proofs.Legible

/-!
# Canonical texts read back

A canonical text is the words of an expression's tokens with a blank between
any two of them, except behind an opening parenthesis and in front of a closing
one. Every legible token is read from its word, and no word sticks to the next,
so scanning a canonical text gives the tokens back. The parser then gives the
expression back.
-/

namespace Rulebook

/-! ## The word of a token -/

namespace Token

/-- The word of a token in a canonical text. -/
def spelling : Token → List Char
  | .field name => name.toList
  | .literal value => value.literal.toList
  | .operator op => op.symbol.toList
  | .connector k => k.keyword.toList
  | .opening => ['(']
  | .closing => [')']

theorem munch_of_isNumeralStart
    {c : Char} (hc : Text.isNumeralStart c = true) (rest : List Char) :
    munch c rest =
      ⟨ofNumeral (c :: rest.takeWhile Text.isNumeralChar),
        c :: rest.takeWhile Text.isNumeralChar,
        rest.dropWhile Text.isNumeralChar⟩ := by
  have hne (d : Char) (hd : Text.isNumeralStart d = false) : c ≠ d :=
    Text.ne_of_isNumeralStart hc hd
  rw [munch, if_neg (hne '(' rfl), if_neg (hne ')' rfl), if_neg (hne '=' rfl),
    if_neg (hne '>' rfl), if_neg (hne '<' rfl), if_neg (hne '!' rfl),
    if_neg (hne '\x27' rfl)]
  exact if_pos hc

theorem munch_of_isWordStart
    {c : Char} (hc : Text.isWordStart c = true) (rest : List Char) :
    munch c rest =
      ⟨.ok (ofWord (String.ofList (c :: rest.takeWhile Text.isWordChar))),
        c :: rest.takeWhile Text.isWordChar,
        rest.dropWhile Text.isWordChar⟩ := by
  have hne (d : Char) (hd : Text.isWordStart d = false) : c ≠ d :=
    Text.ne_of_isWordStart hc hd
  have hnumeral : ¬Text.isNumeralStart c = true := by
    rw [Text.isNumeralStart_eq_false_of_isWordStart hc]
    exact Bool.false_ne_true
  rw [munch, if_neg (hne '(' rfl), if_neg (hne ')' rfl), if_neg (hne '=' rfl),
    if_neg (hne '>' rfl), if_neg (hne '<' rfl), if_neg (hne '!' rfl),
    if_neg (hne '\x27' rfl)]
  exact (if_neg hnumeral).trans (if_pos hc)

theorem ofWord_eq_field
    {name : String} (h : name ∉ ["AND", "OR", "true", "false"]) :
    ofWord name = .field name := by
  simp only [List.mem_cons, List.not_mem_nil, or_false, not_or] at h
  obtain ⟨hand, hor, htrue, hfalse⟩ := h
  have hkeyword : Connector.ofKeyword? name = none := by
    simp [Connector.ofKeyword?, Connector.all, Connector.keyword,
      Ne.symm hand, Ne.symm hor]
  simp [ofWord, hkeyword, htrue, hfalse]

theorem spells_name
    {name : String} (h : IsFieldName name) :
    Spells name.toList (.field name) := by
  obtain ⟨⟨c, rest, hname, hc, hrest⟩, hkeyword⟩ := h
  have hrun : ∀ d ∈ rest, Text.isWordChar d = true := by
    intro d hd
    simpa [Text.isWordChar] using hrest d hd
  have hblank : Text.isBlank c = false := by
    apply Text.isBlank_eq_false_of_isNumeralChar
    rcases hc with hc | rfl
    · simp [Text.isNumeralChar, Text.isWordChar, Char.isAlphanum, hc]
    · decide
  have hstart : Text.isWordStart c = true := by
    simpa [Text.isWordStart] using hc
  have hmunch := munch_of_isWordStart hstart rest
  rw [List.takeWhile_eq_self_iff.mpr hrun, List.dropWhile_eq_nil_iff.mpr hrun,
    ← hname, String.ofList_toList, ofWord_eq_field hkeyword, hname] at hmunch
  exact ⟨c, rest, hname, hblank, hmunch⟩

theorem spells_number
    {x : Binary64} (h : x.isFinite = true) :
    Spells (Scalar.number x).literal.toList (.literal (.number x)) := by
  obtain ⟨n, htext, hdecimal⟩ := Binary64.text_eq_numeral h
  obtain ⟨c, rest, hcons, hc, hrest⟩ := n.text_eq_cons
  have hrun : ∀ d ∈ rest, Text.isNumeralChar d = true := by
    intro d hd
    rcases hrest d hd with hdigit | hpoint
    · simp [Text.isNumeralChar, Text.isWordChar, Char.isAlphanum, hdigit]
    · simp [Text.isNumeralChar, hpoint]
  have hblank : Text.isBlank c = false := by
    rcases hc with rfl | hc
    · decide
    · apply Text.isBlank_eq_false_of_isNumeralChar
      simp [Text.isNumeralChar, Text.isWordChar, Char.isAlphanum, hc]
  have hstart : Text.isNumeralStart c = true := by
    simpa [Text.isNumeralStart] using hc
  have hmunch := munch_of_isNumeralStart hstart rest
  rw [List.takeWhile_eq_self_iff.mpr hrun, List.dropWhile_eq_nil_iff.mpr hrun,
    ← hcons] at hmunch
  have hread : ofNumeral n.text = .ok (.literal (.number x)) := by
    simp [ofNumeral, n.ofNumeral?_text, hdecimal, h]
  rw [hread, hcons] at hmunch
  exact ⟨c, rest, htext.trans hcons, hblank, hmunch⟩

theorem spells_string
    {s : String} (h : '\x27' ∉ s.toList) :
    Spells (Scalar.string s).literal.toList (.literal (.string s)) := by
  have hinside : ∀ c ∈ s.toList, (c != '\x27') = true := by
    intro c hc
    rw [bne_iff_ne]
    rintro rfl
    exact h hc
  have hboundary : ∀ d, ['\x27'].head? = some d → (d != '\x27') = false := by
    rintro d ⟨⟩
    rfl
  have hmunch : munchString '\x27' (s.toList ++ ['\x27']) =
      ⟨.ok (.literal (.string s)), '\x27' :: (s.toList ++ ['\x27']), []⟩ := by
    rw [munchString, Text.dropWhile_append_eq hinside hboundary,
      Text.takeWhile_append_eq hinside hboundary]
    simp
  exact ⟨'\x27', s.toList ++ ['\x27'], by simp [Scalar.literal], by decide,
    hmunch⟩

theorem spells_operator (op : Operator) :
    Spells op.symbol.toList (.operator op) := by
  cases op <;> exact ⟨_, _, rfl, by decide, rfl⟩

theorem spells_connector (k : Connector) :
    Spells k.keyword.toList (.connector k) := by
  cases k <;> exact ⟨_, _, rfl, by decide, rfl⟩

theorem spells_boolean (b : Bool) :
    Spells (Scalar.boolean b).literal.toList (.literal (.boolean b)) := by
  cases b <;> exact ⟨_, _, rfl, by decide, rfl⟩

/-- A legible token is read from its word. -/
theorem spells_spelling {t : Token} (h : t.IsLegible) :
    Spells t.spelling t := by
  cases t with
  | field name => exact spells_name h
  | literal value =>
      cases value with
      | number x => exact spells_number h
      | string s => exact spells_string h
      | boolean b => exact spells_boolean b
  | operator op => exact spells_operator op
  | connector k => exact spells_connector k
  | opening => exact ⟨_, _, rfl, by decide, rfl⟩
  | closing => exact ⟨_, _, rfl, by decide, rfl⟩

end Token

/-! ## Setting tokens into a text -/

namespace SpacedWord

/-- The words of tokens as a canonical text has them; `tight` says that an
opening parenthesis is in front of them, or nothing. -/
def typeset (tight : Bool) : List Token → List SpacedWord
  | [] => []
  | t :: rest =>
    ⟨if tight || t = .closing then [] else [' '], t.spelling, t⟩ ::
      typeset (t = .opening) rest

/-- Whether the words behind some tokens are set without a blank. -/
def tightBehind (tight : Bool) : List Token → Bool
  | [] => tight
  | t :: rest => tightBehind (t = .opening) rest

theorem text_append (ws vs : List SpacedWord) :
    text (ws ++ vs) = text ws ++ text vs := by
  induction ws with
  | nil => rfl
  | cons w ws ih => simp [text, ih]

theorem typeset_append (tight : Bool) (ts us : List Token) :
    typeset tight (ts ++ us) =
      typeset tight ts ++ typeset (tightBehind tight ts) us := by
  induction ts generalizing tight with
  | nil => rfl
  | cons t ts ih => simp [typeset, tightBehind, ih]

theorem tightBehind_append (tight : Bool) (ts us : List Token) :
    tightBehind tight (ts ++ us) =
      tightBehind (tightBehind tight ts) us := by
  induction ts generalizing tight with
  | nil => rfl
  | cons t ts ih => exact ih (t = .opening)

theorem map_token_typeset (tight : Bool) (ts : List Token) :
    (typeset tight ts).map SpacedWord.token = ts := by
  induction ts generalizing tight with
  | nil => rfl
  | cons t ts ih => rw [typeset, List.map_cons, ih]

/-- Nothing sticks to the words of legible tokens. -/
theorem separated_typeset
    {ts : List Token} (h : ∀ t ∈ ts, t.IsLegible) (tight : Bool) :
    Separated (typeset tight ts) := by
  induction ts generalizing tight with
  | nil => trivial
  | cons t rest ih =>
      refine ⟨?_, Token.spells_spelling (h t (by simp)), ?_,
        ih (fun u hu => h u (List.mem_cons_of_mem t hu)) _⟩
      · intro c hc
        split at hc
        · cases hc
        · rw [List.mem_singleton.mp hc]
          decide
      · intro d hd
        cases rest with
        | nil => cases hd
        | cons u others =>
            by_cases hopening : t = .opening
            · rw [hopening]
              rfl
            · by_cases hclosing : u = .closing
              · have hdclosing : d = ')' := by
                  simpa [typeset, text, hclosing, Token.spelling] using hd.symm
                rw [hdclosing]
                exact Text.sticks_eq_false (by decide) (by decide) _
              · have hdblank : d = ' ' := by
                  simpa [typeset, text, hopening, hclosing] using hd.symm
                rw [hdblank]
                exact Text.sticks_eq_false (by decide) (by decide) _

end SpacedWord

/-! ## The words of a canonical text -/

/-- What is written in front of the first word of an expression. -/
def leadingGap (tight : Bool) : List Char :=
  if tight then [] else [' ']

theorem Condition.text_typeset_tokens (tight : Bool) (c : Condition) :
    SpacedWord.text (SpacedWord.typeset tight c.tokens) =
      leadingGap tight ++ c.canonical.toList := by
  simp [Condition.tokens, Condition.canonical, SpacedWord.typeset,
    SpacedWord.text, Token.spelling, leadingGap]

mutual

theorem Term.text_typeset_tokens (tight : Bool) :
    (t : Term) →
      SpacedWord.text (SpacedWord.typeset tight t.tokens) =
          leadingGap tight ++ t.canonical.toList ∧
        SpacedWord.tightBehind tight t.tokens = false
  | .condition c => ⟨c.text_typeset_tokens tight, rfl⟩
  | .group e => by
      obtain ⟨htext, htight⟩ := Expression.text_typeset_tokens true e
      constructor
      · simp [Term.tokens, Term.canonical, SpacedWord.typeset,
          SpacedWord.typeset_append, SpacedWord.text, SpacedWord.text_append,
          htext, htight, Token.spelling, leadingGap]
      · simp [Term.tokens, SpacedWord.tightBehind,
          SpacedWord.tightBehind_append]

/-- The words of an expression's tokens make up its canonical text. -/
theorem Expression.text_typeset_tokens (tight : Bool) :
    (e : Expression) →
      SpacedWord.text (SpacedWord.typeset tight e.tokens) =
          leadingGap tight ++ e.canonical.toList ∧
        SpacedWord.tightBehind tight e.tokens = false
  | .single t => by
      simpa [Expression.tokens, Expression.canonical] using
        Term.text_typeset_tokens tight t
  | .chain k ts => by
      simpa [Expression.tokens, Expression.canonical] using
        Terms.text_typeset_tokens tight k ts

theorem Terms.text_typeset_tokens (tight : Bool) (k : Connector) :
    (ts : Terms) →
      SpacedWord.text (SpacedWord.typeset tight (ts.tokens k)) =
          leadingGap tight ++ (ts.canonical k).toList ∧
        SpacedWord.tightBehind tight (ts.tokens k) = false
  | .pair a b => by
      obtain ⟨htexta, htighta⟩ := Term.text_typeset_tokens tight a
      obtain ⟨htextb, htightb⟩ := Term.text_typeset_tokens false b
      constructor
      · simp [Terms.tokens, Terms.canonical, SpacedWord.typeset,
          SpacedWord.typeset_append, SpacedWord.text, SpacedWord.text_append,
          htexta, htighta, htextb, Token.spelling, leadingGap]
      · simp [Terms.tokens, SpacedWord.tightBehind,
          SpacedWord.tightBehind_append, htightb]
  | .cons a rest => by
      obtain ⟨htexta, htighta⟩ := Term.text_typeset_tokens tight a
      obtain ⟨htextrest, htightrest⟩ := Terms.text_typeset_tokens false k rest
      constructor
      · simp [Terms.tokens, Terms.canonical, SpacedWord.typeset,
          SpacedWord.typeset_append, SpacedWord.text, SpacedWord.text_append,
          htexta, htighta, htextrest, Token.spelling, leadingGap]
      · simp [Terms.tokens, SpacedWord.tightBehind,
          SpacedWord.tightBehind_append, htightrest]

end

/-! ## The round trip -/

namespace Expression

/-- A text is read as an expression exactly if it has the tokens of the
expression and no group is nested beyond the limit. -/
theorem ofText_eq_ok_iff {s : String} {e : Expression} :
    ofText s = .ok e ↔
      e.depth ≤ maxDepth ∧
        ∃ ls, lexemes s = .ok ls ∧ e.tokens = ls.map Lexeme.token := by
  unfold ofText
  cases hlexemes : lexemes s with
  | error cause => simp
  | ok ls =>
      constructor
      · intro h
        simp only at h
        cases hanswer : ofTokens ls with
        | error cause =>
            rw [hanswer] at h
            cases h
        | ok f =>
            rw [hanswer] at h
            cases h
            obtain ⟨hdepth, htokens⟩ := ofTokens_eq_ok_iff.mp hanswer
            exact ⟨hdepth, ls, rfl, htokens⟩
      · rintro ⟨hdepth, _, ⟨⟩, htokens⟩
        simp only [ofTokens_eq_ok_iff.mpr ⟨hdepth, htokens⟩]
        rfl

theorem isWellFormed_of_ofText
    {s : String} {e : Expression} (h : ofText s = .ok e) : e.IsWellFormed := by
  obtain ⟨hdepth, ls, hlexemes, htokens⟩ := ofText_eq_ok_iff.mp h
  refine ⟨?_, hdepth⟩
  rw [← e.forall_tokens_isLegible_iff, htokens]
  exact isLegible_of_lexemes hlexemes

theorem ofText_canonical
    {e : Expression} (h : e.IsWellFormed) : ofText e.canonical = .ok e := by
  obtain ⟨hlegible, hdepth⟩ := h
  have hseparated := SpacedWord.separated_typeset
    (e.forall_tokens_isLegible_iff.mpr hlegible) true
  have htext := (e.text_typeset_tokens true).1
  have hlexemes := lexemes_text hseparated htext.symm
  refine ofText_eq_ok_iff.mpr ⟨hdepth, _, hlexemes, ?_⟩
  rw [SpacedWord.map_token_lexemes, SpacedWord.map_token_typeset]

/-- A canonical text is read as the expression that it is the text of exactly
if the expression is well formed. What is read from any text is well formed, so
its canonical text is read as the same. -/
theorem canonical_roundTrip :
    (∀ e : Expression, ofText e.canonical = .ok e ↔ e.IsWellFormed) ∧
    ∀ (s : String) (e : Expression), ofText s = .ok e →
      e.IsWellFormed ∧ ofText e.canonical = .ok e := by
  refine ⟨fun e => ⟨isWellFormed_of_ofText, ofText_canonical⟩, fun s e h => ?_⟩
  have hwell := isWellFormed_of_ofText h
  exact ⟨hwell, ofText_canonical hwell⟩

theorem canonical_roundTrip_of_crowded_text :
    ∃ e : Expression, ofText "a=-0 OR(b='x')" = .ok e ∧
      e.IsWellFormed ∧ ofText e.canonical = .ok e := by
  let zero := (Decimal.mk true 0 0).toBinary64
  let group := Expression.single (.condition ⟨"b", .equal, .string "x"⟩)
  have hread : ofText "a=-0 OR(b='x')" =
      .ok (.chain .or
        (.pair (.condition ⟨"a", .equal, .number zero⟩) (.group group))) := by
    cbv
  exact ⟨_, hread, canonical_roundTrip.2 _ _ hread⟩

end Expression

end Rulebook
