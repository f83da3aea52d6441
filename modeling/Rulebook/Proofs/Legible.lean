import Rulebook.Proofs.Numerals
import Rulebook.Proofs.Parsing
import Rulebook.Proofs.Spacing

/-!
# Legible tokens and expressions

Not every expression can be written down and read back: a field has to be a
name that is no keyword, a string must not contain a quote, and a number has to
be finite. Scanning a text gives only such tokens, and each such token is read
from its own spelling.
-/

namespace Rulebook

/-! ## What can be written -/

/-- A name is made of ASCII letters, digits and low lines, does not begin with a
digit, and is no keyword. -/
def IsFieldName (name : String) : Prop :=
  (∃ c rest, name.toList = c :: rest ∧ (c.isAlpha = true ∨ c = '_') ∧
    ∀ d ∈ rest, d.isAlphanum = true ∨ d = '_') ∧
  name ∉ ["AND", "OR", "true", "false"]

/-- A scalar whose literal can be read: a string without quotes, a finite
number, or a truth value. -/
def Scalar.IsLegible : Scalar → Prop
  | .number x => x.isFinite = true
  | .string s => '\x27' ∉ s.toList
  | .boolean _ => True

/-- A token that can be read from its spelling. -/
def Token.IsLegible : Token → Prop
  | .field name => IsFieldName name
  | .literal value => value.IsLegible
  | _ => True

/-- A condition that can be read from its canonical text. -/
def Condition.IsLegible (c : Condition) : Prop :=
  IsFieldName c.field ∧ c.value.IsLegible

/-- An expression is well formed if all of its conditions are legible, on every
level, and its groups are within the limit on nesting. -/
def Expression.IsWellFormed (e : Expression) : Prop :=
  (∀ c ∈ e.conditions, c.IsLegible) ∧ e.depth ≤ maxDepth

theorem Condition.forall_tokens_isLegible_iff (c : Condition) :
    (∀ t ∈ c.tokens, t.IsLegible) ↔ c.IsLegible := by
  simp [Condition.tokens, Condition.IsLegible, Token.IsLegible]

mutual

theorem Term.forall_tokens_isLegible_iff :
    (t : Term) →
      ((∀ u ∈ t.tokens, u.IsLegible) ↔ ∀ c ∈ t.conditions, c.IsLegible)
  | .condition c => by
      simpa [Term.tokens, Term.conditions] using
        c.forall_tokens_isLegible_iff
  | .group e => by
      have ih := Expression.forall_tokens_isLegible_iff e
      simp only [Term.tokens, Term.conditions, ← ih]
      constructor
      · intro h u hu
        exact h u (by simp [hu])
      · intro h u hu
        simp only [List.mem_cons, List.mem_append, List.not_mem_nil,
          or_false] at hu
        rcases hu with rfl | hu | rfl
        · trivial
        · exact h u hu
        · trivial

/-- The tokens of an expression are legible exactly if its conditions are. -/
theorem Expression.forall_tokens_isLegible_iff :
    (e : Expression) →
      ((∀ u ∈ e.tokens, u.IsLegible) ↔ ∀ c ∈ e.conditions, c.IsLegible)
  | .single t => by
      simpa [Expression.tokens, Expression.conditions] using
        Term.forall_tokens_isLegible_iff t
  | .chain k ts => by
      simpa [Expression.tokens, Expression.conditions] using
        Terms.forall_tokens_isLegible_iff k ts

theorem Terms.forall_tokens_isLegible_iff (k : Connector) :
    (ts : Terms) →
      ((∀ u ∈ ts.tokens k, u.IsLegible) ↔ ∀ c ∈ ts.conditions, c.IsLegible)
  | .pair a b => by
      have hconnector : (Token.connector k).IsLegible := trivial
      have iha := Term.forall_tokens_isLegible_iff a
      have ihb := Term.forall_tokens_isLegible_iff b
      rw [Terms.tokens, Terms.conditions, List.forall_mem_append,
        List.forall_mem_cons, iha, ihb, List.forall_mem_append]
      simp only [hconnector, true_and]
  | .cons a rest => by
      have hconnector : (Token.connector k).IsLegible := trivial
      have iha := Term.forall_tokens_isLegible_iff a
      have ihrest := Terms.forall_tokens_isLegible_iff k rest
      rw [Terms.tokens, Terms.conditions, List.forall_mem_append,
        List.forall_mem_cons, iha, ihrest, List.forall_mem_append]
      simp only [hconnector, true_and]

end

/-! ## Scanned tokens are legible -/

namespace Token

theorem isLegible_ofWord
    {c : Char} {rest : List Char} (hc : Text.isWordStart c = true)
    (hrest : ∀ d ∈ rest, Text.isWordChar d = true) :
    (ofWord (String.ofList (c :: rest))).IsLegible := by
  unfold ofWord
  split
  · trivial
  · next hkeyword =>
    split
    · trivial
    · next htrue =>
      split
      · trivial
      · next hfalse =>
        refine ⟨⟨c, rest, by simp, by simpa [Text.isWordStart] using hc, ?_⟩, ?_⟩
        · intro d hd
          simpa [Text.isWordChar] using hrest d hd
        · intro hmem
          simp only [List.mem_cons, List.not_mem_nil, or_false] at hmem
          rcases hmem with h | h | h | h
          · rw [h] at hkeyword
            cases hkeyword
          · rw [h] at hkeyword
            cases hkeyword
          · exact htrue h
          · exact hfalse h

theorem isLegible_of_ofNumeral
    {run : List Char} {t : Token} (h : ofNumeral run = .ok t) :
    t.IsLegible := by
  unfold ofNumeral at h
  split at h
  · split at h
    · next hfinite =>
      cases h
      exact hfinite
    · cases h
  · cases h

theorem isLegible_of_munchComparison
    {c : Char} {rest : List Char} {short : Except LexCause Token}
    {long : Operator} {t : Token}
    (h : (munchComparison c rest short long).outcome = .ok t)
    (hshort : ∀ u, short = .ok u → u.IsLegible) : t.IsLegible := by
  unfold munchComparison at h
  split at h
  · cases h
    trivial
  · exact hshort t h

theorem isLegible_of_munchString
    {rest : List Char} {t : Token}
    (h : (munchString '\x27' rest).outcome = .ok t) : t.IsLegible := by
  unfold munchString at h
  split at h
  · cases h
  · cases h
    simp only [IsLegible, Scalar.IsLegible, String.toList_ofList]
    intro hmem
    have := List.all_eq_true.mp List.all_takeWhile '\x27' hmem
    simp at this

/-- Whatever is read at the start of a text is legible. -/
theorem isLegible_of_munch
    {c : Char} {rest : List Char} {t : Token}
    (h : (munch c rest).outcome = .ok t) : t.IsLegible := by
  have hlead := lead_munch c
  generalize munch c = read at h hlead
  cases hlead with
  | single u hu =>
      cases h
      rcases hu with rfl | rfl | rfl <;> trivial
  | ordering hc short long =>
      refine isLegible_of_munchComparison h ?_
      rintro u ⟨⟩
      trivial
  | inequality => exact isLegible_of_munchComparison h (by rintro u ⟨⟩)
  | quote hc =>
      subst hc
      exact isLegible_of_munchString h
  | numeral hc => exact isLegible_of_ofNumeral h
  | word hc =>
      cases h
      exact isLegible_ofWord hc (List.all_eq_true.mp List.all_takeWhile)
  | stray => cases h

end Token

theorem isLegible_of_mem_readings
    {s : Scanner} {l : Lexeme} (h : .ok l ∈ s.readings) :
    l.token.IsLegible := by
  fun_induction Scanner.readings s with
  | case1 s hnext => cases h
  | case2 s outcome next hnext ih =>
      rcases List.mem_cons.mp h with rfl | h
      · unfold Scanner.next? at hnext
        split at hnext
        · cases hnext
        · next c rest hrest =>
          simp only [Option.some.injEq, Prod.mk.injEq] at hnext
          obtain ⟨houtcome, -⟩ := hnext
          split at houtcome
          · next t ht =>
            cases houtcome
            exact Token.isLegible_of_munch ht
          · cases houtcome
      · exact ih h

theorem eq_map_ok_of_mapM_id
    {ε α : Type} {xs : List (Except ε α)} {ys : List α}
    (h : xs.mapM id = .ok ys) : xs = ys.map .ok := by
  induction xs generalizing ys with
  | nil =>
      cases h
      rfl
  | cons x xs ih =>
      rw [List.mapM_cons] at h
      cases x with
      | error e => cases h
      | ok y =>
          cases hxs : xs.mapM id with
          | error e =>
              rw [hxs] at h
              cases h
          | ok zs =>
              rw [hxs] at h
              cases h
              rw [ih hxs]
              rfl

/-- All tokens of a text are legible. -/
theorem isLegible_of_lexemes
    {s : String} {ls : List Lexeme} (h : lexemes s = .ok ls) :
    ∀ t ∈ ls.map Lexeme.token, t.IsLegible := by
  intro t ht
  obtain ⟨l, hl, rfl⟩ := List.mem_map.mp ht
  apply isLegible_of_mem_readings (s := Scanner.ofText s)
  rw [eq_map_ok_of_mapM_id h]
  exact List.mem_map_of_mem hl

end Rulebook
