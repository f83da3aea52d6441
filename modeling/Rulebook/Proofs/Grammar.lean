import Mathlib
import Rulebook.Expression.Parser

/-!
# The grammar of expressions

An expression is spelled by one list of tokens: a condition by three of them, a
group by those of its body between parentheses, and a level by those of its
terms with its connector in between.

The types of expressions leave no room for a level without terms, or for one
whose connector and number of terms do not fit. Loose expressions leave room
for both, so the grammar can be stated as a condition on arbitrary trees. The
proper ones among them are exactly the expressions.
-/

namespace Rulebook

/-! ## The tokens of an expression -/

/-- The tokens of a condition. -/
def Condition.tokens (c : Condition) : List Token :=
  [.field c.field, .operator c.operator, .literal c.value]

mutual

/-- The tokens of a term. -/
def Term.tokens : Term → List Token
  | .condition c => c.tokens
  | .group e => .opening :: (e.tokens ++ [.closing])

/-- The tokens of an expression. -/
def Expression.tokens : Expression → List Token
  | .single t => t.tokens
  | .chain k ts => ts.tokens k

/-- The tokens of several terms with a connector between them. -/
def Terms.tokens (k : Connector) : Terms → List Token
  | .pair a b => a.tokens ++ .connector k :: b.tokens
  | .cons a rest => a.tokens ++ .connector k :: Terms.tokens k rest

end

theorem Terms.tokens_snoc (k : Connector) (t : Term) :
    (ts : Terms) →
      (ts.snoc t).tokens k = ts.tokens k ++ .connector k :: t.tokens
  | .pair a b => by simp [Terms.snoc, Terms.tokens]
  | .cons a rest => by
      simp [Terms.snoc, Terms.tokens, Terms.tokens_snoc k t rest]

theorem Terms.depth_snoc (t : Term) :
    (ts : Terms) → (ts.snoc t).depth = max ts.depth t.depth
  | .pair a b => by simp [Terms.snoc, Terms.depth, Nat.max_assoc]
  | .cons a rest => by
      simp [Terms.snoc, Terms.depth, Terms.depth_snoc t rest, Nat.max_assoc]

theorem Terms.eq_of_toList_eq :
    {ts us : Terms} → ts.toList = us.toList → ts = us
  | .pair a b, .pair c d, h => by simpa [Terms.toList] using h
  | .pair a b, .cons c rest, h => by
      have hsize := rest.two_le_size
      have hlength := congrArg List.length h
      simp only [Terms.toList, List.length_cons, List.length_nil] at hlength
      simp only [Terms.size] at hsize
      omega
  | .cons a rest, .pair c d, h => by
      have hsize := rest.two_le_size
      have hlength := congrArg List.length h
      simp only [Terms.toList, List.length_cons, List.length_nil] at hlength
      simp only [Terms.size] at hsize
      omega
  | .cons a rest, .cons b others, h => by
      simp only [Terms.toList, List.cons.injEq] at h
      rw [h.1, Terms.eq_of_toList_eq h.2]

namespace Expression

/-- A level may be continued with a connector if it has that one already or
none yet. -/
def Accepts (e : Expression) (k : Connector) : Prop :=
  e.connector? = none ∨ e.connector? = some k

/-- The connector and the terms determine a level. -/
theorem eq_of_terms_eq
    {e f : Expression} (hconnector : e.connector? = f.connector?)
    (hterms : e.terms = f.terms) : e = f := by
  cases e with
  | single t =>
      cases f with
      | single u => simpa [terms] using hterms
      | chain l us => simp [connector?] at hconnector
  | chain k ts =>
      cases f with
      | single u => simp [connector?] at hconnector
      | chain l us =>
          simp only [connector?, Option.some.injEq] at hconnector
          simp only [terms] at hterms
          rw [hconnector, Terms.eq_of_toList_eq hterms]

theorem connector?_snoc
    {e : Expression} {k : Connector} (h : e.Accepts k) (t : Term) :
    (e.snoc k t).connector? = some k := by
  cases e with
  | single first => rfl
  | chain own ts =>
      simp only [Accepts, connector?] at h
      simpa [snoc, connector?] using h

theorem tokens_snoc
    {e : Expression} {k : Connector} (h : e.Accepts k) (t : Term) :
    (e.snoc k t).tokens = e.tokens ++ .connector k :: t.tokens := by
  cases e with
  | single first => rfl
  | chain own ts =>
      have hown : own = k := by simpa [Accepts, connector?] using h
      subst hown
      exact Terms.tokens_snoc own t ts

theorem depth_snoc (e : Expression) (k : Connector) (t : Term) :
    (e.snoc k t).depth = max e.depth t.depth := by
  cases e with
  | single first => rfl
  | chain own ts => exact Terms.depth_snoc t ts

end Expression

/-! ## Loose expressions -/

mutual

/-- One term of a loose level. -/
inductive LooseTerm where
  | condition (c : Condition)
  | group (body : LooseExpression)

/-- One loose level: any number of terms, with or without a connector. -/
inductive LooseExpression where
  | level (connector : Option Connector) (terms : LooseTerms)

/-- Any number of loose terms. -/
inductive LooseTerms where
  | nil
  | cons (first : LooseTerm) (rest : LooseTerms)

end

/-- The number of terms. -/
def LooseTerms.size : LooseTerms → Nat
  | .nil => 0
  | .cons _ rest => rest.size + 1

/-- The token between two terms of a level; nothing without a connector. -/
def Connector.separator (k : Option Connector) : List Token :=
  (k.map Token.connector).toList

mutual

/-- The tokens of a loose term. -/
def LooseTerm.tokens : LooseTerm → List Token
  | .condition c => c.tokens
  | .group e => .opening :: (e.tokens ++ [.closing])

/-- The tokens of a loose expression. -/
def LooseExpression.tokens : LooseExpression → List Token
  | .level k ts => ts.tokens k

/-- The tokens of loose terms, with those of the connector between them. -/
def LooseTerms.tokens (k : Option Connector) : LooseTerms → List Token
  | .nil => []
  | .cons a .nil => a.tokens
  | .cons a (.cons b rest) =>
      a.tokens ++ Connector.separator k ++ LooseTerms.tokens k (.cons b rest)

end

mutual

/-- How deep groups are nested in a loose term. -/
def LooseTerm.depth : LooseTerm → Nat
  | .condition _ => 0
  | .group e => e.depth + 1

/-- How deep groups are nested in a loose expression. -/
def LooseExpression.depth : LooseExpression → Nat
  | .level _ ts => ts.depth

/-- How deep groups are nested in loose terms. -/
def LooseTerms.depth : LooseTerms → Nat
  | .nil => 0
  | .cons a rest => max a.depth rest.depth

end

mutual

/-- Whether all levels of a loose term are proper. -/
def LooseTerm.IsProper : LooseTerm → Prop
  | .condition _ => True
  | .group e => e.IsProper

/-- Whether every level has at least one term, and a connector exactly when it
has two or more. -/
def LooseExpression.IsProper : LooseExpression → Prop
  | .level k ts =>
      1 ≤ ts.size ∧ (k.isSome ↔ 2 ≤ ts.size) ∧ ts.AreProper

/-- Whether all levels of loose terms are proper. -/
def LooseTerms.AreProper : LooseTerms → Prop
  | .nil => True
  | .cons a rest => a.IsProper ∧ rest.AreProper

end

/-! ## Expressions as loose expressions -/

mutual

/-- A term as a loose one. -/
def Term.loose : Term → LooseTerm
  | .condition c => .condition c
  | .group e => .group e.loose

/-- An expression as a loose one. -/
def Expression.loose : Expression → LooseExpression
  | .single t => .level none (.cons t.loose .nil)
  | .chain k ts => .level (some k) ts.loose

/-- Two or more terms as loose ones. -/
def Terms.loose : Terms → LooseTerms
  | .pair a b => .cons a.loose (.cons b.loose .nil)
  | .cons a rest => .cons a.loose rest.loose

end

theorem Terms.size_loose : (ts : Terms) → ts.loose.size = ts.size
  | .pair a b => rfl
  | .cons a rest => by
      simp [Terms.loose, LooseTerms.size, Terms.size_loose rest, Terms.size,
        Terms.toList]

theorem Terms.exists_loose_eq_cons (ts : Terms) :
    ∃ a rest, ts.loose = .cons a rest := by
  cases ts with
  | pair a b => exact ⟨_, _, rfl⟩
  | cons a rest => exact ⟨_, _, rfl⟩

mutual

theorem Term.tokens_loose : (t : Term) → t.loose.tokens = t.tokens
  | .condition c => rfl
  | .group e => by
      rw [Term.loose, LooseTerm.tokens, Term.tokens, Expression.tokens_loose e]

theorem Expression.tokens_loose :
    (e : Expression) → e.loose.tokens = e.tokens
  | .single t => by
      rw [Expression.loose, LooseExpression.tokens, LooseTerms.tokens,
        Expression.tokens, Term.tokens_loose t]
  | .chain k ts => by
      rw [Expression.loose, LooseExpression.tokens, Expression.tokens,
        Terms.tokens_loose k ts]

theorem Terms.tokens_loose (k : Connector) :
    (ts : Terms) → ts.loose.tokens (some k) = ts.tokens k
  | .pair a b => by
      simp [Terms.loose, LooseTerms.tokens, Terms.tokens, Connector.separator,
        Term.tokens_loose a, Term.tokens_loose b]
  | .cons a rest => by
      obtain ⟨b, others, hrest⟩ := rest.exists_loose_eq_cons
      have ih := Terms.tokens_loose k rest
      rw [hrest] at ih
      rw [Terms.loose, hrest, LooseTerms.tokens, ih, Terms.tokens,
        Term.tokens_loose a]
      simp [Connector.separator]

end

mutual

theorem Term.depth_loose : (t : Term) → t.loose.depth = t.depth
  | .condition c => rfl
  | .group e => by
      rw [Term.loose, LooseTerm.depth, Term.depth, Expression.depth_loose e]

theorem Expression.depth_loose : (e : Expression) → e.loose.depth = e.depth
  | .single t => by
      simp [Expression.loose, LooseExpression.depth, LooseTerms.depth,
        Expression.depth, Term.depth_loose t]
  | .chain k ts => by
      rw [Expression.loose, LooseExpression.depth, Expression.depth,
        Terms.depth_loose ts]

theorem Terms.depth_loose : (ts : Terms) → ts.loose.depth = ts.depth
  | .pair a b => by
      simp [Terms.loose, LooseTerms.depth, Terms.depth, Term.depth_loose a,
        Term.depth_loose b]
  | .cons a rest => by
      rw [Terms.loose, LooseTerms.depth, Terms.depth, Term.depth_loose a,
        Terms.depth_loose rest]

end

mutual

theorem Term.isProper_loose : (t : Term) → t.loose.IsProper
  | .condition c => by rw [Term.loose, LooseTerm.IsProper]; trivial
  | .group e => by
      rw [Term.loose, LooseTerm.IsProper]
      exact Expression.isProper_loose e

theorem Expression.isProper_loose : (e : Expression) → e.loose.IsProper
  | .single t => by
      have ih := Term.isProper_loose t
      simpa [Expression.loose, LooseExpression.IsProper, LooseTerms.size,
        LooseTerms.AreProper] using ih
  | .chain k ts => by
      have hsize := ts.two_le_size
      rw [Expression.loose, LooseExpression.IsProper, Terms.size_loose]
      exact ⟨by omega, by simpa using hsize, Terms.areProper_loose ts⟩

theorem Terms.areProper_loose : (ts : Terms) → ts.loose.AreProper
  | .pair a b => by
      have iha := Term.isProper_loose a
      have ihb := Term.isProper_loose b
      simpa [Terms.loose, LooseTerms.AreProper] using And.intro iha ihb
  | .cons a rest => by
      rw [Terms.loose, LooseTerms.AreProper]
      exact ⟨Term.isProper_loose a, Terms.areProper_loose rest⟩

end

mutual

theorem LooseTerm.exists_loose_eq :
    (x : LooseTerm) → x.IsProper → ∃ t : Term, t.loose = x
  | .condition c, _ => ⟨.condition c, by rw [Term.loose]⟩
  | .group body, h => by
      rw [LooseTerm.IsProper] at h
      obtain ⟨e, rfl⟩ := LooseExpression.exists_loose_eq body h
      exact ⟨.group e, by rw [Term.loose]⟩

/-- A loose expression all of whose levels are proper is an expression. -/
theorem LooseExpression.exists_loose_eq :
    (x : LooseExpression) → x.IsProper → ∃ e : Expression, e.loose = x
  | .level k .nil, h => by
      simp [LooseExpression.IsProper, LooseTerms.size] at h
  | .level k (.cons a .nil), h => by
      simp only [LooseExpression.IsProper, LooseTerms.size,
        LooseTerms.AreProper] at h
      obtain ⟨-, hk, ha, -⟩ := h
      have hk : k = none := by simpa using hk
      subst hk
      obtain ⟨t, rfl⟩ := LooseTerm.exists_loose_eq a ha
      exact ⟨.single t, by rw [Expression.loose]⟩
  | .level k (.cons a (.cons b rest)), h => by
      rw [LooseExpression.IsProper] at h
      obtain ⟨-, hk, hproper⟩ := h
      have hk : k.isSome := hk.mpr (by simp [LooseTerms.size])
      obtain ⟨own, rfl⟩ := Option.isSome_iff_exists.mp hk
      obtain ⟨ts, hts⟩ :=
        LooseTerms.exists_loose_eq (.cons a (.cons b rest)) hproper
          (by simp [LooseTerms.size])
      exact ⟨.chain own ts, by rw [Expression.loose, hts]⟩

theorem LooseTerms.exists_loose_eq :
    (xs : LooseTerms) → xs.AreProper → 2 ≤ xs.size →
      ∃ ts : Terms, ts.loose = xs
  | .nil, _, hsize => by simp [LooseTerms.size] at hsize
  | .cons a .nil, _, hsize => by simp [LooseTerms.size] at hsize
  | .cons a (.cons b .nil), h, _ => by
      simp only [LooseTerms.AreProper] at h
      obtain ⟨ha, hb, -⟩ := h
      obtain ⟨t, rfl⟩ := LooseTerm.exists_loose_eq a ha
      obtain ⟨u, rfl⟩ := LooseTerm.exists_loose_eq b hb
      exact ⟨.pair t u, by rw [Terms.loose]⟩
  | .cons a (.cons b (.cons c rest)), h, _ => by
      rw [LooseTerms.AreProper] at h
      obtain ⟨ha, hrest⟩ := h
      obtain ⟨t, rfl⟩ := LooseTerm.exists_loose_eq a ha
      obtain ⟨ts, hts⟩ :=
        LooseTerms.exists_loose_eq (.cons b (.cons c rest)) hrest
          (by simp [LooseTerms.size])
      exact ⟨.cons t ts, by rw [Terms.loose, hts]⟩

end

end Rulebook
