import Rulebook.Operator
import Rulebook.Scalar

/-!
# Expressions

A rule is an expression: conditions joined by a connector, where parenthesised
groups are expressions again. On one level there is one connector, so `a AND b
OR c` has no expression while `(a AND b) OR c` has one. The types say so: a
level is a single term, or a chain of at least two terms with its connector.
-/

namespace Rulebook

/-- A comparison of a field of the record with a literal. -/
structure Condition where
  field : String
  operator : Operator
  value : Scalar
deriving DecidableEq

mutual

/-- One term of a level: a condition or a group in parentheses. -/
inductive Term where
  | condition (c : Condition)
  | group (body : Expression)

/-- One level: a single term, or a chain of terms joined by one connector. -/
inductive Expression where
  | single (term : Term)
  | chain (connector : Connector) (terms : Terms)

/-- Two or more terms. -/
inductive Terms where
  | pair (first second : Term)
  | cons (first : Term) (rest : Terms)

end

deriving instance DecidableEq for Term, Expression, Terms

namespace Terms

/-- The terms as a list. -/
def toList : Terms → List Term
  | .pair a b => [a, b]
  | .cons a rest => a :: rest.toList

/-- The terms `first`, `second` and all of a list after them. -/
def ofList (first second : Term) : List Term → Terms
  | [] => .pair first second
  | third :: rest => .cons first (ofList second third rest)

/-- One more term at the end. -/
def snoc : Terms → Term → Terms
  | .pair a b, t => .cons a (.pair b t)
  | .cons a rest, t => .cons a (rest.snoc t)

/-- The number of terms. -/
def size (ts : Terms) : Nat := ts.toList.length

@[simp] theorem toList_snoc (ts : Terms) (t : Term) :
    (ts.snoc t).toList = ts.toList ++ [t] :=
  match ts with
  | .pair _ _ => rfl
  | .cons _ rest => by simp [snoc, toList, toList_snoc rest t]

@[simp] theorem toList_ofList (first second : Term) (rest : List Term) :
    (ofList first second rest).toList = first :: second :: rest := by
  induction rest generalizing first second with
  | nil => rfl
  | cons third rest ih => simp [ofList, toList, ih]

theorem two_le_size (ts : Terms) : 2 ≤ ts.size :=
  match ts with
  | .pair _ _ => Nat.le_refl 2
  | .cons _ rest => by
    have := two_le_size rest
    simp only [size, toList, List.length_cons] at this ⊢
    omega

end Terms

namespace Expression

/-- The terms of the outermost level. -/
def terms : Expression → List Term
  | .single t => [t]
  | .chain _ ts => ts.toList

/-- The connector of the outermost level, if it has more than one term. -/
def connector? : Expression → Option Connector
  | .single _ => none
  | .chain k _ => some k

/-- Terms joined by a connector, which is dropped if there is one term only. -/
def join (k : Connector) (first : Term) : List Term → Expression
  | [] => .single first
  | second :: rest => .chain k (.ofList first second rest)

/-- One more term on the outermost level; a single term becomes a chain with
the given connector, and a chain keeps its own. -/
def snoc (e : Expression) (k : Connector) (t : Term) : Expression :=
  match e with
  | .single first => .chain k (.pair first t)
  | .chain own ts => .chain own (ts.snoc t)

@[simp] theorem terms_join (k : Connector) (first : Term) (rest : List Term) :
    (join k first rest).terms = first :: rest := by
  cases rest <;> simp [join, terms]

@[simp] theorem terms_snoc (e : Expression) (k : Connector) (t : Term) :
    (e.snoc k t).terms = e.terms ++ [t] := by
  cases e <;> simp [snoc, terms, Terms.toList]

end Expression

mutual

/-- The conditions of a term, from left to right. -/
def Term.conditions : Term → List Condition
  | .condition c => [c]
  | .group e => e.conditions

/-- The conditions of an expression on all levels, from left to right. -/
def Expression.conditions : Expression → List Condition
  | .single t => t.conditions
  | .chain _ ts => ts.conditions

/-- The conditions of several terms, from left to right. -/
def Terms.conditions : Terms → List Condition
  | .pair a b => a.conditions ++ b.conditions
  | .cons a rest => a.conditions ++ rest.conditions

end

mutual

/-- How deep groups are nested in a term. -/
def Term.depth : Term → Nat
  | .condition _ => 0
  | .group e => e.depth + 1

/-- How deep groups are nested in an expression. -/
def Expression.depth : Expression → Nat
  | .single t => t.depth
  | .chain _ ts => ts.depth

/-- How deep groups are nested in several terms. -/
def Terms.depth : Terms → Nat
  | .pair a b => max a.depth b.depth
  | .cons a rest => max a.depth rest.depth

end

mutual

/-- Whether two terms are alike, with numbers compared as numbers. -/
def Term.alike : Term → Term → Bool
  | .condition c, .condition d =>
    c.field == d.field && c.operator == d.operator && c.value.equal d.value
  | .group e, .group f => e.alike f
  | _, _ => false

/-- Whether two expressions are alike, with numbers compared as numbers: the
two zeros are alike, and what is not a number is not like itself. -/
def Expression.alike : Expression → Expression → Bool
  | .single t, .single u => t.alike u
  | .chain k ts, .chain l us => k == l && ts.alike us
  | _, _ => false

/-- Whether two rows of terms are alike, with numbers compared as numbers. -/
def Terms.alike : Terms → Terms → Bool
  | .pair a b, .pair c d => a.alike c && b.alike d
  | .cons a rest, .cons b others => a.alike b && rest.alike others
  | _, _ => false

end

end Rulebook
