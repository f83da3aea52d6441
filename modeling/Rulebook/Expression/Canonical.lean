import Rulebook.Expression.Basic

/-!
# Canonical text

The one way in which an expression is written: one blank around operators and
connectors, none inside parentheses, numbers with their shortest digits. Rules
are stored in this form.
-/

namespace Rulebook

/-- The canonical text of a condition. -/
def Condition.canonical (c : Condition) : String :=
  c.field ++ " " ++ c.operator.symbol ++ " " ++ c.value.literal

mutual

/-- The canonical text of a term. -/
def Term.canonical : Term → String
  | .condition c => c.canonical
  | .group e => "(" ++ e.canonical ++ ")"

/-- The canonical text of an expression. -/
def Expression.canonical : Expression → String
  | .single t => t.canonical
  | .chain k ts => ts.canonical k

/-- The canonical texts of several terms with a connector between them. -/
def Terms.canonical (k : Connector) : Terms → String
  | .pair a b => a.canonical ++ " " ++ k.keyword ++ " " ++ b.canonical
  | .cons a rest =>
    a.canonical ++ " " ++ k.keyword ++ " " ++ Terms.canonical k rest

end

theorem Terms.canonical_cons (k : Connector) (a : Term) (rest : Terms) :
    Terms.canonical k (.cons a rest) =
      a.canonical ++ " " ++ k.keyword ++ " " ++ rest.canonical k := by
  rw [Terms.canonical]

end Rulebook
