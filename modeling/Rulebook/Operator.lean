/-!
# Operators and connectors

The six operators that compare a field with a literal, and the two connectors
that join conditions. Each has one spelling, used in rules, in canonical texts
and in JSON alike.
-/

namespace Rulebook

/-- A comparison between a field and a literal. -/
inductive Operator where
  | greater
  | less
  | equal
  | greaterOrEqual
  | lessOrEqual
  | notEqual
deriving DecidableEq, Repr

namespace Operator

/-- All operators. -/
def all : List Operator :=
  [.greater, .less, .equal, .greaterOrEqual, .lessOrEqual, .notEqual]

/-- The spelling of an operator. -/
def symbol : Operator → String
  | .greater => ">"
  | .less => "<"
  | .equal => "="
  | .greaterOrEqual => ">="
  | .lessOrEqual => "<="
  | .notEqual => "!="

/-- The operator with the given spelling. -/
def ofSymbol? (s : String) : Option Operator :=
  all.find? fun op => op.symbol == s

theorem ofSymbol?_symbol (op : Operator) : ofSymbol? op.symbol = some op := by
  cases op <;> decide

end Operator

/-- What joins the terms of one level of an expression. -/
inductive Connector where
  | and
  | or
deriving DecidableEq, Repr

namespace Connector

/-- All connectors. -/
def all : List Connector := [.and, .or]

/-- The keyword of a connector. -/
def keyword : Connector → String
  | .and => "AND"
  | .or => "OR"

/-- The connector with the given keyword, in capitals only. -/
def ofKeyword? (s : String) : Option Connector :=
  all.find? fun k => k.keyword == s

theorem ofKeyword?_keyword (k : Connector) : ofKeyword? k.keyword = some k := by
  cases k <;> decide

/-- The verdict on one term that settles the whole level: a conjunction is
settled by a false term, a disjunction by a true one. -/
def settledBy : Connector → Bool
  | .and => false
  | .or => true

end Connector

end Rulebook
