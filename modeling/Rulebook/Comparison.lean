import Rulebook.Operator
import Rulebook.Scalar

/-!
# Comparing a field with a literal

Equality is defined between scalars of one kind, and the four operators of order
between numbers only. Nothing is converted: a comparison for which there is no
rule is an error that says what was wrong.
-/

namespace Rulebook

/-- Why a field and a literal cannot be compared. -/
inductive ComparisonError where
  | notNumeric (op : Operator) (found : Kind)
  | typeMismatch (field literal : Kind)
  | unsupportedOperator (op : Operator) (kind : Kind)
deriving DecidableEq

/-- A comparison error in words. -/
def ComparisonError.message : ComparisonError → String
  | .notNumeric op found => s!"操作符 {op.symbol} 需要数值, 实际为 {found.name}"
  | .typeMismatch field literal =>
    s!"类型不匹配: 字段值为 {field.name}, 字面量为 {literal.name}"
  | .unsupportedOperator op kind =>
    s!"操作符 {op.symbol} 不支持类型 {kind.name}"

namespace Operator

/-- The relation between numbers that an operator stands for. -/
def relates : Operator → Binary64 → Binary64 → Bool
  | .greater, x, y => y.less x
  | .less, x, y => x.less y
  | .greaterOrEqual, x, y => y.atMost x
  | .lessOrEqual, x, y => x.atMost y
  | .equal, x, y => x.equal y
  | .notEqual, x, y => !x.equal y

/-- Whether the value of a field and a literal are equal, if they are of one
kind. -/
def equality (field literal : Scalar) : Except ComparisonError Bool :=
  if field.kind = literal.kind then .ok (field.equal literal)
  else .error (.typeMismatch field.kind literal.kind)

/-- Whether an operator of order holds, if it is given numbers. A literal that
is no number is reported for a field that is one, and the field otherwise,
except that strings are said to have no order. -/
def ordering (op : Operator) (field literal : Scalar) :
    Except ComparisonError Bool :=
  match field, literal with
  | .number x, .number y => .ok (op.relates x y)
  | .string _, .string _ => .error (.unsupportedOperator op .string)
  | .number _, literal => .error (.notNumeric op literal.kind)
  | field, _ => .error (.notNumeric op field.kind)

/-- Whether an operator holds between the value of a field and a literal. -/
def holds (op : Operator) (field literal : Scalar) :
    Except ComparisonError Bool :=
  match op with
  | .equal => equality field literal
  | .notEqual => (equality field literal).map (!·)
  | op => op.ordering field literal

end Operator

end Rulebook
