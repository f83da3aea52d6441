import Rulebook.Expression.Basic
import Rulebook.Json.Basic

/-!
# Expressions as JSON

An expression is an object of its connector, null for a single term, and its
terms. A term says of which type it is; a group has the connector and the terms
of its expression beside that.
-/

namespace Rulebook

/-- A scalar as JSON: the bare number, string or truth value. -/
def Scalar.toJson : Scalar → Json
  | .number x => .ofBinary64 x
  | .string s => .string s
  | .boolean b => .boolean b

mutual

/-- A term as JSON. -/
def Term.toJson : Term → Json
  | .condition c =>
    .object [("type", .string "condition"), ("field", .string c.field),
      ("operator", .string c.operator.symbol), ("value", c.value.toJson)]
  | .group e => .object (("type", .string "group") :: e.members)

/-- The members of an expression's JSON object. -/
def Expression.members : Expression → List (String × Json)
  | .single t =>
    [("connector", .null), ("terms", .array [t.toJson])]
  | .chain k ts =>
    [("connector", .string k.keyword), ("terms", .array ts.toJsons)]

/-- Several terms as JSON. -/
def Terms.toJsons : Terms → List Json
  | .pair a b => [a.toJson, b.toJson]
  | .cons a rest => a.toJson :: rest.toJsons

end

/-- An expression as JSON. -/
def Expression.toJson (e : Expression) : Json := .object e.members

end Rulebook
