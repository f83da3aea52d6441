import Rulebook.Json.Structure
import Rulebook.Rule.Basic

/-!
# Rules as JSON

How rules, and what is given to create and to combine them, are read and
written.
-/

namespace Rulebook

/-- The operator that a JSON value names. -/
def Operator.ofJson? (value : Json) : Option Operator :=
  value.alternative?.bind ofSymbol?

/-- The connector that a JSON value names. -/
def Connector.ofJson? (value : Json) : Option Connector :=
  value.alternative?.bind ofKeyword?

/-- The point in time that a JSON value denotes. -/
def Instant.ofJson? (value : Json) : Option Instant :=
  value.string?.bind ofText?

namespace Rule

/-- The fields of a rule in JSON. -/
def fieldNames : List String :=
  ["id", "name", "description", "rule_string", "created_at", "updated_at",
    "parent_rules"]

/-- The rule that a JSON value describes; times that are absent are `now`. -/
def ofJson? (now : Instant) (value : Json) : Option Rule := do
  let field ← value.fields? fieldNames
  return {
    id := ← Json.required Json.string? (field "id")
    name := ← Json.required Json.string? (field "name")
    description := ← Json.optional "" Json.string? (field "description")
    text := ← Json.required Json.string? (field "rule_string")
    createdAt := ← Json.optional now Instant.ofJson? (field "created_at")
    updatedAt := ← Json.optional now Instant.ofJson? (field "updated_at")
    parents := ← Json.optional [] Json.strings? (field "parent_rules") }

/-- The members of a rule's JSON object. -/
def members (r : Rule) : List (String × Json) :=
  [("id", .string r.id), ("name", .string r.name),
    ("description", .string r.description), ("rule_string", .string r.text),
    ("created_at", .string r.createdAt.text),
    ("updated_at", .string r.updatedAt.text),
    ("parent_rules", .array (r.parents.map .string))]

/-- A rule as JSON. -/
def toJson (r : Rule) : Json := .object r.members

end Rule

/-- What is given to create a rule, read from JSON. -/
def RuleDraft.ofJson? (value : Json) : Option RuleDraft := do
  let field ← value.fields? ["name", "description", "rule_string"]
  return {
    name := ← Json.required Json.string? (field "name")
    description := ← Json.optional "" Json.string? (field "description")
    text := ← Json.required Json.string? (field "rule_string") }

/-- What is given to combine rules, read from JSON. -/
def CombinationRequest.ofJson? (value : Json) :
    Option CombinationRequest := do
  let field ← value.fields? ["rule_ids", "name", "description", "operator"]
  return {
    sources := ← Json.required Json.strings? (field "rule_ids")
    name := ← Json.required Json.string? (field "name")
    description := ← Json.optional "" Json.string? (field "description")
    connector := ← Json.required Connector.ofJson? (field "operator") }

/-- A report on an evaluation as JSON. -/
def Report.toJson (r : Report) : Json :=
  .object [("rule_id", .string r.ruleId), ("rule_name", .string r.ruleName),
    ("rule_string", .string r.ruleText), ("result", .boolean r.holds),
    ("matched_conditions", .array (r.matched.map .string)),
    ("evaluation_trace", .array (r.trace.map .string))]

end Rulebook
