import Rulebook.Expression.Json
import Rulebook.Table

/-!
# Records

A record assigns scalars to field names. It is made from a flat JSON object, all
or nothing: one member that is no scalar, and there is no record.
-/

namespace Rulebook

/-- The values of the fields of one thing that rules are applied to. -/
structure Record where
  fields : Table Scalar

/-- Why a JSON value is no record. -/
inductive RecordError where
  | notAnObject (found : Json.Shape)
  | unsupportedValue (field : String) (found : Json.Shape)
deriving DecidableEq

/-- A record error in words. -/
def RecordError.message : RecordError → String
  | .notAnObject found => s!"记录必须是 JSON 对象, 实际为 {found.name}"
  | .unsupportedValue field found =>
    s!"字段 {field} 的值类型 {found.name} 不受支持"

/-- The scalar that a JSON value is. -/
def Scalar.ofJson? : Json → Option Scalar
  | .string s => some (.string s)
  | .boolean b => some (.boolean b)
  | value => value.number?.map .number

namespace Record

/-- The record without fields. -/
def empty : Record := ⟨.empty⟩

/-- The value of a field. -/
def get? (r : Record) (field : String) : Option Scalar := r.fields.get? field

/-- The record in which a field has the given value. -/
def insert (r : Record) (field : String) (value : Scalar) : Record :=
  ⟨r.fields.insert field value⟩

/-- The record of a list of fields and values; the later value counts. -/
def ofList (entries : List (String × Scalar)) : Record := ⟨.ofList entries⟩

/-- The record of JSON members, visited in the order of their names. -/
def ofMembers (members : Table Json) : Except RecordError Record :=
  members.entries.foldlM
    (fun r member =>
      match Scalar.ofJson? member.2 with
      | some value => .ok (r.insert member.1 value)
      | none => .error (.unsupportedValue member.1 member.2.shape))
    empty

/-- The record of a JSON object; of members with one name the last counts. -/
def ofJson : Json → Except RecordError Record
  | .object members => ofMembers (.ofList members)
  | value => .error (.notAnObject value.shape)

/-- A record as JSON. -/
def toJson (r : Record) : Json :=
  .object (r.fields.entries.map fun entry => (entry.1, entry.2.toJson))

@[simp] theorem get?_empty (field : String) : empty.get? field = none := rfl

@[simp] theorem get?_insert (r : Record) (field other : String)
    (value : Scalar) :
    (r.insert field value).get? other =
      if field = other then some value else r.get? other :=
  Table.get?_insert r.fields field other value

end Record

end Rulebook
