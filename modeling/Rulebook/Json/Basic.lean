import Rulebook.Decimal

/-!
# JSON values

A number is a whole number or a double. The members of an object are kept in
their order, and among members of one name the last counts.
-/

namespace Rulebook

/-- A JSON value. -/
inductive Json where
  | null
  | boolean (value : Bool)
  | integer (value : Int)
  | double (value : Binary64)
  | string (value : String)
  | array (items : List Json)
  | object (members : List (String × Json))

namespace Json

/-- The types of JSON values. -/
inductive Shape where
  | null
  | boolean
  | number
  | string
  | array
  | object
deriving DecidableEq, Repr

/-- The name of a type in messages. -/
def Shape.name : Shape → String
  | .null => "null"
  | .boolean => "boolean"
  | .number => "number"
  | .string => "string"
  | .array => "array"
  | .object => "object"

/-- The type of a value. -/
def shape : Json → Shape
  | .null => .null
  | .boolean _ => .boolean
  | .integer _ => .number
  | .double _ => .number
  | .string _ => .string
  | .array _ => .array
  | .object _ => .object

/-- The double that a number stands for. -/
def number? : Json → Option Binary64
  | .integer i => some (.ofInt i)
  | .double x => some x
  | _ => none

/-- The string that a value is. -/
def string? : Json → Option String
  | .string s => some s
  | _ => none

/-- The items of an array. -/
def items? : Json → Option (List Json)
  | .array items => some items
  | _ => none

/-- The value of a number as JSON; what is no finite number has none. -/
def ofBinary64 (x : Binary64) : Json :=
  if x.isFinite then .double x else .null

/-- The last member of the given name in a list of members. -/
def lookup? (name : String) (members : List (String × Json)) : Option Json :=
  (members.reverse.find? fun m => m.1 == name).map Prod.snd

/-- The last member of the given name in an object. -/
def member? (name : String) : Json → Option Json
  | .object members => lookup? name members
  | _ => none

end Json

end Rulebook
