import Rulebook.Binary64.Text

/-!
# Scalars

A scalar is what a condition compares: the literal of a rule, or the value of a
field in a record. There are three kinds of them, and no scalar of one kind is
ever converted to another.
-/

namespace Rulebook

/-- The kinds of scalars. -/
inductive Kind where
  | number
  | string
  | boolean
deriving DecidableEq, Repr

/-- The name of a kind in messages. -/
def Kind.name : Kind → String
  | .number => "number"
  | .string => "string"
  | .boolean => "boolean"

/-- A number, a string or a truth value. -/
inductive Scalar where
  | number (value : Binary64)
  | string (value : String)
  | boolean (value : Bool)
deriving DecidableEq

namespace Scalar

/-- The kind of a scalar. -/
def kind : Scalar → Kind
  | .number _ => .number
  | .string _ => .string
  | .boolean _ => .boolean

/-- The literal that stands for a scalar in a rule. A string is put between
quotes as it is. -/
def literal : Scalar → String
  | .number x => x.text
  | .string s => "'" ++ s ++ "'"
  | .boolean true => "true"
  | .boolean false => "false"

/-- Whether two scalars have one kind and are equal, numbers as numbers. -/
def equal : Scalar → Scalar → Bool
  | .number x, .number y => x.equal y
  | .string s, .string t => s == t
  | .boolean a, .boolean b => a == b
  | _, _ => false

end Scalar

end Rulebook
