import Rulebook.Json.Basic
import Rulebook.Table

/-!
# Structures in JSON

A structure is given as an object, or as an array of its fields in their order.
Members that are no fields are ignored, and fields that are absent may have a
value of their own. An alternative is given by its name, or as an object with
the name as its only key and null under it.
-/

namespace Rulebook.Json

/-- The values of the given fields of a structure; there are none if the value
is no structure, or an array with more items than there are fields. -/
def fields? (names : List String) : Json → Option (String → Option Json)
  | .object members => some fun name => lookup? name members
  | .array items =>
    if names.length < items.length then none
    else some fun name => (names.zip items).lookup name
  | _ => none

/-- A field that has to be present. -/
def required {α : Type} (read : Json → Option α) (field : Option Json) :
    Option α :=
  field.bind read

/-- A field that may be absent. -/
def optional {α : Type} (absent : α) (read : Json → Option α) :
    Option Json → Option α
  | none => some absent
  | some value => read value

/-- An array of strings. -/
def strings? (value : Json) : Option (List String) :=
  value.items?.bind fun items => items.mapM string?

/-- The name of an alternative. -/
def alternative? : Json → Option String
  | .string name => some name
  | .object members =>
    match (Table.ofList members).entries with
    | [(name, .null)] => some name
    | _ => none
  | _ => none

end Rulebook.Json
