import Rulebook.Settings.Tree

/-!
# Libraries of settings

Settings are loaded by means of a library that is not part of this one. It reads
files and variables as layers, puts trees at the ends of paths, and converts
values. Whatever is loaded depends on it, so it is given to all that loads.

A library is lawful if it does what such libraries say of themselves. Each law is
about one step: one name on a path, one file, one variable.
-/

namespace Rulebook

namespace Text

/-- The path to what a name leads to from a directory. -/
def joinPath (directory name : String) : String :=
  if name.toList.head? = some '/' then name
  else if directory = "" ∨ directory.toList.getLast? = some '/' then
    directory ++ name
  else directory ++ "/" ++ name

/-- Whether there are only characters of ASCII in a text. -/
def IsAscii (s : String) : Prop := ∀ c ∈ s.toList, c.toNat < 0x80

/-- Whether no separator begins in a text, not even if one stands behind it. -/
def isFreeOf (separator : List Char) : List Char → Bool
  | [] => true
  | c :: rest =>
    !separator.isPrefixOf (c :: rest ++ separator) && isFreeOf separator rest

end Text

/-- Which variables of the environment set something: how their names begin, what
joins the rest to that, and what separates the names on the way. Values may be
read as truth values and numbers, or stay texts. -/
structure VariableScheme where
  beginning : String
  joint : String
  separator : String
  areParsed : Bool

/-- A variable is named after what it sets: behind the beginning stand the names
that lead there. Capitals do not matter. -/
structure VariableScheme.IsNamedAfter (scheme : VariableScheme)
    (names : List String) (variableName : String) : Prop where
  isAscii : Text.IsAscii variableName
  ne_nil : names ≠ []
  ne_empty : ∀ name ∈ names, name ≠ ""
  isLower : ∀ name ∈ names, ∀ c ∈ name.toList, c.isLower = true ∨ c = '_'
  isFreeOf : ∀ name ∈ names,
    Text.isFreeOf scheme.separator.toList name.toList = true
  toLower_eq : variableName.toLower =
    (scheme.beginning ++ scheme.joint).toLower ++
      scheme.separator.intercalate names

/-- What loading settings needs of a library. -/
structure SettingLibrary where
  /-- What the text of a file sets, if nothing is wrong with it. -/
  read? : String → Option SettingLayer
  /-- What the file sets to which a path leads, and whether it has to be there.
  Files are texts under their paths. -/
  file? (isRequired : Bool) (files : List (String × String)) (path : String) :
    Option SettingLayer
  /-- The value that is assigned to a variable by a text. -/
  value (areParsed : Bool) (text : String) : SettingValue
  /-- What a variable sets that has the given name and text. -/
  assignment? : VariableScheme → String × String → Option (SettingPath × SettingTree)
  /-- A tree in which another one is put at the end of a path. -/
  put (path : SettingPath) (u t : SettingTree) : SettingTree
  toText? : SettingValue → Option String
  toNatural? : SettingValue → Option Nat
  toPort? : SettingValue → Option Nat
  toBoolean? : SettingValue → Option Bool

namespace SettingLibrary

/-- What a library says of itself. Tables that are put where others are become
one table, name by name; all else takes the place of what was there. A name on a
path leads into a table, and a position into a list. A file that need not be
there may be missing. A variable sets what it is named after. -/
structure IsLawful (lib : SettingLibrary) : Prop where
  put_nil_of_not_isTable : ∀ u t, ¬u.IsTable → lib.put [] u t = u
  isTable_put_nil : ∀ u t, u.IsTable → (lib.put [] u t).IsTable
  member?_put_nil : ∀ u t name, u.IsTable →
    (lib.put [] u t).member? name =
      match u.member? name with
      | some v => some (lib.put [] v ((t.member? name).getD .nothing))
      | none => t.member? name
  isTable_put_name : ∀ name path u t, (lib.put (.name name :: path) u t).IsTable
  member?_put_name : ∀ name path u t other,
    (lib.put (.name name :: path) u t).member? other =
      if other = name then
        some (lib.put path u ((t.member? name).getD .nothing))
      else t.member? other
  put_item : ∀ position path u t, ∃ items,
    lib.put (.item position :: path) u t = .list items
  file?_of_lookup : ∀ isRequired files directory name text,
    name ≠ "" → '/' ∉ name.toList →
    files.lookup (Text.joinPath directory (name ++ ".toml")) = some text →
    lib.file? isRequired files (Text.joinPath directory (name ++ ".toml")) =
      lib.read? text
  file?_of_forall_not_isInfix : ∀ (files : List (String × String)) directory name,
    name ≠ "" → '/' ∉ name.toList →
    (∀ f ∈ files, ¬(name ++ ".toml").toList <:+: f.1.toList) →
    lib.file? false files (Text.joinPath directory (name ++ ".toml")) = some []
  begins_of_file? : ∀ isRequired files path layer,
    lib.file? isRequired files path = some layer →
    ∀ a ∈ layer, ∃ name rest, a.1 = .name name :: rest
  assignment?_of_isNamedAfter : ∀ (scheme : VariableScheme) names v,
    scheme.IsNamedAfter names v.1 →
    lib.assignment? scheme v =
      some (names.map .name, .value (lib.value scheme.areParsed v.2))
  assignment?_of_not_isPrefix : ∀ (scheme : VariableScheme) v,
    Text.IsAscii (scheme.beginning ++ scheme.joint) → Text.IsAscii v.1 →
    ¬(scheme.beginning ++ scheme.joint).toLower.toList <+: v.1.toLower.toList →
    lib.assignment? scheme v = none
  begins_of_assignment? : ∀ scheme v a, lib.assignment? scheme v = some a →
    ∃ name rest, a.1 = .name name :: rest

/-- All that layers set, each of them laid over the ones before. -/
def build (lib : SettingLibrary) (layers : List SettingLayer) : SettingTree :=
  layers.flatten.foldl (fun t a => lib.put a.1 a.2 t) (.branch [])

end SettingLibrary

end Rulebook
