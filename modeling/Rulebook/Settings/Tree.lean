import Rulebook.Binary64.Basic

/-!
# Trees of settings

What is set is a tree: under the names of sections and settings there are values,
lists, or further names. A path leads from the root to a place in the tree, by
names and by positions in lists. What sets anything does so in a layer: it puts
trees at the ends of paths.
-/

namespace Rulebook

/-- The value that a setting is given: a truth value, a whole number, another
number or a text. -/
inductive SettingValue where
  | boolean (b : Bool)
  | integer (i : Int)
  | float (x : Binary64)
  | text (s : String)
deriving DecidableEq

/-- What is set at one place: nothing, a value, a list, or what stands under
names. -/
inductive SettingTree where
  | nothing
  | value (v : SettingValue)
  | list (items : List SettingTree)
  | branch (members : List (String × SettingTree))

/-- A step on a path: to what stands under a name, or to an item of a list,
counted from the end if the position is negative. -/
inductive SettingStep where
  | name (name : String)
  | item (position : Int)
deriving DecidableEq, Repr

/-- The way to a place in a tree. -/
abbrev SettingPath := List SettingStep

/-- Trees at the ends of paths, in the order in which they are put there. -/
abbrev SettingLayer := List (SettingPath × SettingTree)

namespace SettingTree

/-- What stands under names here. -/
def members : SettingTree → List (String × SettingTree)
  | .branch members => members
  | _ => []

/-- What stands under a name. -/
def member? (t : SettingTree) (name : String) : Option SettingTree :=
  t.members.lookup name

/-- Whether there are names here, perhaps none. -/
def IsTable (t : SettingTree) : Prop := ∃ members, t = .branch members

/-- The value here, converted. There is no conversion of lists and tables. -/
def convert? {α : Type} (convert : SettingValue → Option α) :
    SettingTree → Option α
  | .value v => convert v
  | _ => none

/-- Whether a section can be here: names, or a list of its settings in their
order. -/
def isSection : SettingTree → Bool
  | .list _ => true
  | .branch _ => true
  | _ => false

/-- What is here for the setting of a section that has the given name and the
given place among its settings. -/
def part? (t : SettingTree) (place : Nat) (name : String) :
    Option SettingTree :=
  match t with
  | .list items => items[place]?
  | t => t.member? name

/-- The value of a setting of a section, converted, or the given one if it is
not set. -/
def setting {α : Type} (t : SettingTree) (place : Nat) (name : String)
    (convert : SettingValue → Option α) (unset : α) : Option α :=
  match t.part? place name with
  | some part => part.convert? convert
  | none => some unset

/-- The section under a name, or the given one if there is nothing. -/
def sectionAt {α : Type} (t : SettingTree) (name : String)
    (read : SettingTree → Option α) (unset : α) : Option α :=
  match t.member? name with
  | some part => if part.isSection then read part else none
  | none => some unset

@[simp] theorem isTable_branch (members : List (String × SettingTree)) :
    (branch members).IsTable := ⟨members, rfl⟩

end SettingTree

end Rulebook
