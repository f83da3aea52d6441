import Rulebook.Settings.Plain.File
import Rulebook.Settings.Plain.Variables
import Rulebook.Text.Split

/-!
# The plain library of settings

A library that reads plain files only. It serves to load settings where there is
no other one.
-/

namespace Rulebook.Plain

/-! ## Trees -/

mutual

/-- A tree with another one laid over it. -/
def overlay (t : SettingTree) : SettingTree → SettingTree
  | .branch members => .branch (overlayMembers t.members members)
  | other => other

/-- Members with others laid over them. -/
def overlayMembers (old : List (String × SettingTree)) :
    List (String × SettingTree) → List (String × SettingTree)
  | [] => old
  | (name, u) :: rest =>
    (name, overlay ((old.lookup name).getD .nothing) u) :: overlayMembers old rest

end

/-- A list that is long enough for a position, and the index of the position in
it. Room is made with nothing in it, in front for a negative position. -/
def makeRoom (items : List SettingTree) (position : Int) :
    List SettingTree × Nat :=
  let size := position.natAbs
  if 0 ≤ position then
    (items ++ List.replicate (size + 1 - items.length) .nothing, size)
  else
    (List.replicate (size - items.length) .nothing ++ items,
      items.length - size)

/-- The items of the list that is here. -/
def items : SettingTree → List SettingTree
  | .list items => items
  | _ => []

/-- A tree in which another one is laid over what is at the end of a path. -/
def put : SettingPath → SettingTree → SettingTree → SettingTree
  | [], u, t => overlay t u
  | .name name :: path, u, t =>
    .branch ((name, put path u ((t.member? name).getD .nothing)) :: t.members)
  | .item position :: path, u, t =>
    let room := makeRoom (items t) position
    .list (room.1.set room.2 (put path u (room.1.getD room.2 .nothing)))

/-! ## Files -/

/-- The directories that a path leads through and the name that it has in the last
of them. Steps that stay in a directory are passed over; a path that leads up or
starts at the root leads nowhere here. -/
def steps? (path : String) : Option (List (List Char)) :=
  let steps := Text.split '/' path.toList
  let above := steps.dropLast
  if above.head? == some [] || above.contains ['.', '.'] then none
  else
    some ((above.filter fun s => s != [] && s != ['.']) ++
      steps.drop above.length)

/-- The text of the file to which a path leads. -/
def fileAt? (files : List (String × String)) (path : String) : Option String :=
  match files.lookup path with
  | some text => some text
  | none =>
    (steps? path).bind fun steps =>
      (files.reverse.find? fun f => steps? f.1 == some steps).map Prod.snd

/-- Whether a file has an ending and no name. -/
def isNameless (path : String) : Bool :=
  "/.toml".toList.isSuffixOf ('/' :: path.toList)

/-- The text that is read for a path. If there is no such file, one that has the
ending twice is taken; a file that has an ending and no name is not read. -/
def text? (files : List (String × String)) (path : String) : Option String :=
  match fileAt? files path with
  | some text => if isNameless path then none else some text
  | none => fileAt? files (path ++ ".toml")

/-- What the file sets to which a path leads. -/
def file? (isRequired : Bool) (files : List (String × String)) (path : String) :
    Option SettingLayer :=
  match text? files path with
  | some text => File.read? text
  | none => if isRequired then none else some []

/-- The plain library. -/
def library : SettingLibrary where
  read? := File.read?
  file? := file?
  value := Variable.value
  assignment? := Variable.set?
  put := put
  toText? v := some (toText v)
  toNatural? := toNatural?
  toPort? := toPort?
  toBoolean? := toBoolean?

end Rulebook.Plain
