import Rulebook.Json.Basic
import Rulebook.Json.Mark

/-!
# JSON as far as it is legible

An outline is what a text says up to its first syntax error. The error stands in
the outline as a broken value or a broken end, and all in front of it can still
be looked at. So a reader that wants a value of a certain shape meets the faults
of the text and the faults of its shape in the order in which they stand there.

Marks are read one at a time. What has been read is a stack of the containers
that are open, and how far the innermost one has got.
-/

namespace Rulebook.Json

/-- A value as far as it is legible. -/
inductive Outline where
  | broken
  | atom (value : Atom)
  | array (items : List Outline) (closed : Bool)
  | object (members : List (Option String × Outline)) (closed : Bool)

/-- The items of an open array, or the members of an open object and the name
of the next one; the last one stands first. -/
inductive Frame where
  | array (items : List Outline)
  | object (members : List (Option String × Outline)) (name : Option String)

/-- How far the innermost open container has got. -/
inductive Stage where
  | value
  | firstItem
  | afterItem (items : List Outline)
  | firstName
  | laterName (members : List (Option String × Outline))
  | colon (members : List (Option String × Outline)) (name : Option String)
  | afterMember (members : List (Option String × Outline))
  | complete (value : Outline)

/-- What has been read: the containers around the value being read, from the
inside out, and how far that value has got. -/
structure Sketch where
  frames : List Frame
  stage : Stage

namespace Sketch

/-- Nothing has been read. -/
def start : Sketch := ⟨[], .value⟩

/-- Puts a complete value where it belongs. -/
def place (frames : List Frame) (value : Outline) : Sketch :=
  match frames with
  | [] => ⟨[], .complete value⟩
  | .array items :: outer => ⟨outer, .afterItem (value :: items)⟩
  | .object members name :: outer =>
    ⟨outer, .afterMember ((name, value) :: members)⟩

/-- Reads a mark where a value must stand. -/
def stepValue (frames : List Frame) : Mark → Option Sketch
  | .atom value => some (place frames (.atom value))
  | .openArray => some ⟨frames, .firstItem⟩
  | .openObject => some ⟨frames, .firstName⟩
  | _ => none

/-- Reads a mark where the name of a member must stand. -/
def stepName (frames : List Frame)
    (members : List (Option String × Outline)) : Mark → Option Sketch
  | .atom (.string name) => some ⟨frames, .colon members name⟩
  | _ => none

/-- Reads a mark, if it may stand where it does. -/
def step (s : Sketch) (mark : Mark) : Option Sketch :=
  match s.stage, mark with
  | .value, mark => stepValue s.frames mark
  | .firstItem, .closeArray => some (place s.frames (.array [] true))
  | .firstItem, mark => stepValue (.array [] :: s.frames) mark
  | .afterItem items, .comma => some ⟨.array items :: s.frames, .value⟩
  | .afterItem items, .closeArray =>
    some (place s.frames (.array items.reverse true))
  | .firstName, .closeObject => some (place s.frames (.object [] true))
  | .firstName, mark => stepName s.frames [] mark
  | .laterName members, mark => stepName s.frames members mark
  | .colon members name, .colon => some ⟨.object members name :: s.frames, .value⟩
  | .afterMember members, .comma => some ⟨s.frames, .laterName members⟩
  | .afterMember members, .closeObject =>
    some (place s.frames (.object members.reverse true))
  | _, _ => none

/-- The value being read, broken off. -/
def broken (s : Sketch) : Outline :=
  match s.stage with
  | .value => .broken
  | .firstItem => .array [] false
  | .afterItem items => .array items.reverse false
  | .firstName => .object [] false
  | .laterName members => .object members.reverse false
  | .colon members name => .object ((name, .broken) :: members).reverse false
  | .afterMember members => .object members.reverse false
  | .complete value => value

/-- A container around a value that is broken off. -/
def enclose (value : Outline) : Frame → Outline
  | .array items => .array (value :: items).reverse false
  | .object members name => .object ((name, value) :: members).reverse false

/-- Reads marks to the end or to the first one that cannot stand where it does:
the value, and whether something stands behind it. -/
def read (s : Sketch) : List Mark → Outline × Bool
  | [] => (s.frames.foldl enclose s.broken, false)
  | mark :: rest =>
    match s.step mark with
    | some next => next.read rest
    | none =>
      match s.stage with
      | .complete value => (value, true)
      | _ => (s.frames.foldl enclose s.broken, false)

end Sketch

/-- A text as far as it is legible: its value, and whether anything stands
behind that. -/
structure Document where
  root : Outline
  trailing : Bool

/-- The outline of a text. -/
def Document.ofText (text : String) : Document :=
  let reading := Sketch.start.read (marks text.toList)
  ⟨reading.1, reading.2⟩

namespace Outline

mutual

/-- Whether an outline is complete, at any depth and whatever its atoms
mean. -/
def isComplete : Outline → Bool
  | .broken => false
  | .atom _ => true
  | .array items closed => closed && allComplete items
  | .object members closed => closed && allMembersComplete members

/-- Whether all outlines of a list are complete. -/
def allComplete : List Outline → Bool
  | [] => true
  | item :: rest => item.isComplete && allComplete rest

/-- Whether the values of all members are complete. -/
def allMembersComplete : List (Option String × Outline) → Bool
  | [] => true
  | (_, value) :: rest => value.isComplete && allMembersComplete rest

end

end Outline

end Rulebook.Json
