import Rulebook.Json.Outline

/-!
# Reading JSON values

The value of a text is read from its outline, from left to right, and the first
fault on the way decides what is wrong with it.

An object may embed a value as a text: its only member has a name that is kept
for this, and the string under that name is a JSON text, whose value the object
stands for. The text is read for itself, so it may hold containers as deep as
any other text, and its faults are no faults in the syntax of the text around
it.
-/

namespace Rulebook.Json

/-- What is wrong with a text: it is no JSON, or it is not of the shape that is
asked for. -/
inductive Fault where
  | malformed
  | misshapen
deriving DecidableEq, Repr

/-- The value of an atom, if it has one: a number too large for a double and a
string without characters have none. -/
def Atom.toJson? : Atom → Option Json
  | .null => some .null
  | .boolean b => some (.boolean b)
  | .number n => n.toJson?
  | .string s => s.map .string

/-- The name of a member under which a value is embedded as a text. -/
def embeddingName : String := "$serde_json::private::RawValue"

/-- How many containers may be inside each other in a text. -/
def maxDepth : Nat := 127

namespace Outline

/-- The fault of a value that is not of the type asked for. An atom is read
before it is refused, a container is not. -/
def mismatch : Outline → Fault
  | .broken => .malformed
  | .atom value => if value.toJson?.isSome then .misshapen else .malformed
  | _ => .misshapen

/-- What is embedded in an object with the given members, if the first one says
that something is. -/
def embedded? : List (Option String × Outline) → Option Outline
  | (some name, value) :: _ => if name = embeddingName then some value else none
  | _ => none

/-- The value embedded as a text, which `read` reads. -/
def embeddedValue (read : String → Option Json) :
    Outline → Except Fault Json
  | .atom (.string (some text)) =>
    match read text with
    | some value => .ok value
    | none => .error .misshapen
  | value => .error value.mismatch

mutual

/-- The value of an outline that has at most `room` containers inside each
other, or its first fault. Embedded texts are read by `read`. -/
def valueWith (read : String → Option Json) (room : Nat) :
    Outline → Except Fault Json
  | .broken => .error .malformed
  | .atom value =>
    match value.toJson? with
    | some value => .ok value
    | none => .error .malformed
  | .array items closed =>
    if room = 0 then .error .malformed
    else
      match itemsWith read (room - 1) items with
      | .ok items => if closed then .ok (.array items) else .error .malformed
      | .error fault => .error fault
  | .object members closed =>
    if room = 0 then .error .malformed
    else
      match embedded? members with
      | some value =>
        match embeddedValue read value with
        | .ok value =>
          if closed && members.length == 1 then .ok value
          else .error .malformed
        | .error fault => .error fault
      | none =>
        match membersWith read (room - 1) members with
        | .ok members =>
          if closed then .ok (.object members) else .error .malformed
        | .error fault => .error fault

/-- The values of a list of outlines, or the first fault in them. -/
def itemsWith (read : String → Option Json) (room : Nat) :
    List Outline → Except Fault (List Json)
  | [] => .ok []
  | item :: rest =>
    match valueWith read room item with
    | .ok value => (itemsWith read room rest).map (value :: ·)
    | .error fault => .error fault

/-- The values of a list of members, or the first fault in them. -/
def membersWith (read : String → Option Json) (room : Nat) :
    List (Option String × Outline) → Except Fault (List (String × Json))
  | [] => .ok []
  | (none, _) :: _ => .error .malformed
  | (some name, value) :: rest =>
    match valueWith read room value with
    | .ok value => (membersWith read room rest).map ((name, value) :: ·)
    | .error fault => .error fault

end

end Outline

/-- The value of a text in which texts are embedded, one in the other, fewer
than `levels` deep. -/
def embeddedText? : Nat → String → Option Json
  | 0, _ => none
  | levels + 1, text =>
    let document := Document.ofText text
    if document.trailing then none
    else
      (document.root.valueWith (embeddedText? levels) maxDepth).toOption

/-- The value of an outline that has at most `room` containers inside each
other, or its first fault. An embedded text is shorter than the one around it,
so its length is a bound on what is embedded in it. -/
def Outline.toJson (room : Nat) (value : Outline) : Except Fault Json :=
  value.valueWith (fun text => embeddedText? (text.length + 1) text) room

/-- The value of a JSON text in which at most `room` containers are inside each
other. -/
def ofText? (room : Nat) (text : String) : Option Json :=
  let document := Document.ofText text
  if document.trailing then none else (document.root.toJson room).toOption

end Rulebook.Json
