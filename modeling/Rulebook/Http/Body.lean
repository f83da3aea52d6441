import Rulebook.Json.Reading
import Rulebook.Rule.Basic

/-!
# The bodies of requests

A body is read from left to right, and its first fault decides how it is
refused: as a text that is no JSON, or as JSON that is not what was asked for.
A structure is an object, or an array of its fields in their order. Members that
are no fields are only passed over, so whatever they hold has to be legible, but
need not have a value.
-/

namespace Rulebook.Http

open Json (Fault Outline)

/-- Reads a string. -/
def readString : Outline → Except Fault String
  | .atom (.string (some s)) => .ok s
  | value => .error value.mismatch

/-- Reads a string or null, which is the empty string. -/
def readStringOrNull : Outline → Except Fault String
  | .atom .null => .ok ""
  | value => readString value

/-- Reads an array of strings. -/
def readStrings : Outline → Except Fault (List String)
  | .array items closed => do
    let strings ← items.mapM readString
    if closed then return strings else throw .malformed
  | value => .error value.mismatch

/-- The connector of the given name. -/
def namedConnector (name : String) : Except Fault Connector :=
  match Connector.ofKeyword? name with
  | some k => .ok k
  | none => .error .misshapen

/-- Reads null and gives something else. -/
def readNull {α : Type} (result : α) : Outline → Except Fault α
  | .atom .null => .ok result
  | value => .error value.mismatch

/-- Reads a connector: its name, or an object with the name as its only key and
null under it. What is neither a string nor an object that begins with a name
is no text of JSON here. -/
def readConnector : Outline → Except Fault Connector
  | .atom (.string (some name)) => namedConnector name
  | .object ((some name, value) :: others) closed => do
    let k ← namedConnector name
    let k ← readNull k value
    if others.isEmpty && closed then return k else throw .malformed
  | _ => .error .malformed

/-- How a structure is read: the names of its fields in order, and what reading
one of them adds to what has been read. -/
structure Layout (α : Type) where
  names : List String
  read : String → Outline → α → Except Fault α

namespace Layout

variable {α : Type}

/-- Reads the members of an object; `seen` are the fields in front of them. -/
def readMembers (l : Layout α) (seen : List String) (found : α) :
    List (Option String × Outline) → Except Fault α
  | [] => .ok found
  | (none, _) :: _ => .error .malformed
  | (some name, value) :: rest =>
    if l.names.contains name then
      if seen.contains name then .error .misshapen
      else
        match l.read name value found with
        | .ok found => l.readMembers (name :: seen) found rest
        | .error fault => .error fault
    else if value.isComplete then l.readMembers seen found rest
    else .error .malformed

/-- Reads the items of an array as the fields of the given names. -/
def readItems (l : Layout α) (closed : Bool) (found : α) :
    List String → List Outline → Except Fault α
  | [], [] => if closed then .ok found else .error .malformed
  | [], _ :: _ => .error .malformed
  | _ :: _, [] => .error (if closed then .misshapen else .malformed)
  | name :: names, item :: items =>
    match l.read name item found with
    | .ok found => l.readItems closed found names items
    | .error fault => .error fault

/-- Reads the fields of a structure, of which nothing is known yet. -/
def readFields (l : Layout α) (nothing : α) : Outline → Except Fault α
  | .object members closed =>
    match l.readMembers [] nothing members with
    | .ok found => if closed then .ok found else .error .malformed
    | .error fault => .error fault
  | .array items closed => l.readItems closed nothing l.names items
  | value => .error value.mismatch

/-- Reads a body that is a structure: first its fields, which `complete` puts
together unless one is missing, and then what is behind. -/
def readBody {β : Type} (l : Layout α) (nothing : α) (complete : α → Option β)
    (text : String) : Except Fault β :=
  let document := Json.Document.ofText text
  match l.readFields nothing document.root with
  | .error fault => .error fault
  | .ok found =>
    match complete found with
    | none => .error .misshapen
    | some value => if document.trailing then .error .malformed else .ok value

end Layout

/-- The fields of a rule to be created or replaced. -/
structure DraftFields where
  name : Option String := none
  description : String := ""
  text : Option String := none

/-- How the fields of a rule are read. -/
def DraftFields.layout : Layout DraftFields where
  names := ["name", "description", "rule_string"]
  read name value found :=
    if name = "name" then
      (readString value).map fun s => { found with name := some s }
    else if name = "description" then
      (readStringOrNull value).map fun s => { found with description := s }
    else (readString value).map fun s => { found with text := some s }

/-- Reads what is given to create or to replace a rule. -/
def readDraft (body : String) : Except Fault RuleDraft :=
  DraftFields.layout.readBody {}
    (fun found => do return ⟨← found.name, found.description, ← found.text⟩)
    body

/-- The fields of a combination. -/
structure CombinationFields where
  sources : Option (List String) := none
  name : Option String := none
  description : String := ""
  connector : Option Connector := none

/-- How the fields of a combination are read. -/
def CombinationFields.layout : Layout CombinationFields where
  names := ["rule_ids", "name", "description", "operator"]
  read name value found :=
    if name = "rule_ids" then
      (readStrings value).map fun ids => { found with sources := some ids }
    else if name = "name" then
      (readString value).map fun s => { found with name := some s }
    else if name = "description" then
      (readStringOrNull value).map fun s => { found with description := s }
    else (readConnector value).map fun k => { found with connector := some k }

/-- Reads what is given to combine rules. -/
def readCombination (body : String) : Except Fault CombinationRequest :=
  CombinationFields.layout.readBody {}
    (fun found => do
      return ⟨← found.sources, ← found.name, found.description,
        ← found.connector⟩)
    body

/-- What is given to evaluate a rule. -/
structure EvaluationRequest where
  ruleId : String
  data : Json

/-- The fields of an evaluation. -/
structure EvaluationFields where
  ruleId : Option String := none
  data : Option Json := none

/-- How the fields of an evaluation are read. The data are within the body,
which takes one container. -/
def EvaluationFields.layout : Layout EvaluationFields where
  names := ["rule_id", "data"]
  read name value found :=
    if name = "rule_id" then
      (readString value).map fun s => { found with ruleId := some s }
    else
      (value.toJson (Json.maxDepth - 1)).map fun data =>
        { found with data := some data }

/-- Reads what is given to evaluate a rule. -/
def readEvaluation (body : String) : Except Fault EvaluationRequest :=
  EvaluationFields.layout.readBody {}
    (fun found => do return ⟨← found.ruleId, ← found.data⟩)
    body

end Rulebook.Http
