/-!
# Media types

A media type is a type, a slash and a subtype, behind which parameters may
stand. A body is taken as JSON if its media type is `application/json` or has
the suffix `json`, in any case and with any parameters.
-/

namespace Rulebook.Http

/-- Whether a character may stand in the names of methods, headers and media
types. -/
def isTokenChar (c : Char) : Bool :=
  c.isAlphanum || "!#$%&'*+-.^_\x60|~".toList.contains c

/-- Where reading the parameters of a media type stands. -/
inductive ParameterStage where
  | start
  | name
  | valueStart
  | value
  | quotedStart
  | quoted
  | behindQuoted
deriving DecidableEq, Repr

namespace ParameterStage

/-- Whether a character may stand between quotes. -/
def isQuotable (c : Char) : Bool := 31 < c.toNat && c.toNat != 127

/-- Reads one character of the parameters. The first character behind an
opening quote does not close it. -/
def step (s : ParameterStage) (c : Char) : Option ParameterStage :=
  match s with
  | .start =>
    if c = ' ' then some .start else if isTokenChar c then some .name else none
  | .name =>
    if c = '=' then some .valueStart
    else if isTokenChar c then some .name
    else none
  | .valueStart =>
    if c = '"' then some .quotedStart
    else if isTokenChar c then some .value
    else none
  | .value =>
    if c = ';' then some .start else if isTokenChar c then some .value else none
  | .quotedStart => if isQuotable c then some .quoted else none
  | .quoted =>
    if c = '"' then some .behindQuoted
    else if isQuotable c then some .quoted
    else none
  | .behindQuoted =>
    if c = ';' then some .start
    else if c = ' ' then some .behindQuoted
    else none

/-- Whether the parameters may end here. -/
def isFinal : ParameterStage → Bool
  | .start => true
  | .valueStart => true
  | .value => true
  | .behindQuoted => true
  | _ => false

end ParameterStage

/-- Whether a text is a list of parameters. -/
def areParameters (s : List Char) : Bool :=
  match s.foldlM ParameterStage.step .start with
  | some stage => stage.isFinal
  | none => false

/-- A media type without its parameters, in small letters. -/
structure MediaType where
  type : List Char
  subtype : List Char
deriving DecidableEq, Repr

namespace MediaType

/-- The media type that a text denotes. Parameters are separated from it by a
semicolon. -/
def ofText? (text : String) : Option MediaType :=
  let s := text.toList
  let type := s.takeWhile isTokenChar
  match s.dropWhile isTokenChar with
  | '/' :: rest =>
    let subtype := rest.takeWhile isTokenChar
    let found : MediaType := ⟨type.map Char.toLower, subtype.map Char.toLower⟩
    if type.isEmpty then none
    else
      match rest.dropWhile isTokenChar with
      | [] => some found
      | ';' :: parameters =>
        if !subtype.isEmpty && areParameters parameters then some found
        else none
      | _ => none
  | _ => none

/-- The subtype in front of its suffix, and the suffix, which stands behind the
last plus sign; a plus sign in the first place starts no suffix. -/
def parts (m : MediaType) : List Char × List Char :=
  let suffix := (m.subtype.reverse.takeWhile (· != '+')).reverse
  if (m.subtype.drop 1).contains '+' then
    (m.subtype.take (m.subtype.length - suffix.length - 1), suffix)
  else (m.subtype, [])

/-- Whether a media type is one of JSON. -/
def isJson (m : MediaType) : Bool :=
  let json := "json".toList
  m.type == "application".toList && (m.parts.1 == json || m.parts.2 == json)

end MediaType

end Rulebook.Http
