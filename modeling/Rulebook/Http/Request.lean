import Rulebook.Http.MediaType
import Rulebook.Http.Target

/-!
# Requests

A request has a method, a target, headers and a body; what can be none is told
apart before it is looked at. The names of headers are kept in small letters.

A body is a text here. Bodies of bytes that are no text in UTF-8 are left out,
also those in which such bytes stand only where a member is passed over.
-/

namespace Rulebook.Http

/-- What a client asks. -/
structure Request where
  method : String
  target : Target
  headers : List (String × String)
  body : String
deriving DecidableEq, Repr

/-- Whether a text is a name in the sense of the protocol. -/
def isToken (s : String) : Bool := s != "" && s.toList.all isTokenChar

/-- Whether a character may stand in the value of a header. -/
def isHeaderChar (c : Char) : Bool :=
  c == '\t' || (32 ≤ c.toNat && c.toNat != 127)

/-- Whether a character is visible in ASCII, or a blank or a tab. -/
def isPlainChar (c : Char) : Bool :=
  c == '\t' || (32 ≤ c.toNat && c.toNat < 127)

namespace Request

/-- The request that consists of the given parts, if there can be one. -/
def ofParts? (method target : String) (headers : List (String × String))
    (body : String) : Option Request := do
  let target ← Target.ofText? target
  let areHeaders :=
    headers.all fun h => isToken h.1 && h.2.toList.all isHeaderChar
  if isToken method && areHeaders then
    return {
      method := method
      target := target
      headers := headers.map fun h => (h.1.map Char.toLower, h.2)
      body := body }
  else none

/-- The value of a header, if it is plain text. Of headers with one name the
first counts. -/
def header? (r : Request) (name : String) : Option String :=
  match r.headers.lookup name with
  | some value => if value.toList.all isPlainChar then some value else none
  | none => none

/-- Whether the body is said to be JSON. -/
def hasJsonBody (r : Request) : Bool :=
  ((r.header? "content-type").bind MediaType.ofText?).any MediaType.isJson

end Request

end Rulebook.Http
