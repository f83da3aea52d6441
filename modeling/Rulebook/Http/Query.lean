import Rulebook.Http.Percent
import Rulebook.Text.Natural
import Rulebook.Text.Split

/-!
# Queries

A query is a list of names with values, separated by ampersands; the value
stands behind the first equals sign. A plus sign stands for a blank, and other
characters may be percent encoded.
-/

namespace Rulebook.Http

/-- The text that a part of a query stands for, if it is UTF-8. -/
def queryText? (s : List Char) : Option String :=
  percentDecoded? (s.map fun c => if c = '+' then ' ' else c)

/-- The names and values in a query, as far as they are UTF-8. -/
def queryPairs (query : String) : List (Option String × Option String) :=
  let parts := (Text.split '&' query.toList).filter fun part => !part.isEmpty
  parts.map fun part =>
    let pair := Text.cut '=' part
    (queryText? pair.1, queryText? pair.2)

/-- The bound of the numbers in a query, which have 64 bits. -/
def queryBound : Nat := 0x10000000000000000

/-- The number under a name in a query. It may be absent, but it may not be
there twice, nor be anything but a number. -/
def queryNumber? (name : String)
    (pairs : List (Option String × Option String)) : Option (Option Nat) :=
  match pairs.filter fun pair => pair.1 == some name with
  | [] => some none
  | [(_, some value)] =>
    (Text.naturalBelow? queryBound value.toList).map some
  | _ => none

end Rulebook.Http
