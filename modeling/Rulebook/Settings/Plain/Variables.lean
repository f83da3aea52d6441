import Rulebook.Settings.Library
import Rulebook.Settings.Plain.Value

/-!
# Variables of the plain library

A variable of the environment sets the place to which its name leads: after a
common beginning, names are separated by a separator or a point, positions in
lists stand in brackets, and capitals do not matter. Its value is taken as a
truth value or a number if it reads as one.

Only letters of ASCII stand in a path. The sign for kelvin counts as one of them:
its small letter is a plain `k`.
-/

namespace Rulebook.Plain.Variable

/-- A text in which separators are replaced by points. -/
def withPoints (separator : List Char) : List Char → List Char
  | [] => []
  | c :: rest =>
    if separator ≠ [] ∧ separator.isPrefixOf (c :: rest) then
      '.' :: withPoints separator (rest.drop (separator.length - 1))
    else c :: withPoints separator rest
termination_by s => s.length
decreasing_by
  all_goals
    simp only [List.length_cons, List.length_drop]
    omega

/-- Whether a character may stand in a name on a path. -/
def isNameChar (c : Char) : Bool := c.isAlphanum || c == '_' || c == '-'

/-- A blank or a tab. -/
def isGap (c : Char) : Bool := c == ' ' || c == '\t'

/-- The position that is written between brackets. -/
def position? (s : List Char) : Option Int := do
  let s := ((s.dropWhile isGap).reverse.dropWhile isGap).reverse
  let negative := s.head? == some '-'
  let size ← Text.natural? (if negative then s.drop 1 else s)
  if negative then
    if size ≤ 0x8000000000000000 then some (-size) else none
  else if size < 0x8000000000000000 then some size
  else none

/-- The steps that a text spells: a point before each name, brackets around each
position. -/
def steps? : List Char → Option SettingPath
  | [] => some []
  | '.' :: rest =>
    have := (List.dropWhile_suffix isNameChar (l := rest)).length_le
    let name := rest.takeWhile isNameChar
    if name.isEmpty then none
    else
      (steps? (rest.dropWhile isNameChar)).map
        (.name (String.ofList name) :: ·)
  | '[' :: rest =>
    have := (List.dropWhile_suffix (· != ']') (l := rest)).length_le
    let behind := (rest.dropWhile (· != ']')).drop 1
    if rest.contains ']' then
      match position? (rest.takeWhile (· != ']')), steps? behind with
      | some position, some steps => some (.item position :: steps)
      | _, _ => none
    else none
  | _ => none
termination_by s => s.length
decreasing_by
  · simp only [List.length_cons]
    omega
  · simp only [List.length_cons, List.length_drop]
    omega

/-- The small letter of a letter whose small letter is in ASCII. -/
def smallLetter (c : Char) : Char := if c = '\u212A' then 'k' else c.toLower

/-- The path that the name of a variable spells, if there is such a path. -/
def path? (scheme : VariableScheme) (name : String) : Option SettingPath :=
  let beginning := (scheme.beginning ++ scheme.joint).toList.map smallLetter
  let s := name.toList.map smallLetter
  if beginning.isPrefixOf s then
    steps? ('.' ::
      withPoints scheme.separator.toList (s.drop beginning.length))
  else none

/-- The value that a text is taken as. -/
def read (text : String) : SettingValue :=
  let s := text.toList
  let word := s.map Char.toLower
  if word = "true".toList then .boolean true
  else if word = "false".toList then .boolean false
  else
    match WrittenNumber.ofText? s with
    | some n =>
      match n.integer? with
      | some i => .integer i
      | none => .float n.toBinary64
    | none =>
      let unsigned := WrittenNumber.unsigned word
      if unsigned.2 = "infinity".toList then .float (.infinity unsigned.1)
      else
        match WrittenNumber.special? word with
        | some x => .float x
        | none => .text text

/-- The value that is assigned to a variable by a text. -/
def value (areParsed : Bool) (text : String) : SettingValue :=
  if areParsed then read text else .text text

/-- What a variable sets. -/
def set? (scheme : VariableScheme) (v : String × String) :
    Option (SettingPath × SettingTree) :=
  (path? scheme v.1).map fun path => (path, .value (value scheme.areParsed v.2))

end Rulebook.Plain.Variable
