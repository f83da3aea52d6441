import Rulebook.Settings.Plain.Value
import Rulebook.Text.Hexadecimal

/-!
# Plain settings files

A plain settings file has one setting on each line, a key and a value, and
headers that begin sections. A value is a truth value, a decimal number, a text
between double quotes on one line or a list. Comments run from a number sign to
the end of the line, and lists may run over several lines.

This is a part of the format only. There are no keys in quotes or with points in
them, no sections in sections, no tables in braces and no lists of sections, no
texts between single or three quotes, no dates, and no numbers to other bases. A
file with any of these is taken for a wrong one.

A file is read in two steps: into its marks, and from them line by line. A file
in which anything is wrong says nothing.
-/

namespace Rulebook.Plain.File

/-- A part of a settings file. -/
inductive Mark where
  | newline
  | opening
  | closing
  | equals
  | comma
  | word (s : List Char)
  | text (s : String)
deriving DecidableEq, Repr

/-- Whether a character may stand in a key. -/
def isKeyChar (c : Char) : Bool := c.isAlphanum || c == '_' || c == '-'

/-- Whether a character may stand in a key or in a number. -/
def isWordChar (c : Char) : Bool := isKeyChar c || c == '+' || c == '.'

/-- Whether a character may stand in a comment or a text. -/
def isPrintable (c : Char) : Bool :=
  c == '\t' || (32 ≤ c.toNat && c.toNat != 127)

/-- The character that a backslash with one letter stands for. -/
def simpleEscape? : Char → Option Char
  | '"' => some '"'
  | '\\' => some '\\'
  | 'b' => some '\x08'
  | 'f' => some '\x0c'
  | 'n' => some '\n'
  | 'r' => some '\r'
  | 't' => some '\t'
  | _ => none

/-- The character whose code is written in hexadecimal digits. -/
def codedChar? (digits : List Char) : Option Char := do
  let values ← digits.mapM Text.hexDigit?
  let code := values.foldl (fun n d => n * 16 + d) 0
  if code.isValidChar then some (Char.ofNat code) else none

/-- The characters of a text up to its closing quote, and what is behind. -/
def readText : List Char → Option (List Char × List Char)
  | '"' :: rest => some ([], rest)
  | '\\' :: 'u' :: a :: b :: c :: d :: rest => do
    let char ← codedChar? [a, b, c, d]
    let (text, rest) ← readText rest
    return (char :: text, rest)
  | '\\' :: 'U' :: a :: b :: c :: d :: e :: f :: g :: h :: rest => do
    let char ← codedChar? [a, b, c, d, e, f, g, h]
    let (text, rest) ← readText rest
    return (char :: text, rest)
  | '\\' :: c :: rest => do
    let char ← simpleEscape? c
    let (text, rest) ← readText rest
    return (char :: text, rest)
  | c :: rest =>
    if isPrintable c then do
      let (text, rest) ← readText rest
      return (c :: text, rest)
    else none
  | [] => none

theorem length_lt_of_readText {s text rest : List Char}
    (h : readText s = some (text, rest)) : rest.length < s.length := by
  fun_induction readText s generalizing text with
  | case1 => cases h; simp
  | case2 _ _ _ _ _ ih =>
    simp only [Option.bind_eq_bind, Option.bind_eq_some_iff, Option.pure_def,
      Option.some.injEq, Prod.mk.injEq] at h
    obtain ⟨_, _, _, htext, _, rfl⟩ := h
    have := ih htext
    simp only [List.length_cons]
    omega
  | case3 _ _ _ _ _ _ _ _ _ ih =>
    simp only [Option.bind_eq_bind, Option.bind_eq_some_iff, Option.pure_def,
      Option.some.injEq, Prod.mk.injEq] at h
    obtain ⟨_, _, _, htext, _, rfl⟩ := h
    have := ih htext
    simp only [List.length_cons]
    omega
  | case4 _ _ _ _ ih =>
    simp only [Option.bind_eq_bind, Option.bind_eq_some_iff, Option.pure_def,
      Option.some.injEq, Prod.mk.injEq] at h
    obtain ⟨_, _, _, htext, _, rfl⟩ := h
    have := ih htext
    simp only [List.length_cons]
    omega
  | case5 _ _ _ _ _ _ _ ih =>
    simp only [Option.bind_eq_bind, Option.bind_eq_some_iff, Option.pure_def,
      Option.some.injEq, Prod.mk.injEq] at h
    obtain ⟨_, htext, _, rfl⟩ := h
    have := ih htext
    simp only [List.length_cons]
    omega
  | case6 => cases h
  | case7 => cases h

/-- The punctuation that a character is. -/
def punctuation? : Char → Option Mark
  | '\n' => some .newline
  | '[' => some .opening
  | ']' => some .closing
  | '=' => some .equals
  | ',' => some .comma
  | _ => none

/-- The marks of a text, if it consists of marks, blanks and comments. -/
def marks? : List Char → Option (List Mark)
  | [] => some []
  | '\r' :: '\n' :: rest => (marks? rest).map (.newline :: ·)
  | c :: rest =>
    match punctuation? c with
    | some mark => (marks? rest).map (mark :: ·)
    | none =>
      if c = ' ' ∨ c = '\t' then marks? rest
      else if c = '#' then
        have := (List.dropWhile_suffix isPrintable (l := rest)).length_le
        marks? (rest.dropWhile isPrintable)
      else if c = '"' then
        match h : readText rest with
        | some (text, behind) =>
          have := length_lt_of_readText h
          (marks? behind).map (.text (String.ofList text) :: ·)
        | none => none
      else if isWordChar c then
        have := (List.dropWhile_suffix isWordChar (l := rest)).length_le
        (marks? (rest.dropWhile isWordChar)).map
          (.word (c :: rest.takeWhile isWordChar) :: ·)
      else none
termination_by s => s.length

/-- A word without the low lines that separate digits; each of them stands
between two digits. -/
def withoutSeparators? : List Char → Option (List Char)
  | c :: '_' :: d :: rest =>
    if c.isDigit && d.isDigit then
      (withoutSeparators? (d :: rest)).map (c :: ·)
    else none
  | '_' :: _ => none
  | c :: rest => (withoutSeparators? rest).map (c :: ·)
  | [] => some []

/-- Whether digits are written without a zero in front of others. -/
def isPlainWhole (digits : List Char) : Bool :=
  !digits.isEmpty && (digits.length == 1 || digits.head? != some '0')

/-- The value of a word. -/
def wordValue? (s : List Char) : Option SettingValue :=
  if s = "true".toList then some (.boolean true)
  else if s = "false".toList then some (.boolean false)
  else if let some x := WrittenNumber.special? s then some (.float x)
  else do
    let number ← (withoutSeparators? s).bind WrittenNumber.ofText?
    if !isPlainWhole number.whole || number.fraction.any List.isEmpty then none
    else if number.fraction.isNone && number.exponent.isNone then
      number.integer?.map .integer
    else if number.toBinary64.isFinite then some (.float number.toBinary64)
    else none

/-- Where reading a line stands. Of the lists that are open, the innermost one
comes first, and in each the last item. -/
inductive Stage where
  | lineStart
  | sectionName
  | sectionEnd (name : String)
  | key (name : String)
  | value (key : String)
  | item (key : String) (lists : List (List SettingTree))
  | itemEnd (key : String) (lists : List (List SettingTree))
  | lineEnd

/-- Whether a line may end here. -/
def Stage.isFinal : Stage → Bool
  | .lineStart => true
  | .lineEnd => true
  | _ => false

/-- What has been read of a file: the settings in front of all sections, and the
sections with their settings, each time the last one first. -/
structure Progress where
  stage : Stage
  settings : List (String × SettingTree)
  sections : List (String × List (String × SettingTree))

namespace Progress

/-- Nothing has been read. -/
def start : Progress := ⟨.lineStart, [], []⟩

/-- Begins a section, which may be done once, and not under the name of a
setting. -/
def enter (p : Progress) (name : String) : Option Progress :=
  if (p.sections.lookup name).isSome || (p.settings.lookup name).isSome then none
  else some ⟨.lineEnd, p.settings, (name, []) :: p.sections⟩

/-- Sets a key in the current section, which may be done once. -/
def define (p : Progress) (key : String) (t : SettingTree) : Option Progress :=
  match p.sections with
  | [] =>
    if (p.settings.lookup key).isSome then none
    else some ⟨.lineEnd, (key, t) :: p.settings, []⟩
  | (name, members) :: others =>
    if (members.lookup key).isSome then none
    else some ⟨.lineEnd, p.settings, (name, (key, t) :: members) :: others⟩

/-- Puts an item into the innermost open list. -/
def append (p : Progress) (key : String) (t : SettingTree) :
    List (List SettingTree) → Progress
  | items :: outer => { p with stage := .itemEnd key ((t :: items) :: outer) }
  | [] => { p with stage := .itemEnd key [[t]] }

/-- Closes the innermost open list. -/
def close (p : Progress) (key : String) :
    List (List SettingTree) → Option Progress
  | items :: next :: outer =>
    some (p.append key (.list items.reverse) (next :: outer))
  | [items] => p.define key (.list items.reverse)
  | [] => none

/-- Reads a mark, if it may stand where it does. -/
def step (p : Progress) (mark : Mark) : Option Progress :=
  match p.stage, mark with
  | .lineStart, .newline => some p
  | .lineStart, .opening => some { p with stage := .sectionName }
  | .lineStart, .word s =>
    if s.all isKeyChar then some { p with stage := .key (String.ofList s) }
    else none
  | .sectionName, .word s =>
    if s.all isKeyChar then
      some { p with stage := .sectionEnd (String.ofList s) }
    else none
  | .sectionEnd name, .closing => p.enter name
  | .key name, .equals => some { p with stage := .value name }
  | .value key, .text s => p.define key (.value (.text s))
  | .value key, .word s =>
    (wordValue? s).bind fun v => p.define key (.value v)
  | .value key, .opening => some { p with stage := .item key [[]] }
  | .item _ _, .newline => some p
  | .item key lists, .text s => some (p.append key (.value (.text s)) lists)
  | .item key lists, .word s =>
    (wordValue? s).map fun v => p.append key (.value v) lists
  | .item key lists, .opening => some { p with stage := .item key ([] :: lists) }
  | .item key lists, .closing => p.close key lists
  | .itemEnd _ _, .newline => some p
  | .itemEnd key lists, .comma => some { p with stage := .item key lists }
  | .itemEnd key lists, .closing => p.close key lists
  | .lineEnd, .newline => some { p with stage := .lineStart }
  | _, _ => none

/-- All that has been read, in its order. -/
def layer (p : Progress) : SettingLayer :=
  let sections := p.sections.reverse.map fun s =>
    (s.1, SettingTree.branch s.2.reverse)
  (p.settings.reverse ++ sections).map fun m => ([.name m.1], m.2)

end Progress

/-- A text without the byte order mark that may stand in front of it. -/
def withoutByteOrderMark : List Char → List Char
  | '\uFEFF' :: rest => rest
  | s => s

/-- The settings in a plain file, if nothing is wrong with it. Both the file and
the text in it may begin with a byte order mark. -/
def read? (text : String) : Option SettingLayer := do
  let marks ← marks? (withoutByteOrderMark (withoutByteOrderMark text.toList))
  let p ← marks.foldlM Progress.step Progress.start
  if p.stage.isFinal then some p.layer else none

end Rulebook.Plain.File
