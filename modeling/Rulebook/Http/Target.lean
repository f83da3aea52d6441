/-!
# The target of a request

A target is an absolute path with an optional query, an asterisk, an authority
alone, or a scheme with an authority and a path. Only its path and its query
matter; a fragment is cut off. The path stays as it is written.

Characters outside ASCII may stand in paths and queries as they are.
-/

namespace Rulebook.Http

/-- What a request is addressed to. -/
structure Target where
  path : String
  query : String
deriving DecidableEq, Repr

/-- Whether a character of code `n` may stand in a path. -/
def isPathCode (n : Nat) : Bool :=
  n == 0x21 || n == 0x22 || (0x24 ≤ n && n ≤ 0x3B) || n == 0x3D ||
    (0x40 ≤ n && n ≤ 0x5F) || (0x61 ≤ n && n != 0x7F)

/-- Whether a character of code `n` may stand in a query. -/
def isQueryCode (n : Nat) : Bool :=
  n == 0x21 || (0x24 ≤ n && n ≤ 0x3B) || n == 0x3D || (0x3F ≤ n && n != 0x7F)

/-- The path and the query at the end of a target; an empty path is a slash. -/
def pathAndQuery? (s : List Char) : Option Target :=
  let path := s.takeWhile fun c => c != '?' && c != '#'
  let behind := s.dropWhile fun c => c != '?' && c != '#'
  let query :=
    if behind.head? == some '?' then
      (behind.drop 1).takeWhile fun c => c != '#'
    else []
  if path.all (fun c => isPathCode c.toNat) &&
      query.all (fun c => isQueryCode c.toNat) then
    some ⟨if path.isEmpty then "/" else String.ofList path,
      String.ofList query⟩
  else none

/-- Whether a character ends an authority. -/
def endsAuthority (c : Char) : Bool := c == '/' || c == '?' || c == '#'

/-- The punctuation that may stand in an authority. -/
def authorityMarks : List Char := "!$&'()*+,-.:;=@[]_~".toList

/-- What has been seen of an authority: colons and a percent sign behind the
last user and the last bracket, brackets, and whether the last character ends a
user. -/
structure AuthorityScan where
  colons : Nat := 0
  percent : Bool := false
  opened : Bool := false
  closed : Bool := false
  atSign : Bool := false

/-- Reads one character of an authority. -/
def AuthorityScan.step (a : AuthorityScan) (c : Char) : Option AuthorityScan :=
  let a := { a with atSign := c == '@' }
  if c = ':' then
    if 8 ≤ a.colons then none else some { a with colons := a.colons + 1 }
  else if c = '[' then
    if a.percent || a.opened then none else some { a with opened := true }
  else if c = ']' then
    if !a.opened || a.closed then none
    else some { a with closed := true, colons := 0, percent := false }
  else if c = '@' then some { a with colons := 0, percent := false }
  else if c = '%' then some { a with percent := true }
  else if c.isAlphanum || authorityMarks.contains c then some a
  else none

/-- Whether a text is an authority: brackets come as one pair, behind them is at
most one colon, and behind a user is a host. -/
def isAuthority (s : List Char) : Bool :=
  match s.foldlM AuthorityScan.step {} with
  | some a =>
    a.opened == a.closed && decide (a.colons ≤ 1) && !a.atSign && !a.percent
  | none => false

/-- The characters of a scheme. -/
def isSchemeChar (c : Char) : Bool :=
  c.isAlphanum || c == '+' || c == '-' || c == '.' || c == '~'

/-- The text behind a scheme, a colon and two slashes, and how long the scheme
is. -/
def behindScheme? (s : List Char) : Option (Nat × List Char) :=
  let scheme := s.takeWhile isSchemeChar
  match s.dropWhile isSchemeChar with
  | ':' :: '/' :: '/' :: rest => some (scheme.length, rest)
  | _ => none

/-- The target that an address with an authority is. -/
def Target.ofAddress? (s : List Char) : Option Target :=
  match behindScheme? s with
  | some (size, rest) =>
    let authority := rest.takeWhile fun c => !endsAuthority c
    if size ≤ 64 && !authority.isEmpty && isAuthority authority then
      pathAndQuery? (rest.dropWhile fun c => !endsAuthority c)
    else none
  | none =>
    if !s.any endsAuthority && isAuthority s then some ⟨"", ""⟩ else none

/-- The target that a text denotes. -/
def Target.ofText? (text : String) : Option Target :=
  match text.toList with
  | [] => none
  | ['*'] => some ⟨"*", ""⟩
  | '/' :: rest =>
    if text.utf8ByteSize ≤ 65534 then pathAndQuery? ('/' :: rest) else none
  | s => if text.utf8ByteSize ≤ 65534 then Target.ofAddress? s else none

end Rulebook.Http
