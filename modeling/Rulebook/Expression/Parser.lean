import Rulebook.Expression.Canonical
import Rulebook.Token.Scan

/-!
# Reading an expression from tokens

The grammar of a level is `term (connector term)*` with one and the same
connector, where a term is `field operator literal` or a level in parentheses.

Tokens are read one at a time. What has been read so far is a stack: the levels
that are open outside the innermost one, and how far the innermost one has got.
A token either extends this state or is the error, so the first error is found
at the first token behind which no expression can be completed any more.

A `Parser` may be asked again after it has answered. It goes on at the token
where it stopped, and counts the groups that an error left open as if they were
still open.
-/

namespace Rulebook

/-- How deep groups may be nested. -/
def maxDepth : Nat := 32

/-- What may stand at a place in a rule. -/
inductive Expectation where
  | term
  | operator
  | literal
  | closing
  | connector
deriving DecidableEq, Repr

/-- The name of an expectation in messages. -/
def Expectation.name : Expectation → String
  | .term => "字段名或 '('"
  | .operator => "比较操作符"
  | .literal => "数字、字符串或布尔字面量"
  | .closing => "')'"
  | .connector => "连接符 AND 或 OR"

/-- Why a token, or the end of the text, cannot stand where it does. -/
inductive ParseCause where
  | unexpected (expected : Expectation) (found : Option Token)
  | mixedConnectors (expected found : Connector)
  | nestingTooDeep
deriving DecidableEq

/-- Why a list of tokens is no expression. -/
inductive ParseError where
  | empty
  | misplaced (position : Nat) (cause : ParseCause)
deriving DecidableEq

/-- The reason for a parse error in words. -/
def ParseCause.message : ParseCause → String
  | .unexpected expected found =>
    let found := (found.map Token.text).getD "输入结束"
    s!"期望 {expected.name}, 实际为 {found}"
  | .mixedConnectors expected found =>
    "同一表达式中连接符必须一致, 已使用 " ++ expected.keyword ++ ", 出现 " ++
      found.keyword
  | .nestingTooDeep => s!"括号嵌套超过 {maxDepth} 层"

/-- A parse error in words. -/
def ParseError.message : ParseError → String
  | .empty => "规则表达式为空"
  | .misplaced position cause => s!"位置 {position}: {cause.message}"

/-- The part of an open level in front of the term being read: nothing, or the
terms so far and the connector behind them. -/
abbrev Pending := Option (Expression × Connector)

/-- The level that arises when the term being read is complete. -/
def Pending.complete (before : Pending) (t : Term) : Expression :=
  match before with
  | none => .single t
  | some (e, k) => e.snoc k t

/-- How far the innermost open level has got. -/
inductive Focus where
  | term (before : Pending)
  | operator (before : Pending) (field : String)
  | literal (before : Pending) (field : String) (op : Operator)
  | complete (e : Expression)

/-- What has been read of a list of tokens: the open levels around the
innermost one, from the inside out, and the innermost one. -/
structure Progress where
  enclosing : List Pending
  focus : Focus

namespace Progress

/-- Nothing has been read. -/
def start : Progress := ⟨[], .term none⟩

/-- The number of groups that are open. -/
def openGroups (p : Progress) : Nat := p.enclosing.length

/-- What may stand behind a complete level. -/
def afterLevel (p : Progress) : Expectation :=
  if p.enclosing.isEmpty then .connector else .closing

/-- Reads one token while `depth` groups are open outside of all that has been
read. -/
def step (depth : Nat) (p : Progress) (t : Token) :
    Except ParseCause Progress :=
  match p.focus with
  | .term before =>
    match t with
    | .opening =>
      if maxDepth ≤ depth + p.openGroups then .error .nestingTooDeep
      else .ok ⟨before :: p.enclosing, .term none⟩
    | .field name => .ok ⟨p.enclosing, .operator before name⟩
    | t => .error (.unexpected .term (some t))
  | .operator before field =>
    match t with
    | .operator op => .ok ⟨p.enclosing, .literal before field op⟩
    | t => .error (.unexpected .operator (some t))
  | .literal before field op =>
    match t with
    | .literal value =>
      .ok ⟨p.enclosing,
        .complete (before.complete (.condition ⟨field, op, value⟩))⟩
    | t => .error (.unexpected .literal (some t))
  | .complete e =>
    match t with
    | .connector k =>
      match e.connector? with
      | some own =>
        if own = k then .ok ⟨p.enclosing, .term (some (e, k))⟩
        else .error (.mixedConnectors own k)
      | none => .ok ⟨p.enclosing, .term (some (e, k))⟩
    | .closing =>
      match p.enclosing with
      | before :: outer => .ok ⟨outer, .complete (before.complete (.group e))⟩
      | [] => .error (.unexpected .connector (some t))
    | t => .error (.unexpected p.afterLevel (some t))

/-- What the end of the tokens means: the expression that has been read, or
what is missing. -/
def finish (p : Progress) : Except ParseCause Expression :=
  match p.focus with
  | .term _ => .error (.unexpected .term none)
  | .operator _ _ => .error (.unexpected .operator none)
  | .literal _ _ _ => .error (.unexpected .literal none)
  | .complete e =>
    if p.enclosing.isEmpty then .ok e else .error (.unexpected .closing none)

end Progress

/-- What came out of reading tokens: the answer, the tokens that were not read,
and the number of groups left open. -/
structure Reading where
  answer : Except ParseError Expression
  rest : List Lexeme
  openGroups : Nat

/-- Reads tokens to the end or to the first error, where `depth` groups are
open outside and the text of the tokens ends at `stop`. -/
def Progress.read (depth stop : Nat) (p : Progress) : List Lexeme → Reading
  | [] => ⟨p.finish.mapError (.misplaced stop), [], p.openGroups⟩
  | lexeme :: rest =>
    match p.step depth lexeme.token with
    | .ok next => next.read depth stop rest
    | .error cause =>
      ⟨.error (.misplaced lexeme.start cause), lexeme :: rest, p.openGroups⟩

/-- A list of tokens, how many of them have been read, and how many groups
count as open. -/
structure Parser where
  tokens : List Lexeme
  position : Nat
  depth : Nat

namespace Parser

/-- A parser at the start of its tokens. -/
def ofTokens (tokens : List Lexeme) : Parser := ⟨tokens, 0, 0⟩

/-- The tokens that have not been read. -/
def rest (p : Parser) : List Lexeme := p.tokens.drop p.position

/-- The place after the last token. -/
def stop (p : Parser) : Nat := (p.tokens.getLast?.map Lexeme.stop).getD 0

/-- Reads one expression up to the end of the tokens. -/
def parse (p : Parser) : Except ParseError Expression × Parser :=
  if p.tokens.isEmpty then (.error .empty, p)
  else
    let reading := Progress.start.read p.depth p.stop p.rest
    (reading.answer,
      { p with
        position := p.tokens.length - reading.rest.length
        depth := p.depth + reading.openGroups })

end Parser

/-- Why a text is no rule. -/
inductive SyntaxError where
  | lexical (e : LexError)
  | grammatical (e : ParseError)
deriving DecidableEq

/-- A syntax error in words. -/
def SyntaxError.message : SyntaxError → String
  | .lexical e => e.message
  | .grammatical e => e.message

namespace Expression

/-- The expression that a list of tokens spells. -/
def ofTokens (tokens : List Lexeme) : Except ParseError Expression :=
  (Parser.ofTokens tokens).parse.1

/-- The expression that a text spells. -/
def ofText (text : String) : Except SyntaxError Expression :=
  match lexemes text with
  | .error e => .error (.lexical e)
  | .ok tokens => (ofTokens tokens).mapError .grammatical

end Expression

end Rulebook
