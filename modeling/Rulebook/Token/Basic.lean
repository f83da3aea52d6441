import Rulebook.Operator
import Rulebook.Scalar

/-!
# Tokens

The words of which a rule consists, and where they stand in its text. Places in
a text are counted in bytes of its UTF-8 encoding.
-/

namespace Rulebook

/-- A word of a rule. -/
inductive Token where
  | field (name : String)
  | literal (value : Scalar)
  | operator (op : Operator)
  | connector (k : Connector)
  | opening
  | closing
deriving DecidableEq

/-- The name of a token in messages. -/
def Token.text : Token → String
  | .field name => name
  | .literal value => value.literal
  | .operator op => "'" ++ op.symbol ++ "'"
  | .connector k => k.keyword
  | .opening => "'('"
  | .closing => "')'"

/-- A token together with the place of its first byte and the place after its
last one. -/
structure Lexeme where
  token : Token
  start : Nat
  stop : Nat
deriving DecidableEq

/-- Why no token can be read. -/
inductive LexCause where
  | unterminatedString
  | unexpectedCharacter (c : Char)
  | malformedNumber (text : String)
deriving DecidableEq, Repr

/-- A place in a text where no token can be read. -/
structure LexError where
  position : Nat
  cause : LexCause
deriving DecidableEq, Repr

/-- The reason for a lexical error in words. -/
def LexCause.message : LexCause → String
  | .unterminatedString => "字符串字面量未闭合"
  | .unexpectedCharacter c => "无法识别的字符 '" ++ c.toString ++ "'"
  | .malformedNumber text => "数字格式错误: " ++ text

/-- A lexical error in words. -/
def LexError.message (e : LexError) : String :=
  s!"词法错误 (位置 {e.position}): {e.cause.message}"

end Rulebook
