import Rulebook.Expression.Parser

/-!
# Combining expressions

Expressions are combined by putting each into parentheses and a connector
between them, so every source keeps its own connector. The result has to stay
within the limit on nesting, or it could not be read back.
-/

namespace Rulebook

/-- Why rules cannot be combined. -/
inductive CombinationError where
  | tooFew (count : Nat)
  | tooDeep (depth : Nat)
  | unreadableSource (id : String) (cause : SyntaxError)
deriving DecidableEq

/-- A combination error in words. -/
def CombinationError.message : CombinationError → String
  | .tooFew count => s!"组合至少需要 2 条规则, 实际 {count} 条"
  | .tooDeep depth => s!"组合结果嵌套 {depth} 层, 超过上限 {maxDepth} 层"
  | .unreadableSource id cause => s!"源规则 {id} 无法解析: {cause.message}"

namespace Expression

/-- The combination of a list of expressions. -/
def combine (k : Connector) (sources : List Expression) :
    Except CombinationError Expression :=
  match sources with
  | first :: second :: rest =>
    let combined :=
      chain k (.ofList (.group first) (.group second) (rest.map .group))
    if maxDepth < combined.depth then .error (.tooDeep combined.depth)
    else .ok combined
  | _ => .error (.tooFew sources.length)

/-- The combination of a list of texts, each with the name by which it is
reported if it cannot be read. -/
def combineTexts (k : Connector) (sources : List (String × String)) :
    Except CombinationError Expression :=
  if sources.length < 2 then .error (.tooFew sources.length)
  else do
    let expressions ← sources.mapM fun source =>
      (ofText source.2).mapError (.unreadableSource source.1)
    combine k expressions

end Expression

end Rulebook
