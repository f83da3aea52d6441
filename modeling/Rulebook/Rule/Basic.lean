import Rulebook.Combination
import Rulebook.Evaluation
import Rulebook.Instant

/-!
# Rules

A rule is an expression's text with a name, an identity and a history. Before it
can be applied it is compiled: its text is read once, and the expression is kept
together with the fields that it needs.
-/

namespace Rulebook

/-- A rule. The rules that it was combined from are its parents; a rule that was
written directly has none. -/
structure Rule where
  id : String
  name : String
  description : String
  text : String
  createdAt : Instant
  updatedAt : Instant
  parents : List String
deriving DecidableEq

/-- What is given to create a rule, or to replace one as a whole. -/
structure RuleDraft where
  name : String
  description : String
  text : String
deriving DecidableEq

/-- What is given to combine stored rules. -/
structure CombinationRequest where
  sources : List String
  name : String
  description : String
  connector : Connector
deriving DecidableEq

/-- What makes a rule invalid apart from its text. -/
inductive RuleDefect where
  | emptyId
  | blankName
deriving DecidableEq, Repr

/-- A defect in words. -/
def RuleDefect.message : RuleDefect → String
  | .emptyId => "规则 ID 不能为空"
  | .blankName => "规则名称不能为空"

/-- Why an operation on rules fails. -/
inductive RuleError where
  | unreadable (cause : SyntaxError)
  | record (cause : RecordError)
  | evaluation (cause : EvaluationError)
  | combination (cause : CombinationError)
  | invalid (defect : RuleDefect)
  | notFound (id : String)
  | invalidPage (page limit : Nat)
deriving DecidableEq

namespace RuleError

/-- The code of an error. -/
def code : RuleError → String
  | .unreadable (.lexical _) => "RULE_LEX_ERROR"
  | .unreadable (.grammatical _) => "RULE_PARSE_ERROR"
  | .record _ => "INVALID_RECORD"
  | .evaluation (.missingField _) => "MISSING_FIELD"
  | .evaluation (.incomparable _ _) => "TYPE_COERCION_ERROR"
  | .combination (.tooFew _) => "INSUFFICIENT_RULES"
  | .combination (.unreadableSource _ _) => "INVALID_SOURCE_RULE"
  | .combination (.tooDeep _) => "NESTING_TOO_DEEP"
  | .invalid _ => "INVALID_RULE"
  | .notFound _ => "RULE_NOT_FOUND"
  | .invalidPage _ _ => "INVALID_PAGINATION"

/-- An error in words. -/
def message : RuleError → String
  | .unreadable cause => s!"规则解析失败: {cause.message}"
  | .record cause => s!"记录无效: {cause.message}"
  | .evaluation cause => s!"规则执行失败: {cause.message}"
  | .combination cause => s!"规则组合失败: {cause.message}"
  | .invalid defect => s!"规则无效: {defect.message}"
  | .notFound id => s!"规则未找到: {id}"
  | .invalidPage page limit => s!"分页参数无效: page={page}, limit={limit}"

end RuleError

/-- The fields that an expression mentions, in order and each once. -/
def Expression.fields (e : Expression) : List String :=
  (Table.ofList (e.conditions.map fun c => (c.field, ()))).names

/-- A rule whose text has been read. The version numbers the compilations; there
is no end to the numbers. -/
structure CompiledRule where
  rule : Rule
  expression : Expression
  requiredFields : List String
  version : Nat
deriving DecidableEq

namespace Rule

/-- The defect of a rule, if it has one. -/
def defect? (r : Rule) : Option RuleDefect :=
  if r.id = "" then some .emptyId
  else if Text.trim r.name = "" then some .blankName
  else none

/-- A rule compiled as the compilation with the given number. -/
def compile (version : Nat) (r : Rule) : Except RuleError CompiledRule :=
  match r.defect? with
  | some defect => .error (.invalid defect)
  | none =>
    match Expression.ofText r.text with
    | .error cause => .error (.unreadable cause)
    | .ok e => .ok ⟨r, e, e.fields, version⟩

end Rule

/-- What is told about the evaluation of a rule, except for how long it took. -/
structure Report where
  ruleId : String
  ruleName : String
  ruleText : String
  holds : Bool
  matched : List String
  trace : List String
deriving DecidableEq

/-- Applies a compiled rule to a record; the trace is only told if asked
for. -/
def CompiledRule.execute (traced : Bool) (c : CompiledRule) (r : Record) :
    Except EvaluationError Report := do
  let findings ← c.expression.evaluate r []
  return {
    ruleId := c.rule.id
    ruleName := c.rule.name
    ruleText := c.rule.text
    holds := findings.holds
    matched := findings.matched.map Condition.canonical
    trace := if traced then findings.events.map Event.text else [] }

end Rulebook
