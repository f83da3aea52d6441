import Rulebook.Comparison
import Rulebook.Expression.Canonical
import Rulebook.Record

/-!
# Evaluating an expression on a record

The terms of a level are evaluated from left to right, and no further than to
the first one that settles the level: a false term of a conjunction, a true one
of a disjunction. The first error ends the evaluation; what is behind it, or
behind a settled level, is not looked at.

All that happens is logged. The log can be shown as a trace, and the conditions
that were found true are read off it.
-/

namespace Rulebook

/-- Why an expression has no value on a record. -/
inductive EvaluationError where
  | missingField (field : String)
  | incomparable (field : String) (cause : ComparisonError)
deriving DecidableEq

/-- An evaluation error in words. -/
def EvaluationError.message : EvaluationError → String
  | .missingField field => s!"字段不存在: {field}"
  | .incomparable field cause => s!"字段 {field} 比较失败: {cause.message}"

/-- A place in an expression: the number of a term on the outermost level, then
of one on the level in it, and so on. -/
abbrev TermPath := List Nat

/-- A place in an expression in words. -/
def TermPath.text (path : TermPath) : String :=
  path.foldl (fun text i => s!"{text}.terms[{i}]") "root"

/-- What happens while an expression is evaluated. -/
inductive Event where
  | opened (level : TermPath) (k : Connector) (count : Nat)
  | compared (place : TermPath) (c : Condition) (holds : Bool)
  | settled (level : TermPath) (k : Connector) (index skipped : Nat)
deriving DecidableEq

namespace Event

/-- The line of the trace that tells of an event. -/
def text : Event → String
  | .opened level k count =>
    level.text ++ ": 开始评估 " ++ k.keyword ++ s!" 组 (共 {count} 项)"
  | .compared place c holds =>
    place.text ++ ": " ++ c.canonical ++
      (if holds then " => MATCHED" else " => NOT_MATCHED")
  | .settled level k index skipped =>
    level.text ++ ": " ++ k.keyword ++ s!" 短路 - 第 {index} 项" ++
      (if k.settledBy then "匹配" else "不匹配") ++ s!", 跳过剩余 {skipped} 项"

/-- The condition that an event found true. -/
def match? : Event → Option Condition
  | .compared _ c true => some c
  | _ => none

end Event

/-- What came out of an evaluation: whether the expression holds, and what
happened. -/
structure Findings where
  holds : Bool
  events : List Event
deriving DecidableEq

namespace Findings

/-- The conditions that were found true, in the order of their evaluation. -/
def matched (f : Findings) : List Condition := f.events.filterMap Event.match?

/-- The same findings with other events before. -/
def after (f : Findings) (events : List Event) : Findings :=
  { f with events := events ++ f.events }

end Findings

/-- The value of a condition on a record. -/
def Condition.evaluate (r : Record) (place : TermPath) (c : Condition) :
    Except EvaluationError Findings :=
  match r.get? c.field with
  | none => .error (.missingField c.field)
  | some value =>
    match c.operator.holds value c.value with
    | .error cause => .error (.incomparable c.field cause)
    | .ok holds => .ok ⟨holds, [.compared place c holds]⟩

/-- Goes on behind a term with the given findings unless that term settles its
level. -/
def Findings.proceed (f : Findings) (k : Connector) (settled : Event)
    (next : Unit → Except EvaluationError Findings) :
    Except EvaluationError Findings :=
  if f.holds = k.settledBy then
    .ok { f with events := f.events ++ [settled] }
  else (next ()).map fun rest => rest.after f.events

mutual

/-- The value of the term at the given place. -/
def Term.evaluate (r : Record) (place : TermPath) :
    Term → Except EvaluationError Findings
  | .condition c => c.evaluate r place
  | .group e => e.evaluate r place

/-- The value of the expression at the given place. -/
def Expression.evaluate (r : Record) (place : TermPath) :
    Expression → Except EvaluationError Findings
  | .single t => t.evaluate r (place ++ [0])
  | .chain k ts => do
    let findings ← ts.evaluate r place k 0
    return findings.after [.opened place k ts.size]

/-- The value of the last terms of a level, of which the first has the given
number. -/
def Terms.evaluate (r : Record) (level : TermPath) (k : Connector)
    (index : Nat) : Terms → Except EvaluationError Findings
  | .pair a b => do
    let first ← a.evaluate r (level ++ [index])
    first.proceed k (.settled level k index 1) fun _ =>
      b.evaluate r (level ++ [index + 1])
  | .cons a rest => do
    let first ← a.evaluate r (level ++ [index])
    first.proceed k (.settled level k index rest.size) fun _ =>
      rest.evaluate r level k (index + 1)

end

/-- Whether an expression holds on a record; what happened is forgotten. -/
def Expression.verdict (r : Record) (e : Expression) :
    Except EvaluationError Bool :=
  (e.evaluate r []).map Findings.holds

end Rulebook
