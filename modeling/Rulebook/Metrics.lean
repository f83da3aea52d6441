import Rulebook.Operator

/-!
# Metrics

What happens to requests and rules is entered in a ledger, one entry for each
event. The count of a series is the number of its entries.
-/

namespace Rulebook

/-- How the evaluation of a rule ended. -/
inductive Outcome where
  | matched
  | notMatched
  | error
deriving DecidableEq, Repr

/-- The name of an outcome in metrics. -/
def Outcome.name : Outcome → String
  | .matched => "matched"
  | .notMatched => "not_matched"
  | .error => "error"

/-- What is counted. -/
inductive Series where
  | rulesCreated
  | rulesUpdated
  | combinations (k : Connector) (accepted : Bool)
  | evaluations (outcome : Outcome)
  | evaluationTimes
  | requests (method path : String) (status : Nat)
  | requestTimes (method path : String) (status : Nat)
deriving DecidableEq, Repr

namespace Series

/-- The name of a series. -/
def name : Series → String
  | .rulesCreated => "rules_created_total"
  | .rulesUpdated => "rules_updated_total"
  | .combinations _ _ => "rule_combinations_total"
  | .evaluations _ => "rule_evaluations_total"
  | .evaluationTimes => "rule_evaluation_duration_seconds_count"
  | .requests _ _ _ => "http_requests_total"
  | .requestTimes _ _ _ => "http_request_duration_seconds_count"

/-- The labels that tell a series from others of its name. -/
def labels : Series → List (String × String)
  | .combinations k accepted =>
    [("operator", k.keyword),
      ("status", if accepted then "success" else "failed")]
  | .evaluations outcome => [("outcome", outcome.name)]
  | .requests method path status =>
    [("method", method), ("path", path), ("status", toString status)]
  | .requestTimes method path status =>
    [("method", method), ("path", path), ("status", toString status)]
  | _ => []

/-- The value of a label between quotes. A backslash in front of another one or
of a quote is taken as its escape; any other backslash and any other quote is
escaped. -/
def escaped : List Char → List Char
  | '\\' :: '\\' :: rest => '\\' :: '\\' :: escaped rest
  | '\\' :: '"' :: rest => '\\' :: '"' :: escaped rest
  | '\\' :: rest => '\\' :: '\\' :: escaped rest
  | '"' :: rest => '\\' :: '"' :: escaped rest
  | c :: rest => c :: escaped rest
  | [] => []

/-- The text of a label. -/
def labelText (name value : String) : String :=
  name ++ "=\"" ++ String.ofList (escaped value.toList) ++ "\""

/-- The text of a series: its name, and its labels between braces. -/
def text (s : Series) : String :=
  if s.labels.isEmpty then s.name
  else
    s.name ++ "\x7b" ++
      ",".intercalate (s.labels.map fun l => labelText l.1 l.2) ++ "\x7d"

end Series

/-- All that was recorded, in the order in which it happened. -/
structure Ledger where
  entries : List Series

namespace Ledger

/-- The ledger without entries. -/
def empty : Ledger := ⟨[]⟩

/-- Enters some events at the end. -/
def record (l : Ledger) (events : List Series) : Ledger :=
  ⟨l.entries ++ events⟩

/-- How often a series was recorded. -/
def count (l : Ledger) (s : Series) : Nat := l.entries.count s

/-- The series that were recorded with their counts, each once. -/
def counts (l : Ledger) : List (Series × Nat) :=
  l.entries.eraseDups.map fun s => (s, l.count s)

@[simp] theorem count_empty (s : Series) : empty.count s = 0 := rfl

@[simp] theorem count_record (l : Ledger) (events : List Series) (s : Series) :
    (l.record events).count s = l.count s + events.count s :=
  List.count_append

end Ledger

end Rulebook
