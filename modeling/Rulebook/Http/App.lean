import Rulebook.Http.Response
import Rulebook.Metrics
import Rulebook.Settings.Basic
import Rulebook.Store.Authoring

/-!
# The application

The application holds the rules and the metrics. A request becomes a call or is
refused; a call is carried out on the rules; and what came of either is entered
in the ledger and told to the client. Only calls that succeed change the rules.
-/

namespace Rulebook.Http

/-- The state of the application. -/
structure App where
  settings : RuleSettings
  store : Store
  ledger : Ledger

/-- What is new with each request: an id for a rule, an id for the request, and
the time. -/
structure Stamp where
  ruleId : String
  requestId : String
  now : Instant
deriving DecidableEq

namespace App

/-- The application without rules. -/
def start (settings : RuleSettings) : App := ⟨settings, .empty, .empty⟩

/-- Applies a rule to the data of a request. Data that are no record are
reported even if there is no such rule. -/
def report (a : App) (request : EvaluationRequest) :
    Except RuleError Report := do
  let record ← (Record.ofJson request.data).mapError .record
  a.store.evaluate a.settings.traceEvaluations request.ruleId record

/-- Carries out a call: what is told, and the rules afterwards. -/
def perform (a : App) (stamp : Stamp) :
    Call → Except RuleError (Reply × Store)
  | .create draft =>
    (a.store.create stamp.ruleId stamp.now draft).map fun (c, s) =>
      (.created c, s)
  | .update id draft =>
    (a.store.revise id stamp.now draft).map fun (c, s) => (.updated c, s)
  | .combine request =>
    (a.store.combine stamp.ruleId stamp.now request).map fun (c, s) =>
      (.combined c, s)
  | .evaluate request =>
    (a.report request).map fun r => (.evaluated r, a.store)
  | .rule id => (a.store.find id).map fun c => (.rule c.rule, a.store)
  | .fetch page limit =>
    (a.store.page (page.getD 1) (a.settings.pageLimit limit)).map fun p =>
      (.page p, a.store)
  | .health => .ok (.health a.store.statistics, a.store)

end App

/-- The outcome of an evaluation. -/
def outcome : Except RuleError Reply → Outcome
  | .ok (.evaluated r) => if r.holds then .matched else .notMatched
  | _ => .error

/-- What a call and its answer add to the ledger. -/
def Call.events (answer : Except RuleError Reply) : Call → List Series
  | .create _ => if answer.isOk then [.rulesCreated] else []
  | .update _ _ => if answer.isOk then [.rulesUpdated] else []
  | .combine request => [.combinations request.connector answer.isOk]
  | .evaluate _ => [.evaluations (outcome answer), .evaluationTimes]
  | _ => []

/-- What a request and its response add to the ledger. -/
def Request.events (r : Request) (status : Nat) : List Series :=
  [.requests r.method r.target.path status,
    .requestTimes r.method r.target.path status]

/-- The id of a request: its own, if it is plain text, and a new one
otherwise. -/
def Request.id (r : Request) (stamp : Stamp) : String :=
  (r.header? "x-request-id").getD stamp.requestId

namespace App

/-- Answers a request, except that it may be asked for the head only. -/
def answer (a : App) (stamp : Stamp) (r : Request) : Response × App :=
  match Call.ofRequest r with
  | .error refusal => (.ofRefusal refusal, a)
  | .ok call =>
    let result := a.perform stamp call
    let told := result.map Prod.fst
    let store :=
      match result with
      | .ok (_, store) => store
      | .error _ => a.store
    (.ofAnswer told,
      { a with store := store, ledger := a.ledger.record (call.events told) })

/-- Answers a request. -/
def respond (a : App) (stamp : Stamp) (r : Request) : Response × App :=
  let (response, a) := a.answer stamp r
  (if r.method = "HEAD" then response.headOnly else response,
    { a with ledger := a.ledger.record (r.events response.status) })

end App

end Rulebook.Http
