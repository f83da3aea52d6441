import Mathlib
import Rulebook.Http.App
import Rulebook.Proofs.Authoring
import Rulebook.Proofs.Routes

/-!
# Exchanges with the application

Of a request comes one of three things: it is refused, or its call fails, or its
call succeeds. Only the last has the status of success, and the rules are other
ones behind it only if the call was to write a rule.
-/

namespace Rulebook.Http

/-- A request, and what is new when it comes. -/
structure Visit where
  stamp : Stamp
  request : Request

/-- A request and the response to it. -/
structure Exchange where
  request : Request
  response : Response

/-- The data in the envelope of a response. -/
def Response.data? (p : Response) : Option Json :=
  match p.content with
  | .json value => value.member? "data"
  | _ => none

namespace App

/-- The exchange that a visit is. -/
def exchange (a : App) (v : Visit) : Exchange :=
  ⟨v.request, (a.respond v.stamp v.request).1⟩

/-- The application behind a visit. -/
def behind (a : App) (v : Visit) : App := (a.respond v.stamp v.request).2

/-- The exchanges that some visits are, one after the other, and the application
behind them. -/
def serve (a : App) : List Visit → List Exchange × App
  | [] => ([], a)
  | v :: visits =>
    let rest := (a.behind v).serve visits
    (a.exchange v :: rest.1, rest.2)

end App

/-! ## Requests for rules -/

namespace Request

/-- A request to create a rule. -/
abbrev IsCreation (r : Request) : Prop :=
  r.method = "POST" ∧ r.target.path = "/api/v1/create"

/-- A request to update a rule. -/
abbrev IsUpdate (r : Request) : Prop :=
  r.method = "PUT" ∧ "/api/v1/update/".toList <+: r.target.path.toList

/-- A request to combine rules. -/
abbrev IsCombination (r : Request) : Prop :=
  r.method = "POST" ∧ r.target.path = "/api/v1/combine"

/-- A request to evaluate a rule. -/
abbrev IsEvaluation (r : Request) : Prop :=
  r.method = "POST" ∧ r.target.path = "/api/v1/evaluate"

/-- A request for a rule to be written. -/
abbrev WritesRule (r : Request) : Prop :=
  r.IsCreation ∨ r.IsUpdate ∨ r.IsCombination

/-- A response as it is sent: its head only, if no more was asked for. -/
def shown (r : Request) (p : Response) : Response :=
  if r.method = "HEAD" then p.headOnly else p

@[simp] theorem status_shown (r : Request) (p : Response) :
    (r.shown p).status = p.status := by
  unfold shown
  split <;> rfl

theorem shown_of_ne {r : Request} (h : r.method ≠ "HEAD") (p : Response) :
    r.shown p = p := if_neg h

theorem shown_of_isEvaluation {r : Request} (h : r.IsEvaluation)
    (p : Response) : r.shown p = p := by
  apply shown_of_ne
  rw [h.1]
  decide

theorem shown_of_writesRule {r : Request} (h : r.WritesRule) (p : Response) :
    r.shown p = p := by
  apply shown_of_ne
  rcases h with ⟨hmethod, -⟩ | ⟨hmethod, -⟩ | ⟨hmethod, -⟩
  · rw [hmethod]
    decide
  · rw [hmethod]
    decide
  · rw [hmethod]
    decide

end Request

/-- A call is of the kind that the method and the path of its request say. -/
structure Call.IsOfKindOf (call : Call) (r : Request) : Prop where
  creation : r.IsCreation ↔ ∃ draft, call = .create draft
  update : r.IsUpdate ↔ ∃ id draft, call = .update id draft
  combination : r.IsCombination ↔ ∃ request, call = .combine request
  evaluation : r.IsEvaluation ↔ ∃ request, call = .evaluate request

open Request in
theorem Call.isOfKindOf_of_ofRequest {r : Request} {call : Call}
    (h : Call.ofRequest r = .ok call) : call.IsOfKindOf r := by
  obtain ⟨e, hmade, -, hpath, hmethod⟩ := exists_madeAt_of_ofRequest h
  have hread (hmethod : r.method ∈ ["GET", "HEAD"]) :
      r.method ≠ "POST" ∧ r.method ≠ "PUT" := by
    rcases List.mem_pair.mp hmethod with hget | hhead
    · rw [hget]
      decide
    · rw [hhead]
      decide
  cases hmade with
  | create _ | update _ _ | combine _ | evaluate _ =>
      have hmethod := List.mem_singleton.mp hmethod
      constructor <;> simp [IsCreation, IsUpdate, IsCombination, IsEvaluation,
        hpath, hmethod, Endpoint.path]
  | rule _ | fetch _ _ | health =>
      obtain ⟨hpost, hput⟩ := hread hmethod
      constructor <;> simp [IsCreation, IsUpdate, IsCombination, IsEvaluation,
        hpost, hput]

/-- A request to evaluate a rule with which nothing is wrong: its body is said
to be JSON, is not too large, and reads as what is to be evaluated. Whether there
is such a rule, or a record in the data, is another matter. -/
structure Request.Evaluates (r : Request) (request : EvaluationRequest) :
    Prop where
  isEvaluation : r.IsEvaluation
  hasJsonBody : r.hasJsonBody = true
  size_le : r.body.utf8ByteSize ≤ 2 * 1024 * 1024
  readEvaluation_eq : readEvaluation r.body = .ok request
  ruleId_ne : request.ruleId ≠ ""

theorem Call.ofRequest_eq_evaluate_iff
    {r : Request} {request : EvaluationRequest} :
    ofRequest r = .ok (.evaluate request) ↔ r.Evaluates request := by
  constructor
  · intro h
    have hkind := (isOfKindOf_of_ofRequest h).evaluation.mpr ⟨request, rfl⟩
    rw [ofRequest_eq_ofEndpoint (e := .evaluate) hkind.2 trivial
      (by simp [hkind.1, Endpoint.methods]), ofEndpoint] at h
    obtain ⟨found, hbody, hfound⟩ := exists_of_bind_eq_ok h
    by_cases hid : found.ruleId = ""
    · rw [if_pos hid] at hfound
      cases hfound
    · rw [if_neg hid] at hfound
      cases hfound
      obtain ⟨hjson, hsize, hread⟩ := Request.readBody_eq_ok_iff.mp hbody
      exact ⟨hkind, hjson, hsize, hread, hid⟩
  · rintro ⟨⟨hmethod, hpath⟩, hjson, hsize, hread, hid⟩
    rw [ofRequest_eq_ofEndpoint (e := .evaluate) hpath trivial
      (by simp [hmethod, Endpoint.methods]), ofEndpoint,
      Request.readBody_eq_ok_iff.mpr ⟨hjson, hsize, hread⟩]
    exact if_neg hid

theorem Call.ofRequest_eq_create
    {r : Request} {draft : RuleDraft} (hcreation : r.IsCreation)
    (hjson : r.hasJsonBody = true) (hsize : r.body.utf8ByteSize ≤ maxBodySize)
    (hread : readDraft r.body = .ok draft)
    (hname : checkName draft.name = .ok ()) :
    ofRequest r = .ok (.create draft) := by
  rw [ofRequest_eq_ofEndpoint (e := .create) hcreation.2 trivial
    (by simp [hcreation.1, Endpoint.methods]), ofEndpoint,
    Request.readBody_eq_ok_iff.mpr ⟨hjson, hsize, hread⟩]
  change (checkName draft.name >>= fun _ => _) = _
  rw [hname]
  rfl

/-! ## Calls that write rules -/

/-- The operation that a call is, if it is to write a rule. -/
def Call.authoring? (stamp : Stamp) : Call → Option Authoring
  | .create draft => some (.create stamp.ruleId stamp.now draft)
  | .update id draft => some (.revise id stamp.now draft)
  | .combine request => some (.combine stamp.ruleId stamp.now request)
  | _ => none

theorem Call.IsOfKindOf.writesRule_iff {call : Call} {r : Request}
    (h : call.IsOfKindOf r) (stamp : Stamp) :
    r.WritesRule ↔ (call.authoring? stamp).isSome = true := by
  rw [Request.WritesRule, h.creation, h.update, h.combination]
  cases call <;> simp [authoring?]

end Http

/-- What is told of the rule that an operation wrote. -/
def Authoring.reply (c : CompiledRule) : Authoring → Http.Reply
  | .create _ _ _ => .created c
  | .revise _ _ _ => .updated c
  | .combine _ _ _ => .combined c

namespace Http

namespace App

variable {a : App} {v : Visit} {call : Call}

theorem perform_of_authoring? {stamp : Stamp} {w : Authoring}
    (h : call.authoring? stamp = some w) :
    a.perform stamp call =
      match a.store.author w with
      | (.ok c, t) => .ok (w.reply c, t)
      | (.error cause, _) => .error cause := by
  cases call with
  | create draft =>
      cases h
      rw [perform, Store.author]
      rcases a.store.create stamp.ruleId stamp.now draft with cause | p <;> rfl
  | update id draft =>
      cases h
      rw [perform, Store.author]
      rcases a.store.revise id stamp.now draft with cause | p <;> rfl
  | combine request =>
      cases h
      rw [perform, Store.author]
      rcases a.store.combine stamp.ruleId stamp.now request with cause | p <;>
        rfl
  | _ => cases h

/-- A call that succeeds has written a rule, or left the rules alone. -/
theorem perform_eq_ok_cases {stamp : Stamp} {reply : Reply} {t : Store}
    (h : a.perform stamp call = .ok (reply, t)) :
    (∃ w c, call.authoring? stamp = some w ∧
      a.store.author w = (.ok c, t) ∧ reply = w.reply c) ∨
    call.authoring? stamp = none ∧ t = a.store := by
  cases hcall : call.authoring? stamp with
  | some w =>
      rw [perform_of_authoring? hcall] at h
      cases hauthor : a.store.author w with
      | mk answer u =>
          rw [hauthor] at h
          cases answer with
          | error cause => cases h
          | ok c =>
              cases h
              exact .inl ⟨w, c, rfl, hauthor, rfl⟩
  | none =>
      refine .inr ⟨rfl, ?_⟩
      have hread {α : Type} {answer : Except RuleError α} {f : α → Reply}
          (h : (answer.map fun x => (f x, a.store)) = .ok (reply, t)) :
          t = a.store := by
        cases answer with
        | error cause => cases h
        | ok x =>
            cases h
            rfl
      cases call with
      | create _ | update _ _ | combine _ => cases hcall
      | evaluate _ | rule _ | fetch _ _ => exact hread h
      | health =>
          cases h
          rfl

/-! ## What comes of a visit -/

theorem exchange_behind_of_refused {refusal : Refusal}
    (h : Call.ofRequest v.request = .error refusal) :
    a.exchange v = ⟨v.request, v.request.shown (.ofRefusal refusal)⟩ ∧
      a.behind v = { a with
        ledger := a.ledger.record
          (v.request.events (Response.ofRefusal refusal).status) } := by
  simp [exchange, behind, respond, answer, h, Request.shown]

theorem exchange_behind_of_failed {cause : RuleError}
    (h : Call.ofRequest v.request = .ok call)
    (hfails : a.perform v.stamp call = .error cause) :
    a.exchange v = ⟨v.request, v.request.shown (.ofError cause)⟩ ∧
      a.behind v = { a with
        ledger := (a.ledger.record (call.events (.error cause))).record
          (v.request.events (Response.ofError cause).status) } := by
  simp [exchange, behind, respond, answer, h, hfails, Request.shown,
    Except.map, Response.ofAnswer]

theorem exchange_behind_of_told {reply : Reply} {t : Store}
    (h : Call.ofRequest v.request = .ok call)
    (htold : a.perform v.stamp call = .ok (reply, t)) :
    a.exchange v = ⟨v.request, v.request.shown ⟨200, .json reply.toJson, []⟩⟩ ∧
      a.behind v = { a with
        store := t
        ledger := (a.ledger.record (call.events (.ok reply))).record
          (v.request.events 200) } := by
  simp [exchange, behind, respond, answer, h, htold, Request.shown,
    Except.map, Response.ofAnswer]

theorem response_exchange_of_ok
    (h : Call.ofRequest v.request = .ok call)
    (hmethod : v.request.method ≠ "HEAD") :
    (a.exchange v).response =
      .ofAnswer ((a.perform v.stamp call).map Prod.fst) := by
  simp [exchange, respond, answer, h, hmethod]

theorem response_health (a : App) {v : Visit}
    (hmethod : v.request.method = "GET")
    (hpath : v.request.target.path = "/api/v1/health") :
    (a.exchange v).response =
      ⟨200, .json (Reply.health a.store.statistics).toJson, []⟩ := by
  have hcall : Call.ofRequest v.request = .ok .health := by
    rw [Call.ofRequest_eq_ofEndpoint (e := .health) hpath trivial
      (by simp [hmethod, Endpoint.methods])]
    rfl
  rw [response_exchange_of_ok hcall (by simp [hmethod])]
  rfl

theorem status_ofRefusal_ne (refusal : Refusal) :
    (Response.ofRefusal refusal).status ≠ 200 := by
  cases refusal with
  | body fault => cases fault <;> simp [Response.ofRefusal]
  | _ => simp [Response.ofRefusal]

theorem status_ofError_ne (cause : RuleError) :
    (Response.ofError cause).status ≠ 200 := by
  cases cause <;> simp [Response.ofError]

/-- A visit has no success, or nothing was to be written, or a rule was written.
The rules are other ones only in the last case. -/
theorem visit_cases (a : App) (v : Visit) :
    ((a.exchange v).response.status ≠ 200 ∧ (a.behind v).store = a.store) ∨
    (¬v.request.WritesRule ∧ (a.behind v).store = a.store) ∨
    ∃ call w c, Call.ofRequest v.request = .ok call ∧
      call.authoring? v.stamp = some w ∧
      a.store.author w = (.ok c, (a.behind v).store) ∧
      v.request.WritesRule ∧
      (a.exchange v).response = ⟨200, .json (w.reply c).toJson, []⟩ := by
  cases hcall : Call.ofRequest v.request with
  | error refusal =>
      obtain ⟨hexchange, hbehind⟩ := exchange_behind_of_refused hcall (a := a)
      rw [hexchange, hbehind]
      exact .inl ⟨by simpa using status_ofRefusal_ne refusal, rfl⟩
  | ok call =>
      have hkind := Call.isOfKindOf_of_ofRequest hcall
      cases hperform : a.perform v.stamp call with
      | error cause =>
          obtain ⟨hexchange, hbehind⟩ :=
            exchange_behind_of_failed hcall hperform
          rw [hexchange, hbehind]
          exact .inl ⟨by simpa using status_ofError_ne cause, rfl⟩
      | ok told =>
          obtain ⟨reply, t⟩ := told
          obtain ⟨hexchange, hbehind⟩ := exchange_behind_of_told hcall hperform
          rw [hexchange, hbehind]
          rcases perform_eq_ok_cases hperform with
            ⟨w, c, hauthoring, hauthor, rfl⟩ | ⟨hauthoring, rfl⟩
          · have hwrites : v.request.WritesRule := by
              rw [hkind.writesRule_iff v.stamp, hauthoring]
              rfl
            refine .inr (.inr ⟨call, w, c, rfl, hauthoring, hauthor, hwrites, ?_⟩)
            exact Request.shown_of_writesRule hwrites _
          · refine .inr (.inl ⟨?_, rfl⟩)
            rw [hkind.writesRule_iff v.stamp, hauthoring]
            decide

theorem settings_behind (a : App) (v : Visit) :
    (a.behind v).settings = a.settings := by
  change (a.answer v.stamp v.request).2.settings = a.settings
  unfold answer
  split <;> rfl

theorem isConsistent_behind
    (h : a.store.IsConsistent) (v : Visit) :
    (a.behind v).store.IsConsistent := by
  rcases a.visit_cases v with
    ⟨-, hstore⟩ | ⟨-, hstore⟩ | ⟨_, w, c, -, -, hauthor, -⟩
  · rwa [hstore]
  · rwa [hstore]
  · have hact := h.act (.author w)
    rwa [Store.act, hauthor] at hact

theorem exists_exchange_of_mem_serve
    (h : a.store.IsConsistent) {visits : List Visit} {e : Exchange}
    (he : e ∈ (a.serve visits).1) :
    ∃ (b : App) (v : Visit), b.store.IsConsistent ∧ e = b.exchange v := by
  induction visits generalizing a with
  | nil => exact absurd he List.not_mem_nil
  | cons v visits ih =>
      rcases List.mem_cons.mp he with rfl | he
      · exact ⟨a, v, h, rfl⟩
      · exact ih (isConsistent_behind h v) he

end App

end Rulebook.Http
