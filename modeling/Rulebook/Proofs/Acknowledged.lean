import Mathlib
import Rulebook.Proofs.Exchanges
import Rulebook.Proofs.FlatObjects

/-!
# What clients were told is what is stored

Clients can keep a log of the rules that they were told of being written. It is
all that there is to know about the rules: under each id is the rule that was
logged last, and what is asked about rules is answered by the log. A response
that tells of no rule being written stands for no change at all.

The log is made of responses alone, so it has texts where the store has points
in time, and JSON where the store has an expression.
-/

namespace Rulebook

/-! ## Notes -/

/-- A rule as clients are told of it. -/
structure RuleNote where
  id : String
  name : String
  description : String
  text : String
  createdAt : String
  updatedAt : String
  parents : List String
  ast : Json

namespace RuleNote

/-- The rule that some data tell of. -/
def ofJson? (data : Json) : Option RuleNote := do
  return {
    id := ← Json.required Json.string? (data.member? "id")
    name := ← Json.required Json.string? (data.member? "name")
    description := ← Json.required Json.string? (data.member? "description")
    text := ← Json.required Json.string? (data.member? "rule_string")
    createdAt := ← Json.required Json.string? (data.member? "created_at")
    updatedAt := ← Json.required Json.string? (data.member? "updated_at")
    parents := ← Json.required Json.strings? (data.member? "parent_rules")
    ast := ← data.member? "ast" }

/-- A rule without its expression as JSON. -/
def toJson (n : RuleNote) : Json :=
  .object [("id", .string n.id), ("name", .string n.name),
    ("description", .string n.description), ("rule_string", .string n.text),
    ("created_at", .string n.createdAt), ("updated_at", .string n.updatedAt),
    ("parent_rules", .array (n.parents.map .string))]

/-- The fields that the text of a rule mentions. -/
def fields (n : RuleNote) : Finset String :=
  match Expression.ofText n.text with
  | .ok e => (e.conditions.map Condition.field).toFinset
  | .error _ => ∅

/-- Applies the text of a rule to a record. -/
def evaluate (n : RuleNote) (traced : Bool) (r : Record) :
    Except RuleError Report := do
  let e ← (Expression.ofText n.text).mapError .unreadable
  let found ← (e.evaluate r []).mapError .evaluation
  return {
    ruleId := n.id
    ruleName := n.name
    ruleText := n.text
    holds := found.holds
    matched := found.matched.map Condition.canonical
    trace := if traced then found.events.map Event.text else [] }

/-- The note that was taken last under an id. -/
def latest? (log : List RuleNote) (id : String) : Option RuleNote :=
  log.reverse.find? fun n => n.id == id

/-- The ids under which notes were taken. -/
def ids (log : List RuleNote) : Finset String := (log.map RuleNote.id).toFinset

/-- A sum over the notes that were taken last. -/
def total (log : List RuleNote) (weight : RuleNote → Nat) : Nat :=
  ∑ id ∈ ids log, ((latest? log id).map weight).getD 0

/-- The numbers of rules, of those with parents, and of their fields. -/
def statistics (log : List RuleNote) : Statistics where
  rules := (ids log).card
  combined := total log fun n => if n.parents = [] then 0 else 1
  fields := total log fun n => n.fields.card

theorem latest?_append_singleton (log : List RuleNote) (n : RuleNote)
    (id : String) :
    latest? (log ++ [n]) id = if n.id = id then some n else latest? log id := by
  unfold latest?
  rw [List.reverse_append, List.reverse_singleton, List.singleton_append]
  by_cases hid : n.id = id
  · rw [if_pos hid, List.find?_cons_of_pos (by simpa using hid)]
  · rw [if_neg hid, List.find?_cons_of_neg (by simpa using hid)]

theorem mem_ids_iff (log : List RuleNote) (id : String) :
    id ∈ ids log ↔ (latest? log id).isSome = true := by
  simp [ids, latest?]

end RuleNote

/-- What is told of a compiled rule. -/
def CompiledRule.note (c : CompiledRule) : RuleNote :=
  ⟨c.rule.id, c.rule.name, c.rule.description, c.rule.text,
    c.rule.createdAt.text, c.rule.updatedAt.text, c.rule.parents,
    c.expression.toJson⟩

theorem CompiledRule.ofJson?_writtenRule (c : CompiledRule) :
    RuleNote.ofJson? (Http.writtenRule c) = some c.note := by
  have hparents (parents : List String) :
      (parents.map Json.string).mapM Json.string? = some parents := by
    induction parents with
    | nil => rfl
    | cons parent rest ih =>
        rw [List.map_cons, List.mapM_cons, ih]
        rfl
  have hstrings : Json.required Json.strings?
      ((Http.writtenRule c).member? "parent_rules") = some c.rule.parents :=
    hparents c.rule.parents
  simp only [RuleNote.ofJson?, hstrings]
  rfl

/-- Applying a faithful rule is applying its text. -/
theorem CompiledRule.IsFaithful.evaluate_note
    {c : CompiledRule} (h : c.IsFaithful) (traced : Bool) (r : Record) :
    c.note.evaluate traced r = (c.execute traced r).mapError .evaluation := by
  have hread : Expression.ofText c.note.text = .ok c.expression := h.ofText_eq
  unfold RuleNote.evaluate execute
  rw [hread]
  change (Except.mapError _ (c.expression.evaluate r []) >>= _) = _
  cases c.expression.evaluate r [] with
  | error cause => rfl
  | ok found => rfl

theorem CompiledRule.IsFaithful.card_fields_note
    {c : CompiledRule} (h : c.IsFaithful) :
    c.note.fields.card = c.requiredFields.length := by
  have hread : Expression.ofText c.note.text = .ok c.expression := h.ofText_eq
  have hsame : c.note.fields = c.requiredFields.toFinset := by
    ext field
    rw [RuleNote.fields, hread, List.mem_toFinset, List.mem_toFinset,
      h.mem_requiredFields_iff]
    simp
  rw [hsame, List.toFinset_card_of_nodup h.nodup_requiredFields]

namespace Http

/-! ## The log of what clients were told -/

/-- The rule that a client was told of being written. -/
def Exchange.note? (e : Exchange) : Option RuleNote :=
  if e.request.WritesRule ∧ e.response.status = 200 then
    e.response.data?.bind RuleNote.ofJson?
  else none

namespace App

variable {a : App} {v : Visit} {log : List RuleNote}

/-- A visit tells of no rule and leaves the rules alone, or it tells of a rule
that is recorded. -/
theorem note?_cases (h : a.store.IsConsistent) (v : Visit) :
    (¬(v.request.WritesRule ∧ (a.exchange v).response.status = 200) ∧
      (a.exchange v).note? = none ∧ (a.behind v).store = a.store) ∨
    ∃ c : CompiledRule,
      (v.request.WritesRule ∧ (a.exchange v).response.status = 200) ∧
        (a.exchange v).note? = some c.note ∧
        (a.behind v).store = a.store.record c ∧ c.IsFaithful := by
  rcases a.visit_cases v with
    ⟨hstatus, hstore⟩ | ⟨hwrites, hstore⟩ |
    ⟨_, w, c, -, -, hauthor, hwrites, hresponse⟩
  · have hnot : ¬(v.request.WritesRule ∧
        (a.exchange v).response.status = 200) := fun hboth => hstatus hboth.2
    exact .inl ⟨hnot, if_neg hnot, hstore⟩
  · have hnot : ¬(v.request.WritesRule ∧
        (a.exchange v).response.status = 200) := fun hboth => hwrites hboth.1
    exact .inl ⟨hnot, if_neg hnot, hstore⟩
  · obtain ⟨hstore, -, hfaithful⟩ := h.author_eq_ok hauthor
    have hdata : (a.exchange v).response.data? = some (writtenRule c) := by
      rw [hresponse]
      cases w <;> rfl
    have hstatus : (a.exchange v).response.status = 200 := by rw [hresponse]
    refine .inr ⟨c, ⟨hwrites, hstatus⟩, ?_, hstore, hfaithful⟩
    rw [Exchange.note?, if_pos ⟨hwrites, hstatus⟩, hdata, Option.bind_some,
      c.ofJson?_writtenRule]

/-- An application agrees with a log if under each id is what was logged last,
and the logged expressions are those that the logged texts spell. -/
structure Agrees (a : App) (log : List RuleNote) : Prop where
  get?_eq : ∀ id,
    (a.store.get? id).map CompiledRule.note = RuleNote.latest? log id
  ast_eq : ∀ n ∈ log, ∃ e, Expression.ofText n.text = .ok e ∧ n.ast = e.toJson
  isConsistent : a.store.IsConsistent

theorem agrees_start (settings : RuleSettings) : (start settings).Agrees [] where
  get?_eq _ := rfl
  ast_eq _ hn := absurd hn List.not_mem_nil
  isConsistent := Store.isConsistent_empty

theorem Agrees.behind (h : a.Agrees log) (v : Visit) :
    (a.behind v).Agrees (log ++ (a.exchange v).note?.toList) := by
  have hconsistent := isConsistent_behind h.isConsistent v
  rcases note?_cases h.isConsistent v with
    ⟨-, hnote, hstore⟩ | ⟨c, -, hnote, hstore, hfaithful⟩
  · rw [hnote, Option.toList_none, List.append_nil]
    refine ⟨?_, h.ast_eq, hconsistent⟩
    rw [hstore]
    exact h.get?_eq
  · rw [hnote, Option.toList_some]
    refine ⟨fun id => ?_, fun n hn => ?_, hconsistent⟩
    · rw [hstore, Store.get?_record, RuleNote.latest?_append_singleton]
      change _ = if c.rule.id = id then _ else _
      by_cases hid : c.rule.id = id
      · rw [if_pos hid, if_pos hid]
        rfl
      · rw [if_neg hid, if_neg hid, h.get?_eq]
    · rcases List.mem_append.mp hn with hn | hn
      · exact h.ast_eq n hn
      · rw [List.mem_singleton.mp hn]
        exact ⟨c.expression, hfaithful.ofText_eq, rfl⟩

theorem Agrees.serve (h : a.Agrees log) (visits : List Visit) :
    (a.serve visits).2.Agrees
      (log ++ (a.serve visits).1.filterMap Exchange.note?) := by
  induction visits generalizing a log with
  | nil =>
      change a.Agrees (log ++ [])
      rwa [List.append_nil]
  | cons v visits ih =>
      have hrest := ih (h.behind v)
      have hlog : log ++ (a.serve (v :: visits)).1.filterMap Exchange.note? =
          log ++ (a.exchange v).note?.toList ++
            ((a.behind v).serve visits).1.filterMap Exchange.note? := by
        rw [App.serve, List.append_assoc, List.filterMap_cons]
        cases (a.exchange v).note? with
        | none => rfl
        | some n => rfl
      rw [hlog]
      exact hrest

theorem settings_serve (a : App) (visits : List Visit) :
    (a.serve visits).2.settings = a.settings := by
  induction visits generalizing a with
  | nil => rfl
  | cons v visits ih => exact (ih (a.behind v)).trans (a.settings_behind v)

/-! ## Answers that can be read off the log -/

theorem Agrees.names_eq_ids (h : a.Agrees log) :
    a.store.rules.names.toFinset = RuleNote.ids log := by
  ext id
  rw [List.mem_toFinset, Table.mem_names_iff, RuleNote.mem_ids_iff,
    ← h.get?_eq, Option.isSome_map]
  rfl

theorem Agrees.sum_values
    (h : a.Agrees log) {weight : CompiledRule → Nat} {noted : RuleNote → Nat}
    (hweight : ∀ c ∈ a.store.rules.values, weight c = noted c.note) :
    (a.store.rules.values.map weight).sum = RuleNote.total log noted := by
  rw [List.map_congr_left hweight,
    a.store.rules.sum_values fun c => noted c.note, h.names_eq_ids,
    RuleNote.total]
  refine Finset.sum_congr rfl fun id _ => ?_
  rw [← h.get?_eq, Option.map_map]
  rfl

theorem Agrees.statistics_eq (h : a.Agrees log) :
    a.store.statistics = RuleNote.statistics log := by
  have hrules : a.store.rules.size = (RuleNote.ids log).card := by
    rw [← h.names_eq_ids, Table.card_names]
  have hcombined :
      (a.store.rules.values.countP fun c => !c.rule.parents.isEmpty) =
        RuleNote.total log fun n => if n.parents = [] then 0 else 1 := by
    rw [Store.countP_eq_sum]
    apply h.sum_values
    intro c hc
    cases hparents : c.rule.parents <;>
      simp [CompiledRule.note, hparents]
  have hfields :
      (a.store.rules.values.flatMap CompiledRule.requiredFields).length =
        RuleNote.total log fun n => n.fields.card := by
    rw [List.length_flatMap]
    apply h.sum_values
    intro c hc
    have hfaithful := h.isConsistent.faithful_of_mem_values hc
    exact hfaithful.card_fields_note.symm
  rw [Store.statistics, RuleNote.statistics, hrules, hcombined, hfields]

/-- An application follows a log if the log tells what is stored and how
questions about rules are answered, and nothing is changed without being told.
Data that are not flat are refused even if there is no such rule, and the first
reason is told. -/
structure Follows (a : App) (log : List RuleNote) : Prop where
  get?_eq : ∀ id,
    (a.store.get? id).map CompiledRule.note = RuleNote.latest? log id
  ofText_eq : ∀ id c, a.store.get? id = some c →
    Expression.ofText c.rule.text = .ok c.expression
  ast_eq : ∀ n ∈ log, ∃ e, Expression.ofText n.text = .ok e ∧ n.ast = e.toJson
  store_eq : ∀ v : Visit,
    ¬(v.request.WritesRule ∧ (a.exchange v).response.status = 200) →
      (a.behind v).store = a.store
  rule_eq : ∀ (v : Visit) (part : List Char) (id : String),
    v.request.method = "GET" →
    v.request.target.path = "/api/v1/rule/" ++ String.ofList part →
    part ≠ [] → '/' ∉ part → percentDecoded? part = some id →
      (a.exchange v).response =
        match RuleNote.latest? log id with
        | some n => ⟨200, .json (success "操作成功" n.toJson), []⟩
        | none =>
          ⟨404, .json (failure "RULE_NOT_FOUND"
            (RuleError.notFound id).message), []⟩
  health_eq : ∀ v : Visit,
    v.request.method = "GET" → v.request.target.path = "/api/v1/health" →
      (a.exchange v).response =
        ⟨200, .json (Reply.health (RuleNote.statistics log)).toJson, []⟩
  refuses_record : ∀ (v : Visit) (request : EvaluationRequest),
    v.request.Evaluates request → ¬request.data.IsFlat →
      ∃ cause, request.data.IsRefusedFor cause ∧
        (a.exchange v).response =
          ⟨400, .json (failure "INVALID_RECORD"
            (RuleError.record cause).message), []⟩
  evaluates : ∀ (v : Visit) (request : EvaluationRequest),
    v.request.Evaluates request → request.data.IsFlat →
      ∃ r : Record,
        (∀ field, r.get? field =
          (request.data.member? field).bind Scalar.ofJson?) ∧
        (a.exchange v).response =
          match RuleNote.latest? log request.ruleId with
          | some n => .ofAnswer
              ((n.evaluate a.settings.traceEvaluations r).map .evaluated)
          | none =>
            ⟨404, .json (failure "RULE_NOT_FOUND"
              (RuleError.notFound request.ruleId).message), []⟩

theorem Agrees.follows (h : a.Agrees log) : a.Follows log := by
  constructor
  · exact h.get?_eq
  · intro id c hget
    exact (h.isConsistent.isFaithful id c hget).ofText_eq
  · exact h.ast_eq
  · intro v hnot
    rcases note?_cases h.isConsistent v with
      ⟨-, -, hstore⟩ | ⟨c, hboth, -⟩
    · exact hstore
    · exact absurd hboth hnot
  · intro v part id hmethod hpath hne hslash hdecoded
    have hcall : Call.ofRequest v.request = .ok (.rule id) := by
      rw [Call.ofRequest_eq_ofEndpoint (e := .rule part) hpath ⟨hne, hslash⟩
        (by simp [hmethod, Endpoint.methods]), Call.ofEndpoint, readId, hdecoded]
      rfl
    rw [response_exchange_of_ok hcall (by simp [hmethod]), perform,
      Store.find, ← h.get?_eq]
    cases a.store.get? id with
    | none => rfl
    | some c => rfl
  · intro v hmethod hpath
    rw [← h.statistics_eq]
    exact a.response_health hmethod hpath
  · intro v request hasks hflat
    have hcall := Call.ofRequest_eq_evaluate_iff.mpr hasks
    rcases Record.ofJson_cases request.data with
      ⟨hflat', -⟩ | ⟨-, cause, hrecord⟩
    · exact absurd hflat' hflat
    · refine ⟨cause, Record.isRefusedFor_of_ofJson hrecord, ?_⟩
      rw [response_exchange_of_ok hcall (by simp [hasks.isEvaluation.1]),
        perform, report, hrecord]
      rfl
  · intro v request hasks hflat
    have hcall := Call.ofRequest_eq_evaluate_iff.mpr hasks
    rcases Record.ofJson_cases request.data with
      ⟨-, r, hrecord, hfields⟩ | ⟨hflat', -⟩
    · refine ⟨r, hfields, ?_⟩
      rw [response_exchange_of_ok hcall (by simp [hasks.isEvaluation.1]),
        perform, report, hrecord, ← h.get?_eq]
      change Response.ofAnswer (((a.store.evaluate a.settings.traceEvaluations
        request.ruleId r).map _).map _) = _
      cases hget : a.store.get? request.ruleId with
      | none =>
          rw [Store.evaluate, Store.find, hget]
          rfl
      | some c =>
          have hfaithful := h.isConsistent.isFaithful _ c hget
          rw [Store.evaluate, Store.find, hget]
          simp only [Option.map_some, hfaithful.evaluate_note]
          cases c.execute a.settings.traceEvaluations r with
          | error cause => rfl
          | ok report => rfl
    · exact absurd hflat hflat'

/-- The client that creates a rule is told of it. -/
theorem note?_of_created {draft : RuleDraft} {c : CompiledRule}
    (hcall : Call.ofRequest v.request = .ok (.create draft))
    (htold : (a.perform v.stamp (.create draft)).map Prod.fst =
      .ok (.created c)) :
    (a.exchange v).note? = some c.note := by
  have hcreation : v.request.IsCreation :=
    (Call.isOfKindOf_of_ofRequest hcall).creation.mpr ⟨draft, rfl⟩
  have hresponse : (a.exchange v).response =
      ⟨200, .json (Reply.created c).toJson, []⟩ := by
    rw [response_exchange_of_ok hcall (by simp [hcreation.1]), htold]
    rfl
  have hwrites : (a.exchange v).request.WritesRule := .inl hcreation
  have hdata : (a.exchange v).response.data? = some (writtenRule c) := by
    rw [hresponse]
    rfl
  rw [Exchange.note?, if_pos ⟨hwrites, by rw [hresponse]⟩, hdata,
    Option.bind_some, c.ofJson?_writtenRule]

/-- Whatever visits come to a new application, it follows the log of the rules
that clients were told of. The log has a note for each success of a request to
write a rule, and no other ones. -/
theorem serve_follows_log (settings : RuleSettings) (visits : List Visit) :
    let served := (start settings).serve visits
    served.2.settings = settings ∧
      served.2.Follows (served.1.filterMap Exchange.note?) ∧
      ∀ e ∈ served.1, e.note?.isSome = true ↔
        e.request.WritesRule ∧ e.response.status = 200 := by
  intro served
  refine ⟨settings_serve _ visits, ?_, ?_⟩
  · exact ((agrees_start settings).serve visits).follows
  · intro e he
    obtain ⟨b, v, hconsistent, rfl⟩ :=
      exists_exchange_of_mem_serve Store.isConsistent_empty he
    rcases note?_cases hconsistent v with
      ⟨hnot, hnote, -⟩ | ⟨c, hboth, hnote, -⟩
    · rw [hnote]
      exact ⟨nofun, fun hboth => absurd hboth hnot⟩
    · rw [hnote]
      exact ⟨fun _ => hboth, fun _ => rfl⟩

/-- A rule is created, applied to a record, and applied to data that are none. -/
theorem serve_follows_log_of_evaluated_rule :
    let json := [("content-type", "application/json")]
    let creation : Visit := ⟨⟨"a", "x", ⟨0, 0⟩⟩,
      ⟨"POST", ⟨"/api/v1/create", ""⟩, json, "[\"n\",\"\",\"v=true\"]"⟩⟩
    let evaluation : Visit := ⟨⟨"b", "y", ⟨1, 0⟩⟩,
      ⟨"POST", ⟨"/api/v1/evaluate", ""⟩, json, "[\"a\",\x7b\"v\":true\x7d]"⟩⟩
    let refused : Visit := ⟨⟨"c", "z", ⟨2, 0⟩⟩,
      ⟨"POST", ⟨"/api/v1/evaluate", ""⟩, json, "[\"a\",\x7b\"v\":[]\x7d]"⟩⟩
    let report : Report := ⟨"a", "n", "v = true", true, ["v = true"], []⟩
    let served := (start {}).serve [creation]
    (∃ n, served.1.filterMap Exchange.note? = [n] ∧
      n.id = "a" ∧ n.text = "v = true") ∧
    (served.2.exchange evaluation).response =
      ⟨200, .json (Reply.evaluated report).toJson, []⟩ ∧
    (served.2.exchange refused).response =
      ⟨400, .json (failure "INVALID_RECORD" (RuleError.record
        (.unsupportedValue "v" .array)).message), []⟩ := by
  intro json creation evaluation refused report served
  let c : CompiledRule :=
    ⟨⟨"a", "n", "", "v = true", ⟨0, 0⟩, ⟨0, 0⟩, []⟩,
      .single (.condition ⟨"v", .equal, .boolean true⟩), ["v"], 1⟩
  have hdraft : readDraft "[\"n\",\"\",\"v=true\"]" =
      .ok ⟨"n", "", "v=true"⟩ := by
    cbv
  have hcall : Call.ofRequest creation.request =
      .ok (.create ⟨"n", "", "v=true"⟩) :=
    Call.ofRequest_eq_create ⟨rfl, rfl⟩ rfl (by decide) hdraft (by decide)
  have htold : ((start {}).perform ⟨"a", "x", ⟨0, 0⟩⟩
      (.create ⟨"n", "", "v=true"⟩)).map Prod.fst = .ok (.created c) := by
    cbv
  have hlog : served.1.filterMap Exchange.note? = [c.note] := by
    change [(start {}).exchange creation].filterMap Exchange.note? = _
    rw [List.filterMap_cons, note?_of_created hcall htold, List.filterMap_nil]
  have hgood : evaluation.request.Evaluates
      ⟨"a", .object [("v", .boolean true)]⟩ :=
    ⟨⟨rfl, rfl⟩, rfl, by decide, by cbv, by decide⟩
  have hbad : refused.request.Evaluates ⟨"a", .object [("v", .array [])]⟩ :=
    ⟨⟨rfl, rfl⟩, rfl, by decide, by cbv, by decide⟩
  obtain ⟨hsettings, hfollows, -⟩ := serve_follows_log {} [creation]
  rw [hlog] at hfollows
  refine ⟨⟨c.note, hlog, rfl, rfl⟩, ?_, ?_⟩
  · have hflat : (Json.object [("v", .boolean true)]).IsFlat := by
      rw [Record.isFlat_object_iff]
      decide
    obtain ⟨r, hfields, hresponse⟩ :=
      hfollows.evaluates evaluation _ hgood hflat
    have hfield : r.get? "v" = some (.boolean true) := hfields "v"
    have hread : Expression.ofText c.note.text = .ok c.expression := by cbv
    have hfound : c.expression.evaluate r [] =
        .ok ⟨true, [.compared [0] ⟨"v", .equal, .boolean true⟩ true]⟩ := by
      change Condition.evaluate r _ _ = _
      rw [Condition.evaluate, hfield]
      rfl
    have hevaluate : c.note.evaluate false r = .ok report := by
      rw [RuleNote.evaluate, hread]
      change (Except.mapError _ (c.expression.evaluate r []) >>= _) = _
      rw [hfound]
      cbv
    have hlatest : RuleNote.latest? [c.note] "a" = some c.note := rfl
    rw [hresponse, hlatest, hsettings]
    change Response.ofAnswer ((c.note.evaluate false r).map .evaluated) = _
    rw [hevaluate]
    rfl
  · have hflat : ¬(Json.object [("v", .array [])]).IsFlat := by
      rw [Record.isFlat_object_iff]
      decide
    obtain ⟨cause, hcause, hresponse⟩ :=
      hfollows.refuses_record refused _ hbad hflat
    rw [hresponse]
    cases hcause with
    | notAnObject hshape => exact absurd rfl hshape
    | unsupportedValue hfirst =>
        have hlist : Json.IsFirstUnsupported [("v", .array [])] "v" .array := by
          rw [← Record.ofJson_object_eq_unsupported_iff]
          rfl
        obtain ⟨rfl, rfl⟩ := hfirst.unique hlist
        rfl

end App

end Http

end Rulebook
