import Mathlib
import Rulebook.Proofs.Exchanges
import Rulebook.Proofs.RoundTrip
import Rulebook.Record

/-!
# Expressions are read back from JSON

An expression in JSON does not name what it is made of: a literal is a bare
value, a group has the members of its expression beside its type, and a level of
one term has no connector. All of this is told apart by the members and their
values, so the expression is read back as it was, on all levels. Members are
found by their names, in whatever order they are.

Only numbers that JSON has not are lost. No rule has one, so what a client is
told of a rule's expression says as much as the text of the rule.
-/

namespace Rulebook

theorem Json.sizeOf_lt_of_member? {name : String} {value found : Json}
    (h : value.member? name = some found) : sizeOf found < sizeOf value := by
  cases value with
  | object members =>
      obtain ⟨⟨key, _⟩, hfind, rfl⟩ := Option.map_eq_some_iff.mp h
      have hmem := List.mem_reverse.mp (List.mem_of_find?_eq_some hfind)
      have hentry := List.sizeOf_lt_of_mem hmem
      simp only [Prod.mk.sizeOf_spec, Json.object.sizeOf_spec] at hentry ⊢
      omega
  | _ => cases h

/-! ## Reading -/

/-- The condition that a JSON value describes. -/
def Condition.ofJson? (value : Json) : Option Condition := do
  return {
    field := ← Json.required Json.string? (value.member? "field")
    operator := ← Json.required Operator.ofJson? (value.member? "operator")
    value := ← Json.required Scalar.ofJson? (value.member? "value") }

mutual

/-- The term that a JSON value describes, as its type says. -/
def Term.ofJson? (value : Json) : Option Term :=
  match value.member? "type" with
  | some (.string "condition") => (Condition.ofJson? value).map .condition
  | some (.string "group") => (Expression.ofJson? value).map .group
  | _ => none
termination_by (sizeOf value, 1)

/-- The expression that a JSON value describes: one term without a connector, or
several terms with one. -/
def Expression.ofJson? (value : Json) : Option Expression :=
  match value.member? "connector", _h : value.member? "terms" with
  | some .null, some (.array [item]) => (Term.ofJson? item).map .single
  | some connector, some (.array items) => do
    return .chain (← Connector.ofJson? connector) (← Terms.ofJsons? items)
  | _, _ => none
termination_by (sizeOf value, 0)
decreasing_by
  all_goals
    have hsmaller := Json.sizeOf_lt_of_member? _h
    simp only [Json.array.sizeOf_spec, List.cons.sizeOf_spec] at hsmaller
    exact .left _ _ (by omega)

/-- The two or more terms that some JSON values describe. -/
def Terms.ofJsons? : List Json → Option Terms
  | [a, b] => do return .pair (← Term.ofJson? a) (← Term.ofJson? b)
  | a :: b :: c :: rest => do
    return .cons (← Term.ofJson? a) (← Terms.ofJsons? (b :: c :: rest))
  | _ => none
termination_by items => (sizeOf items, 0)

end

theorem Operator.ofJson?_symbol (op : Operator) :
    ofJson? (.string op.symbol) = some op := ofSymbol?_symbol op

theorem Connector.ofJson?_keyword (k : Connector) :
    ofJson? (.string k.keyword) = some k := ofKeyword?_keyword k

namespace Expression

variable {value : Json}

theorem ofJson?_eq_single {item : Json} {t : Term}
    (hconnector : value.member? "connector" = some .null)
    (hterms : value.member? "terms" = some (.array [item]))
    (hitem : Term.ofJson? item = some t) : ofJson? value = some (.single t) := by
  rw [ofJson?]
  split
  · next _ hfound =>
    cases hterms.symm.trans hfound
    rw [hitem]
    rfl
  · next hother hfound hfound' =>
    cases hconnector.symm.trans hfound
    cases hterms.symm.trans hfound'
    exact absurd rfl (hother item rfl)
  · next hother => exact absurd hterms (hother .null [item] hconnector)

theorem ofJson?_eq_chain {k : Connector} {items : List Json} {ts : Terms}
    (hconnector : value.member? "connector" = some (.string k.keyword))
    (hterms : value.member? "terms" = some (.array items))
    (hitems : Terms.ofJsons? items = some ts) :
    ofJson? value = some (.chain k ts) := by
  rw [ofJson?]
  split
  · next _ hfound _ =>
    cases hconnector.symm.trans hfound
  · next _ hfound hfound' =>
    cases hconnector.symm.trans hfound
    cases hterms.symm.trans hfound'
    rw [Connector.ofJson?_keyword, hitems]
    rfl
  · next hother => exact absurd hterms (hother _ items hconnector)

end Expression

theorem Terms.exists_toJsons_eq (ts : Terms) :
    ∃ b c more, ts.toJsons = b :: c :: more := by
  cases ts with
  | pair a b => exact ⟨a.toJson, b.toJson, [], rfl⟩
  | cons a rest =>
      cases rest with
      | pair b c => exact ⟨a.toJson, b.toJson, [c.toJson], rfl⟩
      | cons b more => exact ⟨a.toJson, b.toJson, more.toJsons, rfl⟩

/-! ## Reading what was written -/

/-- All numbers of an expression, on every level, are finite. -/
def Expression.IsFinite (e : Expression) : Prop :=
  ∀ c ∈ e.conditions, ∀ x, c.value = .number x → x.isFinite = true

theorem Expression.IsWellFormed.isFinite
    {e : Expression} (h : e.IsWellFormed) : e.IsFinite := by
  intro c hc x hx
  have hlegible := (h.1 c hc).2
  rwa [hx] at hlegible

theorem Scalar.ofJson?_toJson
    {v : Scalar} (h : ∀ x, v = .number x → x.isFinite = true) :
    ofJson? v.toJson = some v := by
  cases v with
  | number x =>
      rw [toJson, Json.ofBinary64, if_pos (h x rfl)]
      rfl
  | string s => rfl
  | boolean b => rfl

theorem Condition.ofJson?_toJson
    {c : Condition} (h : ∀ x, c.value = .number x → x.isFinite = true) :
    ofJson? (Term.condition c).toJson = some c := by
  have hoperator : Json.required Operator.ofJson?
      ((Term.condition c).toJson.member? "operator") = some c.operator :=
    Operator.ofJson?_symbol c.operator
  have hvalue : Json.required Scalar.ofJson?
      ((Term.condition c).toJson.member? "value") = some c.value :=
    Scalar.ofJson?_toJson h
  rw [ofJson?, hoperator, hvalue]
  rfl

mutual

theorem Term.ofJson?_toJson : (t : Term) →
    (∀ c ∈ t.conditions, ∀ x, c.value = .number x → x.isFinite = true) →
    Term.ofJson? t.toJson = some t
  | .condition c, h => by
      have hcondition := Condition.ofJson?_toJson (h c List.mem_cons_self)
      have htype : (Term.condition c).toJson.member? "type" =
          some (.string "condition") := rfl
      rw [Term.ofJson?, htype]
      change (Condition.ofJson? _).map Term.condition = _
      rw [hcondition]
      rfl
  | .group e, h => by
      have htype : (Term.group e).toJson.member? "type" =
          some (.string "group") := by
        cases e <;> rfl
      have hbody : Expression.ofJson? (Term.group e).toJson = some e :=
        e.ofJson?_of_members h (by cases e <;> rfl) (by cases e <;> rfl)
      rw [Term.ofJson?, htype]
      change (Expression.ofJson? _).map Term.group = _
      rw [hbody]
      rfl

/-- Whatever has the members of an expression is read as the expression, also if
there are others beside them. -/
theorem Expression.ofJson?_of_members : (e : Expression) → e.IsFinite →
    {value : Json} →
    value.member? "connector" = e.toJson.member? "connector" →
    value.member? "terms" = e.toJson.member? "terms" →
    Expression.ofJson? value = some e
  | .single t, h, _, hconnector, hterms =>
      Expression.ofJson?_eq_single hconnector hterms (t.ofJson?_toJson h)
  | .chain _ ts, h, _, hconnector, hterms =>
      Expression.ofJson?_eq_chain hconnector hterms (ts.ofJsons?_toJsons h)

theorem Terms.ofJsons?_toJsons : (ts : Terms) →
    (∀ c ∈ ts.conditions, ∀ x, c.value = .number x → x.isFinite = true) →
    Terms.ofJsons? ts.toJsons = some ts
  | .pair a b, h => by
      have ha := a.ofJson?_toJson fun c hc =>
        h c (List.mem_append_left _ hc)
      have hb := b.ofJson?_toJson fun c hc =>
        h c (List.mem_append_right _ hc)
      rw [Terms.toJsons, Terms.ofJsons?, ha, hb]
      rfl
  | .cons a rest, h => by
      have ha := a.ofJson?_toJson fun c hc =>
        h c (List.mem_append_left _ hc)
      have hrest := rest.ofJsons?_toJsons fun c hc =>
        h c (List.mem_append_right _ hc)
      obtain ⟨b, c, more, hitems⟩ := rest.exists_toJsons_eq
      rw [Terms.toJsons, hitems, Terms.ofJsons?, ha, ← hitems, hrest]
      rfl

end

namespace Expression

theorem ofJson?_toJson {e : Expression} (h : e.IsFinite) :
    ofJson? e.toJson = some e := e.ofJson?_of_members h rfl rfl

theorem toJson_inj {e f : Expression} (he : e.IsFinite) (hf : f.IsFinite) :
    e.toJson = f.toJson ↔ e = f := by
  refine ⟨fun h => ?_, congrArg toJson⟩
  have hread : some e = some f := by
    rw [← ofJson?_toJson he, ← ofJson?_toJson hf, h]
  exact Option.some.inj hread

end Expression

/-! ## What clients are told of a rule -/

namespace Http

/-- What a client is told of a rule has the expression of which its text is the
canonical one. -/
theorem Exchange.exists_ast_of_writesRule
    {a : App} {v : Visit} (h : a.store.IsConsistent)
    (hwrites : v.request.WritesRule)
    (hstatus : (a.exchange v).response.status = 200) :
    ∃ data ast e, (a.exchange v).response.data? = some data ∧
      data.member? "ast" = some ast ∧ Expression.ofJson? ast = some e ∧
      data.member? "rule_string" = some (.string e.canonical) := by
  rcases a.visit_cases v with
    ⟨hfails, -⟩ | ⟨hreads, -⟩ | ⟨_, w, c, -, -, hauthor, -, hresponse⟩
  · exact absurd hstatus hfails
  · exact absurd hwrites hreads
  · obtain ⟨-, hwritten, hfaithful⟩ := h.author_eq_ok hauthor
    have hfinite : c.expression.IsFinite :=
      (Expression.isWellFormed_of_ofText hfaithful.ofText_eq).isFinite
    refine ⟨writtenRule c, c.expression.toJson, c.expression, ?_, rfl,
      Expression.ofJson?_toJson hfinite, ?_⟩
    · rw [hresponse]
      cases w <;> rfl
    · rw [← hwritten.text_eq]
      rfl

end Http

namespace Expression

/-- An expression with finite numbers is read back from its JSON, so it is the
only one with that JSON. No text is read as an expression with other numbers.
Whatever visits come to a new application, a client that is told of a rule being
written can read the expression, and the rule's text is its canonical text. -/
theorem ast_loses_nothing :
    (∀ e : Expression, e.IsFinite → ofJson? e.toJson = some e) ∧
    (∀ e f : Expression, e.IsFinite → f.IsFinite →
      (e.toJson = f.toJson ↔ e = f)) ∧
    (∀ text e, ofText text = .ok e → e.IsFinite) ∧
    ∀ (settings : RuleSettings) (visits : List Http.Visit),
      ∀ x ∈ ((Http.App.start settings).serve visits).1,
        x.request.WritesRule → x.response.status = 200 →
          ∃ data ast e, x.response.data? = some data ∧
            data.member? "ast" = some ast ∧ ofJson? ast = some e ∧
            data.member? "rule_string" = some (.string e.canonical) := by
  refine ⟨fun e => ofJson?_toJson, fun e f => toJson_inj,
    fun text e hread => (isWellFormed_of_ofText hread).isFinite, ?_⟩
  intro settings visits x hx hwrites hstatus
  obtain ⟨b, v, hconsistent, rfl⟩ :=
    Http.App.exists_exchange_of_mem_serve Store.isConsistent_empty hx
  exact Http.Exchange.exists_ast_of_writesRule hconsistent hwrites hstatus

theorem ast_loses_nothing_of_one_condition_in_a_group :
    let grouped := "a = -0 AND (a = '0')"
    let v : Http.Visit := ⟨⟨"r", "q", ⟨0, 0⟩⟩,
      ⟨"POST", ⟨"/api/v1/create", ""⟩, [("content-type", "application/json")],
        "[\"n\",\"\",\"a = -0 AND (a = '0')\"]"⟩⟩
    (∃ e f, ofText grouped = .ok e ∧ ofText "a = -0 AND a = '0'" = .ok f ∧
      e.IsFinite ∧ f.IsFinite ∧ ofJson? e.toJson = some e ∧
      e.toJson ≠ f.toJson) ∧
    ∃ x ∈ ((Http.App.start {}).serve [v]).1,
      x.request.WritesRule ∧ x.response.status = 200 ∧
        ∃ data ast e, x.response.data? = some data ∧
          data.member? "ast" = some ast ∧ ofJson? ast = some e ∧
          data.member? "rule_string" = some (.string e.canonical) := by
  intro grouped v
  obtain ⟨hdecodes, hinjective, hread, hserved⟩ := ast_loses_nothing
  let zero : Term := .condition
    ⟨"a", .equal, .number (Decimal.mk true 0 0).toBinary64⟩
  let quoted : Term := .condition ⟨"a", .equal, .string "0"⟩
  have he : ofText grouped =
      .ok (.chain .and (.pair zero (.group (.single quoted)))) := by
    cbv
  have hf : ofText "a = -0 AND a = '0'" =
      .ok (.chain .and (.pair zero quoted)) := by cbv
  refine ⟨⟨_, _, he, hf, hread _ _ he, hread _ _ hf,
    hdecodes _ (hread _ _ he), ?_⟩, ?_⟩
  · rw [ne_eq, hinjective _ _ (hread _ _ he) (hread _ _ hf)]
    decide
  · have hdraft : Http.readDraft v.request.body = .ok ⟨"n", "", grouped⟩ := by
      cbv
    have hcall : Http.Call.ofRequest v.request =
        .ok (.create ⟨"n", "", grouped⟩) :=
      Http.Call.ofRequest_eq_create ⟨rfl, rfl⟩ rfl (by decide) hdraft (by decide)
    have hok : ((Http.App.start {}).perform v.stamp
        (.create ⟨"n", "", grouped⟩)).isOk = true := by cbv
    cases hperform : (Http.App.start {}).perform v.stamp
        (.create ⟨"n", "", grouped⟩) with
    | error cause =>
        rw [hperform] at hok
        cases hok
    | ok told =>
        have hstatus :
            ((Http.App.start {}).exchange v).response.status = 200 := by
          rw [(Http.App.exchange_behind_of_told hcall hperform).1]
          rfl
        have hmem : (Http.App.start {}).exchange v ∈
            ((Http.App.start {}).serve [v]).1 := List.mem_cons_self
        have hwrites : v.request.WritesRule := .inl ⟨rfl, rfl⟩
        exact ⟨_, hmem, hwrites, hstatus,
          hserved {} [v] _ hmem hwrites hstatus⟩

end Expression

end Rulebook
