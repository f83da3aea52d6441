import Mathlib
import Rulebook.Proofs.Exchanges

/-!
# The ledger tells what happened

Every entry of the ledger stands for something that a client was told, and
nothing that a client was told is left out. So the totals of the series are the
numbers of exchanges of a kind, and they tell how many rules there are and how
many of them were combined.
-/

namespace Rulebook

/-! ## Totals -/

/-- Whether a series has a name and, maybe among others, some labels. -/
def Series.fits (name : String) (labels : List (String × String))
    (s : Series) : Bool :=
  s.name == name && labels.all fun label => s.labels.contains label

/-- The sum of the counts of all series with a name and some labels. -/
def Ledger.total (l : Ledger) (name : String)
    (labels : List (String × String)) : Nat :=
  ((l.counts.filter fun c => c.1.fits name labels).map Prod.snd).sum

theorem nodup_eraseDups {α : Type} [BEq α] [LawfulBEq α] :
    (xs : List α) → xs.eraseDups.Nodup
  | [] => List.nodup_nil
  | x :: xs => by
      rw [List.eraseDups_cons, List.nodup_cons, List.mem_eraseDups]
      exact ⟨by simp, nodup_eraseDups _⟩
termination_by xs => xs.length
decreasing_by
  exact Nat.lt_succ_of_le (List.length_filter_le _ _)

theorem elim_const {α β : Type} (o : Option α) (b : β) :
    (o.elim b fun _ => b) = b := by
  cases o with
  | none => rfl
  | some a => rfl

theorem Ledger.total_eq_countP
    (l : Ledger) (name : String) (labels : List (String × String)) :
    l.total name labels = l.entries.countP (Series.fits name labels) := by
  have hperm : l.entries.eraseDups.Perm l.entries.dedup := by
    rw [List.perm_ext_iff_of_nodup (nodup_eraseDups _) (List.nodup_dedup _)]
    simp
  rw [← List.sum_map_count_dedup_filter_eq_countP, total, counts,
    List.filter_map, List.map_map]
  exact ((hperm.filter _).map _).sum_eq

namespace Http

/-! ## What can be read off an exchange -/

/-- The combination that a request asks for, if it is accepted as a call. -/
def Request.combination? (r : Request) : Option CombinationRequest :=
  match Call.ofRequest r with
  | .ok (.combine request) => some request
  | _ => none

theorem Request.isCombination_of_combination?
    {r : Request} {request : CombinationRequest}
    (h : r.combination? = some request) : r.IsCombination := by
  unfold combination? at h
  split at h
  · next own hcall =>
    exact (Call.isOfKindOf_of_ofRequest hcall).combination.mpr ⟨own, rfl⟩
  · cases h

/-- The evaluation that a request asks for, if it is accepted as a call. -/
def Request.evaluation? (r : Request) : Option EvaluationRequest :=
  match Call.ofRequest r with
  | .ok (.evaluate request) => some request
  | _ => none

/-- Whether a rule holds, as a response tells. -/
def Response.holds? (p : Response) : Option Bool :=
  match p.data?.bind (Json.member? "result") with
  | some (.boolean holds) => some holds
  | _ => none

namespace Exchange

/-- A rule was created. -/
abbrev IsCreated (e : Exchange) : Prop :=
  e.request.IsCreation ∧ e.response.status = 200

/-- A rule was updated. -/
abbrev IsUpdated (e : Exchange) : Prop :=
  e.request.IsUpdate ∧ e.response.status = 200

/-- Rules were combined by a connector. -/
abbrev IsCombined (k : Connector) (e : Exchange) : Prop :=
  (e.request.IsCombination ∧ e.response.status = 200) ∧
    e.request.combination?.map CombinationRequest.connector = some k

/-- Rules were not combined by a connector although the request was accepted. -/
abbrev IsCombinationFailed (k : Connector) (e : Exchange) : Prop :=
  e.response.status ≠ 200 ∧
    e.request.combination?.map CombinationRequest.connector = some k

/-- Rules were combined, by whichever connector. -/
abbrev IsCombinationDone (e : Exchange) : Prop :=
  e.response.status = 200 ∧ e.request.combination?.isSome = true

/-- A rule was evaluated, and it holds or does not. -/
abbrev IsEvaluated (holds : Bool) (e : Exchange) : Prop :=
  (e.request.IsEvaluation ∧ e.response.status = 200) ∧
    e.response.holds? = some holds

/-- A rule was not evaluated although the request was accepted. -/
abbrev IsEvaluationFailed (e : Exchange) : Prop :=
  e.response.status ≠ 200 ∧ e.request.evaluation?.isSome = true

/-- How the evaluation ended that was asked for. -/
def outcome? (e : Exchange) : Option Outcome :=
  if e.IsEvaluated true then some .matched
  else if e.IsEvaluated false then some .notMatched
  else if e.IsEvaluationFailed then some .error
  else none

/-- The entries that an exchange stands for. -/
def entries (e : Exchange) : List Series :=
  (if e.IsCreated then [Series.rulesCreated] else []) ++
    (if e.IsUpdated then [Series.rulesUpdated] else []) ++
    (e.request.combination?.map fun request =>
      Series.combinations request.connector
        (decide (e.response.status = 200))).toList ++
    (e.outcome?.toList.flatMap fun o =>
      [Series.evaluations o, Series.evaluationTimes]) ++
    e.request.events e.response.status

theorem entries_of_status_ne {e : Exchange} (h : e.response.status ≠ 200) :
    e.entries =
      (e.request.combination?.map fun request =>
        Series.combinations request.connector false).toList ++
      (if e.request.evaluation?.isSome = true then
        [Series.evaluations .error, Series.evaluationTimes] else []) ++
      e.request.events e.response.status := by
  have hcreated : ¬e.IsCreated := fun hboth => h hboth.2
  have hupdated : ¬e.IsUpdated := fun hboth => h hboth.2
  have hevaluated (holds : Bool) : ¬e.IsEvaluated holds :=
    fun hboth => h hboth.1.2
  rw [entries, outcome?, if_neg hcreated, if_neg hupdated,
    if_neg (hevaluated true), if_neg (hevaluated false), decide_eq_false h]
  by_cases haccepted : e.request.evaluation?.isSome = true
  · rw [if_pos ⟨h, haccepted⟩, if_pos haccepted]
    rfl
  · rw [if_neg fun hboth => haccepted hboth.2, if_neg haccepted]
    rfl

theorem entries_of_not_isEvaluation {e : Exchange}
    (h : e.response.status = 200) (hevaluation : ¬e.request.IsEvaluation) :
    e.entries =
      (if e.request.IsCreation then [Series.rulesCreated] else []) ++
      (if e.request.IsUpdate then [Series.rulesUpdated] else []) ++
      (e.request.combination?.map fun request =>
        Series.combinations request.connector true).toList ++
      e.request.events 200 := by
  have hevaluated (holds : Bool) : ¬e.IsEvaluated holds :=
    fun hboth => hevaluation hboth.1.1
  have hfailed : ¬e.IsEvaluationFailed := fun hboth => hboth.1 h
  rw [entries, outcome?, if_neg (hevaluated true), if_neg (hevaluated false),
    if_neg hfailed, decide_eq_true h]
  simp only [IsCreated, IsUpdated, h, and_true]
  simp

theorem entries_of_evaluation {e : Exchange} {request : EvaluationRequest}
    {holds : Bool} (hcall : Call.ofRequest e.request = .ok (.evaluate request))
    (h : e.response.status = 200) (hholds : e.response.holds? = some holds) :
    e.entries =
      [.evaluations (if holds = true then .matched else .notMatched),
        .evaluationTimes] ++ e.request.events 200 := by
  have hkind := Call.isOfKindOf_of_ofRequest hcall
  have hevaluation : e.request.IsEvaluation := hkind.evaluation.mpr ⟨_, rfl⟩
  have hcreated : ¬e.IsCreated := by
    rintro ⟨hcreation, -⟩
    obtain ⟨_, ⟨⟩⟩ := hkind.creation.mp hcreation
  have hupdated : ¬e.IsUpdated := by
    rintro ⟨hupdate, -⟩
    obtain ⟨_, _, ⟨⟩⟩ := hkind.update.mp hupdate
  have houtcome : e.outcome? =
      some (if holds = true then .matched else .notMatched) := by
    cases holds with
    | true => rw [outcome?, if_pos ⟨⟨hevaluation, h⟩, hholds⟩, if_pos rfl]
    | false =>
        have hnot : ¬e.IsEvaluated true := by
          rintro ⟨-, htrue⟩
          rw [hholds] at htrue
          cases htrue
        rw [outcome?, if_neg hnot, if_pos ⟨⟨hevaluation, h⟩, hholds⟩]
        rfl
  rw [entries, if_neg hcreated, if_neg hupdated, houtcome,
    Request.combination?, hcall, h]
  rfl

end Exchange

namespace App

theorem ledger_behind (a : App) (v : Visit) :
    (a.behind v).ledger = a.ledger.record (a.exchange v).entries := by
  cases hcall : Call.ofRequest v.request with
  | error refusal =>
      obtain ⟨hexchange, hbehind⟩ := exchange_behind_of_refused hcall (a := a)
      have hstatus : (a.exchange v).response.status ≠ 200 := by
        simpa [hexchange] using status_ofRefusal_ne refusal
      rw [Exchange.entries_of_status_ne hstatus, hexchange, hbehind]
      simp [Request.combination?, Request.evaluation?, hcall]
  | ok call =>
      have hkind := Call.isOfKindOf_of_ofRequest hcall
      cases hperform : a.perform v.stamp call with
      | error cause =>
          obtain ⟨hexchange, hbehind⟩ :=
            exchange_behind_of_failed hcall hperform
          have hstatus : (a.exchange v).response.status ≠ 200 := by
            simpa [hexchange] using status_ofError_ne cause
          rw [Exchange.entries_of_status_ne hstatus, hexchange, hbehind]
          cases call <;>
            simp [Request.combination?, Request.evaluation?, hcall,
              Call.events, Ledger.record, outcome, Except.isOk, Except.toBool]
      | ok told =>
          obtain ⟨reply, t⟩ := told
          obtain ⟨hexchange, hbehind⟩ := exchange_behind_of_told hcall hperform
          have hstatus : (a.exchange v).response.status = 200 := by
            simp [hexchange]
          cases call with
          | evaluate request =>
              obtain ⟨report, rfl⟩ : ∃ report, reply = .evaluated report := by
                rw [perform] at hperform
                cases hreport : a.report request with
                | error cause =>
                    rw [hreport] at hperform
                    cases hperform
                | ok report =>
                    rw [hreport] at hperform
                    cases hperform
                    exact ⟨report, rfl⟩
              have hshown := Request.shown_of_isEvaluation
                (hkind.evaluation.mpr ⟨request, rfl⟩)
                ⟨200, .json (Reply.evaluated report).toJson, []⟩
              rw [hshown] at hexchange
              have hholds : (a.exchange v).response.holds? =
                  some report.holds := by
                rw [hexchange]
                rfl
              rw [Exchange.entries_of_evaluation (e := a.exchange v) hcall
                hstatus hholds, hbehind]
              simp [Call.events, Ledger.record, outcome, exchange]
          | _ =>
              have hevaluation : ¬(a.exchange v).request.IsEvaluation := by
                rw [hexchange, hkind.evaluation]
                rintro ⟨_, ⟨⟩⟩
              rw [Exchange.entries_of_not_isEvaluation hstatus hevaluation,
                hexchange, hbehind]
              simp [Request.combination?, hcall, hkind.creation, hkind.update,
                Call.events, Ledger.record, Except.isOk, Except.toBool]

theorem ledger_serve (a : App) (visits : List Visit) :
    (a.serve visits).2.ledger =
      a.ledger.record ((a.serve visits).1.flatMap Exchange.entries) := by
  induction visits generalizing a with
  | nil =>
      change a.ledger = ⟨a.ledger.entries ++ []⟩
      rw [List.append_nil]
  | cons v visits ih =>
      rw [serve, List.flatMap_cons, ih, a.ledger_behind, Ledger.record,
        Ledger.record, Ledger.record, List.append_assoc]

/-- The total of some series is the number of the exchanges for each of which
there is one entry in these series. -/
theorem total_serve
    {name : String} {labels : List (String × String)} {q : Exchange → Prop}
    [DecidablePred q]
    (h : ∀ e : Exchange,
      e.entries.countP (Series.fits name labels) = if q e then 1 else 0)
    (settings : RuleSettings) (visits : List Visit) :
    ((start settings).serve visits).2.ledger.total name labels =
      ((start settings).serve visits).1.countP fun e => q e := by
  rw [Ledger.total_eq_countP, ledger_serve]
  change List.countP _ ([] ++ List.flatMap _ _) = _
  rw [List.nil_append, List.countP_flatMap, Store.countP_eq_sum]
  refine congrArg List.sum (List.map_congr_left fun e _ => ?_)
  simpa using h e

end App

namespace Exchange

variable (e : Exchange)

theorem countP_entries (p : Series → Bool) :
    e.entries.countP p =
      (if e.IsCreated then [Series.rulesCreated].countP p else 0) +
      (if e.IsUpdated then [Series.rulesUpdated].countP p else 0) +
      (e.request.combination?.elim 0 fun request =>
        [Series.combinations request.connector
          (decide (e.response.status = 200))].countP p) +
      (e.outcome?.elim 0 fun o =>
        [Series.evaluations o, .evaluationTimes].countP p) +
      (e.request.events e.response.status).countP p := by
  unfold entries
  rw [List.countP_append, List.countP_append, List.countP_append,
    List.countP_append, apply_ite (List.countP p), apply_ite (List.countP p)]
  congr 2
  · congr 1
    cases e.request.combination? with
    | none => rfl
    | some request => rfl
  · cases e.outcome? with
    | none => rfl
    | some o => rfl

theorem countP_created :
    e.entries.countP (Series.fits "rules_created_total" []) =
      if e.IsCreated then 1 else 0 := by
  rw [countP_entries]
  simp [Series.fits, Series.name, Request.events, elim_const]

theorem countP_updated :
    e.entries.countP (Series.fits "rules_updated_total" []) =
      if e.IsUpdated then 1 else 0 := by
  rw [countP_entries]
  simp [Series.fits, Series.name, Request.events, elim_const]

/-- Only combinations have entries in the series of combinations. -/
theorem countP_combinations (labels : List (String × String)) :
    e.entries.countP (Series.fits "rule_combinations_total" labels) =
      e.request.combination?.elim 0 fun request =>
        [Series.combinations request.connector
          (decide (e.response.status = 200))].countP
            (Series.fits "rule_combinations_total" labels) := by
  rw [countP_entries]
  simp [Series.fits, Series.name, Request.events, elim_const]

/-- Only evaluations have entries in the series of evaluations. -/
theorem countP_evaluations (labels : List (String × String)) :
    e.entries.countP (Series.fits "rule_evaluations_total" labels) =
      e.outcome?.elim 0 fun o =>
        [Series.evaluations o].countP
          (Series.fits "rule_evaluations_total" labels) := by
  rw [countP_entries]
  simp [Series.fits, Series.name, Request.events, elim_const, List.countP_cons]

theorem countP_combined (k : Connector) :
    e.entries.countP (Series.fits "rule_combinations_total"
        [("operator", k.keyword), ("status", "success")]) =
      if e.IsCombined k then 1 else 0 := by
  have hfits (l : Connector) (accepted : Bool) :
      Series.fits "rule_combinations_total"
        [("operator", k.keyword), ("status", "success")]
        (.combinations l accepted) = (accepted && decide (l = k)) := by
    cases k <;> cases l <;> cases accepted <;> decide
  rw [countP_combinations]
  rcases Option.eq_none_or_eq_some e.request.combination? with
    hnone | ⟨request, hsome⟩
  · simp [IsCombined, hnone]
  · have hkind := Request.isCombination_of_combination? hsome
    simp [IsCombined, hsome, hfits, eq_true hkind]

theorem countP_combinationFailed (k : Connector) :
    e.entries.countP (Series.fits "rule_combinations_total"
        [("operator", k.keyword), ("status", "failed")]) =
      if e.IsCombinationFailed k then 1 else 0 := by
  have hfits (l : Connector) (accepted : Bool) :
      Series.fits "rule_combinations_total"
        [("operator", k.keyword), ("status", "failed")]
        (.combinations l accepted) = (!accepted && decide (l = k)) := by
    cases k <;> cases l <;> cases accepted <;> decide
  rw [countP_combinations]
  rcases Option.eq_none_or_eq_some e.request.combination? with
    hnone | ⟨request, hsome⟩
  · simp [IsCombinationFailed, hnone]
  · simp [IsCombinationFailed, hsome, hfits]

theorem countP_combinationDone :
    e.entries.countP (Series.fits "rule_combinations_total"
        [("status", "success")]) =
      if e.IsCombinationDone then 1 else 0 := by
  have hfits (l : Connector) (accepted : Bool) :
      Series.fits "rule_combinations_total" [("status", "success")]
        (.combinations l accepted) = accepted := by
    cases l <;> cases accepted <;> decide
  rw [countP_combinations]
  rcases Option.eq_none_or_eq_some e.request.combination? with
    hnone | ⟨request, hsome⟩
  · simp [IsCombinationDone, hnone]
  · simp [IsCombinationDone, hsome, hfits]

theorem countP_outcome (o : Outcome) :
    e.entries.countP (Series.fits "rule_evaluations_total" [("outcome", o.name)]) =
      if e.outcome? = some o then 1 else 0 := by
  rw [countP_evaluations]
  cases e.outcome? with
  | none => simp
  | some own => cases own <;> cases o <;> decide

theorem countP_requests :
    e.entries.countP (Series.fits "http_requests_total" []) = 1 := by
  rw [countP_entries]
  simp [Series.fits, Series.name, Request.events, elim_const]

theorem outcome?_eq_some_iff (holds : Bool) :
    e.outcome? = some (if holds = true then .matched else .notMatched) ↔
      e.IsEvaluated holds := by
  have hexclusive (htrue : e.IsEvaluated true) : ¬e.IsEvaluated false := by
    intro hfalse
    have hsame := htrue.2.symm.trans hfalse.2
    cases hsame
  unfold outcome?
  by_cases htrue : e.IsEvaluated true
  · rw [if_pos htrue]
    cases holds with
    | true => simpa using htrue
    | false => simpa using hexclusive htrue
  · rw [if_neg htrue]
    by_cases hfalse : e.IsEvaluated false
    · rw [if_pos hfalse]
      cases holds with
      | true => simpa using htrue
      | false => simpa using hfalse
    · rw [if_neg hfalse]
      have hneither : ¬e.IsEvaluated holds := by
        cases holds with
        | true => exact htrue
        | false => exact hfalse
      refine iff_of_false ?_ hneither
      split_ifs <;> simp

theorem outcome?_eq_error_iff :
    e.outcome? = some .error ↔ e.IsEvaluationFailed := by
  unfold outcome?
  by_cases hfailed : e.IsEvaluationFailed
  · have hevaluated (holds : Bool) : ¬e.IsEvaluated holds :=
      fun hboth => hfailed.1 hboth.1.2
    rw [if_neg (hevaluated true), if_neg (hevaluated false), if_pos hfailed]
    exact iff_of_true rfl hfailed
  · rw [if_neg hfailed]
    refine iff_of_false ?_ hfailed
    split_ifs <;> simp

theorem countP_evaluated (holds : Bool) :
    e.entries.countP (Series.fits "rule_evaluations_total"
        [("outcome", if holds = true then "matched" else "not_matched")]) =
      if e.IsEvaluated holds then 1 else 0 := by
  have hcount := e.countP_outcome
    (if holds = true then .matched else .notMatched)
  rw [if_congr (e.outcome?_eq_some_iff holds) rfl rfl] at hcount
  cases holds with
  | true => exact hcount
  | false => exact hcount

theorem countP_evaluationFailed :
    e.entries.countP (Series.fits "rule_evaluations_total"
        [("outcome", "error")]) =
      if e.IsEvaluationFailed then 1 else 0 := by
  rw [← if_congr e.outcome?_eq_error_iff rfl rfl]
  exact e.countP_outcome .error

end Exchange

end Http

/-! ## How many rules there are -/

namespace Store

variable {s : Store} {c : CompiledRule}

/-- A rule with a new id is one more, also among those with parents if it has
some. -/
theorem statistics_record_of_new (hnew : s.get? c.rule.id = none) :
    (s.record c).statistics.rules = s.statistics.rules + 1 ∧
      (s.record c).statistics.combined =
        s.statistics.combined + if c.rule.parents = [] then 0 else 1 := by
  have hsum := s.rules.sum_values_insert c.rule.id c
  have hnone : s.rules.get? c.rule.id = none := hnew
  simp only [hnone, Option.map_none, Option.getD_none, Nat.add_zero] at hsum
  constructor
  · simp only [statistics, record, Table.size_eq_sum]
    exact hsum _
  · simp only [statistics, record, countP_eq_sum, hsum]
    cases c.rule.parents <;> simp

/-- A rule that takes the place of one with its parents changes no number. -/
theorem statistics_record_of_old {old : CompiledRule}
    (hold : s.get? c.rule.id = some old)
    (hparents : c.rule.parents = old.rule.parents) :
    (s.record c).statistics.rules = s.statistics.rules ∧
      (s.record c).statistics.combined = s.statistics.combined := by
  have hsum := s.rules.sum_values_insert c.rule.id c
  have hsome : s.rules.get? c.rule.id = some old := hold
  simp only [hsome, Option.map_some, Option.getD_some] at hsum
  constructor
  · simp only [statistics, record, Table.size_eq_sum]
    exact Nat.add_right_cancel (hsum _)
  · simp only [statistics, record, countP_eq_sum]
    have hcombined := hsum fun d =>
      if (!d.rule.parents.isEmpty) = true then 1 else 0
    rw [hparents] at hcombined
    exact Nat.add_right_cancel hcombined

end Store

namespace Http

namespace App

variable {a : App} {v : Visit}

/-- A rule more is there behind a creation and behind a combination, and only
the latter has parents. An update keeps the parents of its rule. -/
theorem statistics_behind
    (h : a.store.IsConsistent) (hnew : a.store.get? v.stamp.ruleId = none) :
    (a.behind v).store.statistics.rules = a.store.statistics.rules +
        (if (a.exchange v).IsCreated then 1 else 0) +
        (if (a.exchange v).IsCombinationDone then 1 else 0) ∧
      (a.behind v).store.statistics.combined = a.store.statistics.combined +
        (if (a.exchange v).IsCombinationDone then 1 else 0) := by
  rcases a.visit_cases v with
    ⟨hstatus, hstore⟩ | ⟨hwrites, hstore⟩ |
    ⟨call, w, c, hcall, hauthoring, hauthor, -, hresponse⟩
  · have hcreated : ¬(a.exchange v).IsCreated := fun hboth => hstatus hboth.2
    have hdone : ¬(a.exchange v).IsCombinationDone :=
      fun hboth => hstatus hboth.1
    rw [hstore, if_neg hcreated, if_neg hdone]
    exact ⟨rfl, rfl⟩
  · have hcreated : ¬(a.exchange v).IsCreated :=
      fun hboth => hwrites (.inl hboth.1)
    have hdone : ¬(a.exchange v).IsCombinationDone := by
      rintro ⟨-, hsome⟩
      obtain ⟨request, hrequest⟩ := Option.isSome_iff_exists.mp hsome
      exact hwrites (.inr (.inr
        (Request.isCombination_of_combination? hrequest)))
    rw [hstore, if_neg hcreated, if_neg hdone]
    exact ⟨rfl, rfl⟩
  · have hkind := Call.isOfKindOf_of_ofRequest hcall
    have hstatus : (a.exchange v).response.status = 200 := by rw [hresponse]
    obtain ⟨hstore, hwrites, -⟩ := h.author_eq_ok hauthor
    rw [hstore]
    cases call with
    | create draft =>
        cases hauthoring
        have hrule := hwrites.2
        have hcreated : (a.exchange v).IsCreated :=
          ⟨hkind.creation.mpr ⟨draft, rfl⟩, hstatus⟩
        have hdone : ¬(a.exchange v).IsCombinationDone := by
          simp [exchange, Request.combination?, hcall]
        obtain ⟨hrules, hcombined⟩ := Store.statistics_record_of_new (c := c)
          (by rw [hrule]; exact hnew)
        rw [if_pos hcreated, if_neg hdone, hrules, hcombined, hrule]
        exact ⟨rfl, rfl⟩
    | update id draft =>
        cases hauthoring
        obtain ⟨-, old, hold, hrule⟩ := hwrites
        have hcreated : ¬(a.exchange v).IsCreated := by
          rintro ⟨hcreation, -⟩
          obtain ⟨_, ⟨⟩⟩ := hkind.creation.mp hcreation
        have hdone : ¬(a.exchange v).IsCombinationDone := by
          simp [exchange, Request.combination?, hcall]
        obtain ⟨hrules, hcombined⟩ := Store.statistics_record_of_old (c := c)
          (by rw [hrule]; exact hold) (by rw [hrule])
        rw [if_neg hcreated, if_neg hdone, hrules, hcombined]
        exact ⟨rfl, rfl⟩
    | combine request =>
        cases hauthoring
        obtain ⟨⟨sources, hsources, hcombines⟩, hrule⟩ := hwrites
        have hparents : c.rule.parents ≠ [] := by
          rw [hrule]
          intro hnil
          have hnil : request.sources = [] := hnil
          rw [hnil] at hsources
          have hempty : sources = [] := List.map_eq_nil_iff.mp hsources.symm
          exact hcombines.ne_nil (List.map_eq_nil_iff.mpr hempty)
        have hcreated : ¬(a.exchange v).IsCreated := by
          rintro ⟨hcreation, -⟩
          obtain ⟨_, ⟨⟩⟩ := hkind.creation.mp hcreation
        have hdone : (a.exchange v).IsCombinationDone :=
          ⟨hstatus, by simp [exchange, Request.combination?, hcall]⟩
        obtain ⟨hrules, hcombined⟩ := Store.statistics_record_of_new (c := c)
          (by rw [hrule]; exact hnew)
        rw [if_neg hcreated, if_pos hdone, hrules, hcombined,
          if_neg hparents]
        exact ⟨rfl, rfl⟩
    | _ => cases hauthoring

/-- An id that is not in use is not taken by a visit that brings another one. -/
theorem get?_behind_of_ne
    (h : a.store.IsConsistent) {id : String} (hnone : a.store.get? id = none)
    (hne : id ≠ v.stamp.ruleId) : (a.behind v).store.get? id = none := by
  rcases a.visit_cases v with
    ⟨-, hstore⟩ | ⟨-, hstore⟩ | ⟨call, w, c, -, hauthoring, hauthor, -⟩
  · rwa [hstore]
  · rwa [hstore]
  · obtain ⟨hstore, hwrites, -⟩ := h.author_eq_ok hauthor
    have hother : c.rule.id ≠ id := by
      cases call with
      | create draft =>
          cases hauthoring
          rw [hwrites.2]
          exact hne.symm
      | update own draft =>
          cases hauthoring
          obtain ⟨-, old, hold, hrule⟩ := hwrites
          rw [hrule]
          rintro rfl
          have hclash := hold.symm.trans hnone
          cases hclash
      | combine request =>
          cases hauthoring
          rw [hwrites.2]
          exact hne.symm
      | _ => cases hauthoring
    rw [hstore, Store.get?_record, if_neg hother, hnone]

theorem length_serve (a : App) (visits : List Visit) :
    (a.serve visits).1.length = visits.length := by
  induction visits generalizing a with
  | nil => rfl
  | cons v visits ih => exact congrArg (· + 1) (ih (a.behind v))

theorem statistics_serve
    (h : a.store.IsConsistent) {visits : List Visit}
    (hids : (visits.map fun v => v.stamp.ruleId).Nodup)
    (hnew : ∀ v ∈ visits, a.store.get? v.stamp.ruleId = none) :
    (a.serve visits).2.store.statistics.rules = a.store.statistics.rules +
        ((a.serve visits).1.countP fun e => e.IsCreated) +
        ((a.serve visits).1.countP fun e => e.IsCombinationDone) ∧
      (a.serve visits).2.store.statistics.combined =
        a.store.statistics.combined +
          (a.serve visits).1.countP fun e => e.IsCombinationDone := by
  induction visits generalizing a with
  | nil => exact ⟨rfl, rfl⟩
  | cons v visits ih =>
      rw [List.map_cons, List.nodup_cons] at hids
      obtain ⟨hfresh, hids⟩ := hids
      have hrest : ∀ u ∈ visits,
          (a.behind v).store.get? u.stamp.ruleId = none := by
        intro u hu
        apply get?_behind_of_ne h (hnew u (List.mem_cons_of_mem v hu))
        intro hsame
        apply hfresh
        rw [← hsame]
        exact List.mem_map_of_mem hu
      obtain ⟨hrules, hcombined⟩ :=
        statistics_behind h (hnew v List.mem_cons_self)
      obtain ⟨hallRules, hallCombined⟩ :=
        ih (isConsistent_behind h v) hids hrest
      rw [serve, hallRules, hallCombined, hrules, hcombined,
        List.countP_cons, List.countP_cons]
      simp only [decide_eq_true_eq]
      omega

/-- A request that is refused is only counted as a request. -/
theorem total_behind_of_refused {refusal : Refusal}
    (h : Call.ofRequest v.request = .error refusal) {name : String}
    (hrequests : name ≠ "http_requests_total")
    (htimes : name ≠ "http_request_duration_seconds_count")
    (labels : List (String × String)) :
    (a.behind v).ledger.total name labels = a.ledger.total name labels := by
  obtain ⟨-, hbehind⟩ := exchange_behind_of_refused h (a := a)
  rw [hbehind, Ledger.total_eq_countP, Ledger.total_eq_countP]
  change List.countP _ (_ ++ Request.events _ _) = _
  rw [List.countP_append]
  simp [Request.events, Series.fits, Series.name, hrequests.symm, htimes.symm]

/-- The totals of the metrics are the numbers of what clients were told, and
what is refused is counted nowhere but among the requests. If all new rules have
ids of their own, the totals also tell how many rules there are and how many of
them were combined. -/
theorem ledger_tells_what_happened
    (settings : RuleSettings) (visits : List Visit)
    (hids : (visits.map fun v => v.stamp.ruleId).Nodup) :
    let served := (start settings).serve visits
    let total := served.2.ledger.total
    total "rules_created_total" [] = (served.1.countP fun e => e.IsCreated) ∧
    total "rules_updated_total" [] = (served.1.countP fun e => e.IsUpdated) ∧
    (∀ k : Connector,
      total "rule_combinations_total"
          [("operator", k.keyword), ("status", "success")] =
        (served.1.countP fun e => e.IsCombined k) ∧
      total "rule_combinations_total"
          [("operator", k.keyword), ("status", "failed")] =
        served.1.countP fun e => e.IsCombinationFailed k) ∧
    total "rule_evaluations_total" [("outcome", "matched")] =
      (served.1.countP fun e => e.IsEvaluated true) ∧
    total "rule_evaluations_total" [("outcome", "not_matched")] =
      (served.1.countP fun e => e.IsEvaluated false) ∧
    total "rule_evaluations_total" [("outcome", "error")] =
      (served.1.countP fun e => e.IsEvaluationFailed) ∧
    total "http_requests_total" [] = visits.length ∧
    (∀ (v : Visit) (refusal : Refusal),
      Call.ofRequest v.request = .error refusal → ∀ name labels,
        name ≠ "http_requests_total" →
        name ≠ "http_request_duration_seconds_count" →
          (served.2.behind v).ledger.total name labels = total name labels) ∧
    served.2.store.statistics.rules = total "rules_created_total" [] +
      total "rule_combinations_total" [("status", "success")] ∧
    served.2.store.statistics.combined =
      total "rule_combinations_total" [("status", "success")] ∧
    ∀ v : Visit,
      v.request.method = "GET" → v.request.target.path = "/api/v1/health" →
        (served.2.exchange v).response =
          ⟨200, .json (Reply.health served.2.store.statistics).toJson, []⟩ := by
  intro served total
  have hcreated : total "rules_created_total" [] =
      served.1.countP fun e => e.IsCreated :=
    total_serve Exchange.countP_created settings visits
  have hdone : total "rule_combinations_total" [("status", "success")] =
      served.1.countP fun e => e.IsCombinationDone :=
    total_serve Exchange.countP_combinationDone settings visits
  have hrequests : total "http_requests_total" [] =
      served.1.countP fun _ => True :=
    total_serve (fun e => by simp [e.countP_requests]) settings visits
  obtain ⟨hrules, hcombined⟩ := statistics_serve (a := start settings)
    Store.isConsistent_empty hids fun _ _ => rfl
  refine ⟨hcreated, ?_, fun k => ⟨?_, ?_⟩, ?_, ?_, ?_, ?_, ?_, ?_, ?_, ?_⟩
  · exact total_serve Exchange.countP_updated settings visits
  · exact total_serve (fun e => e.countP_combined k) settings visits
  · exact total_serve (fun e => e.countP_combinationFailed k) settings visits
  · exact total_serve (fun e => e.countP_evaluated true) settings visits
  · exact total_serve (fun e => e.countP_evaluated false) settings visits
  · exact total_serve Exchange.countP_evaluationFailed settings visits
  · rw [hrequests, List.countP_eq_length.mpr (by simp), length_serve]
  · intro v refusal hcall name labels hname htimes
    exact total_behind_of_refused hcall hname htimes labels
  · rw [hcreated, hdone, hrules]
    exact congrArg (· + _) (Nat.zero_add _)
  · rw [hdone, hcombined]
    exact Nat.zero_add _
  · intro v hmethod hpath
    exact response_health _ hmethod hpath

theorem ledger_tells_what_happened_of_creation :
    let visits : List Visit :=
      [⟨⟨"a", "x", ⟨0, 0⟩⟩, ⟨"POST", ⟨"/api/v1/create", ""⟩,
          [("content-type", "application/json")], "[\"n\",\"\",\"v=true\"]"⟩⟩,
        ⟨⟨"b", "y", ⟨1, 0⟩⟩, ⟨"GET", ⟨"/nowhere", ""⟩, [], ""⟩⟩]
    let served := (start {}).serve visits
    (visits.map fun v => v.stamp.ruleId).Nodup ∧
      served.2.ledger.total "rules_created_total" [] = 1 ∧
      served.2.ledger.total "http_requests_total" [] = 2 ∧
      served.2.store.statistics.rules = 1 + served.2.ledger.total
        "rule_combinations_total" [("status", "success")] := by
  have hmarks : Json.marks "[\"n\",\"\",\"v=true\"]".toList =
      [.openArray, .atom (.string (some "n")), .comma,
        .atom (.string (some "")), .comma, .atom (.string (some "v=true")),
        .closeArray] := by
    simp only [String.reduceToList]
    rw [Json.marks_cons_of_punctuation? _ rfl rfl,
      Json.marks_cons_of_readAtom rfl rfl rfl,
      Json.marks_cons_of_punctuation? _ rfl rfl,
      Json.marks_cons_of_readAtom rfl rfl rfl,
      Json.marks_cons_of_punctuation? _ rfl rfl,
      Json.marks_cons_of_readAtom rfl rfl rfl,
      Json.marks_cons_of_punctuation? _ rfl rfl, Json.marks]
    rfl
  have hdraft : readDraft "[\"n\",\"\",\"v=true\"]" =
      .ok ⟨"n", "", "v=true"⟩ := by
    rw [readDraft, Layout.readBody, Json.Document.ofText, hmarks]
    rfl
  have hcall : Call.ofRequest ⟨"POST", ⟨"/api/v1/create", ""⟩,
      [("content-type", "application/json")], "[\"n\",\"\",\"v=true\"]"⟩ =
        .ok (.create ⟨"n", "", "v=true"⟩) :=
    Call.ofRequest_eq_create ⟨rfl, rfl⟩ rfl (by decide) hdraft (by decide)
  have hread : Expression.ofText "v=true" =
      .ok (.single (.condition ⟨"v", .equal, .boolean true⟩)) := by
    cbv
  obtain ⟨c, t, hauthor⟩ : ∃ c t, Store.empty.author
      (.create "a" ⟨0, 0⟩ ⟨"n", "", "v=true"⟩) = (.ok c, t) := by
    rcases Store.isConsistent_empty.author_cases
      (.create "a" ⟨0, 0⟩ ⟨"n", "", "v=true"⟩) with
      ⟨cause, hrefused, -⟩ | ⟨-, _, _, hprepares⟩
    · rw [Store.refusal?, RuleDraft.refusal?, if_neg
        (Text.not_allBlank_of_mem 'n' (by decide) (by decide)), hread] at hrefused
      cases hrefused
    · obtain ⟨c, hwritten, -⟩ := hprepares.exists_author_eq_ok (by
        rintro id ⟨⟩
        decide)
      exact ⟨c, _, hwritten⟩
  have hperform : (start {}).perform ⟨"a", "x", ⟨0, 0⟩⟩
      (.create ⟨"n", "", "v=true"⟩) = .ok (.created c, t) := by
    have hauthoring : (Call.create ⟨"n", "", "v=true"⟩).authoring?
        ⟨"a", "x", ⟨0, 0⟩⟩ =
          some (.create "a" ⟨0, 0⟩ ⟨"n", "", "v=true"⟩) := rfl
    have hanswer := perform_of_authoring? (a := start {}) hauthoring
    rwa [show (start {}).store.author _ = (.ok c, t) from hauthor] at hanswer
  have htold := (exchange_behind_of_told (v := ⟨_, _⟩) hcall hperform).1
  intro visits served
  have hcount : (served.1.countP fun e => e.IsCreated) = 1 := by
    change List.countP _ [(start {}).exchange ⟨_, _⟩, _] = 1
    rw [htold]
    rfl
  have hids : (visits.map fun v => v.stamp.ruleId).Nodup := by decide
  obtain ⟨htotal, -, -, -, -, -, hrequests, -, hrules, -⟩ :=
    ledger_tells_what_happened {} visits hids
  have hone := htotal.trans hcount
  refine ⟨hids, hone, hrequests, ?_⟩
  rw [← hone]
  exact hrules

end App

end Http

end Rulebook
