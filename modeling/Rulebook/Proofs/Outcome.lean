import Mathlib
import Rulebook.Rule.Basic

/-!
# Outcomes of evaluations

What an evaluation gives is said here without the order in which it is done.
Every term has an outcome, whether it is looked at or not, and the outcome of a
level is found by scanning those of its terms: the first error is the outcome,
the first term that settles the level is the outcome, and otherwise the opposite
truth value is. The conditions that are reached on the way are a list of their
own. Evaluations agree with both.
-/

namespace Rulebook

variable {r : Record}

/-! ## The outcome of an expression -/

/-- The outcome of a condition on a record. -/
def Condition.outcome (r : Record) (c : Condition) :
    Except EvaluationError Bool :=
  match r.get? c.field with
  | none => .error (.missingField c.field)
  | some value =>
    (c.operator.holds value c.value).mapError (.incomparable c.field)

namespace Connector

/-- The outcome of a level whose terms have the given outcomes. -/
def scan (k : Connector) :
    List (Except EvaluationError Bool) → Except EvaluationError Bool
  | [] => .ok (!k.settledBy)
  | .error cause :: _ => .error cause
  | .ok holds :: rest =>
    if holds = k.settledBy then .ok k.settledBy else k.scan rest

/-- Whether a scan goes on behind a term with the given outcome. -/
def passes (k : Connector) : Except EvaluationError Bool → Bool
  | .error _ => false
  | .ok holds => holds != k.settledBy

end Connector

mutual

/-- The outcome of a term on a record. -/
def Term.outcome (r : Record) : Term → Except EvaluationError Bool
  | .condition c => c.outcome r
  | .group e => e.outcome r

/-- The outcome of an expression on a record; a single term makes a
conjunction. -/
def Expression.outcome (r : Record) : Expression → Except EvaluationError Bool
  | .single t => Connector.and.scan [t.outcome r]
  | .chain k ts => k.scan (ts.outcomes r)

/-- The outcomes of all terms of a level. -/
def Terms.outcomes (r : Record) :
    Terms → List (Except EvaluationError Bool)
  | .pair a b => [a.outcome r, b.outcome r]
  | .cons a rest => a.outcome r :: rest.outcomes r

end

mutual

/-- The conditions of a term that are reached, from left to right. -/
def Term.reached (r : Record) : Term → List Condition
  | .condition c => [c]
  | .group e => e.reached r

/-- The conditions of an expression that are reached, from left to right. -/
def Expression.reached (r : Record) : Expression → List Condition
  | .single t => t.reached r
  | .chain k ts => ts.reached r k

/-- The conditions of a level that are reached: those of its first term, and
those behind it if the scan goes on. -/
def Terms.reached (r : Record) (k : Connector) : Terms → List Condition
  | .pair a b =>
    a.reached r ++ if k.passes (a.outcome r) then b.reached r else []
  | .cons a rest =>
    a.reached r ++ if k.passes (a.outcome r) then rest.reached r k else []

end

/-- Whether a condition is true on a record. -/
def Condition.isTrue (r : Record) (c : Condition) : Bool :=
  match c.outcome r with
  | .ok holds => holds
  | .error _ => false

/-- The conditions of an expression that are reached and true. -/
def Expression.found (r : Record) (e : Expression) : List Condition :=
  (e.reached r).filter (Condition.isTrue r)

/-! ## Scans -/

namespace Connector

theorem scan_singleton (k : Connector) (outcome : Except EvaluationError Bool) :
    k.scan [outcome] = outcome := by
  cases outcome with
  | error cause => rfl
  | ok holds =>
      rw [scan, scan]
      split
      · next h => rw [h]
      · next h => rw [Bool.eq_not_of_ne h]

theorem scan_cons_of_passes
    {k : Connector} {outcome : Except EvaluationError Bool}
    (h : k.passes outcome = true) (rest : List (Except EvaluationError Bool)) :
    k.scan (outcome :: rest) = k.scan rest := by
  cases outcome with
  | error cause => cases h
  | ok holds =>
      rw [passes, bne_iff_ne] at h
      rw [scan, if_neg h]

theorem scan_cons_of_not_passes
    {k : Connector} {outcome : Except EvaluationError Bool}
    (h : k.passes outcome = false) (rest : List (Except EvaluationError Bool)) :
    k.scan (outcome :: rest) = outcome := by
  cases outcome with
  | error cause => rfl
  | ok holds =>
      have hsettles : holds = k.settledBy := by simpa [passes] using h
      rw [scan, if_pos hsettles, hsettles]

end Connector

/-! ## Evaluations give the outcome -/

namespace Findings

/-- What is known of findings without their trace. -/
def summary (f : Findings) : Bool × List Condition := (f.holds, f.matched)

/-- Findings that agree with an outcome are missing where that is an error, and
hold where it is true. -/
theorem cases_of_map_summary_eq
    {x : Except EvaluationError Findings}
    {outcome : Except EvaluationError Bool} {found : List Condition}
    (h : x.map summary = outcome.map (·, found)) :
    (∃ cause, x = .error cause ∧ outcome = .error cause) ∨
      ∃ f, x = .ok f ∧ outcome = .ok f.holds ∧ f.matched = found := by
  cases x with
  | error cause =>
      cases outcome with
      | error other =>
          cases h
          exact .inl ⟨cause, rfl, rfl⟩
      | ok holds => cases h
  | ok f =>
      cases outcome with
      | error other => cases h
      | ok holds =>
          cases h
          exact .inr ⟨f, rfl, rfl, rfl⟩

/-- Where there are findings, they agree with an outcome that is no error. -/
theorem eq_of_map_summary_eq
    {x : Except EvaluationError Findings} {f : Findings}
    {outcome : Except EvaluationError Bool} {found : List Condition}
    (h : x.map summary = outcome.map (·, found)) (hx : x = .ok f) :
    outcome = .ok f.holds ∧ f.matched = found := by
  rcases cases_of_map_summary_eq h with
    ⟨cause, hcause, -⟩ | ⟨g, hg, houtcome, hfound⟩
  · cases hx.symm.trans hcause
  · obtain rfl : f = g := Except.ok.inj (hx.symm.trans hg)
    exact ⟨houtcome, hfound⟩

/-- Evaluating a term and then what is behind it, unless the term settles the
level, gives what a scan gives. -/
theorem summary_proceed
    {first : Except EvaluationError Findings}
    {next : Unit → Except EvaluationError Findings} {k : Connector}
    {outcome : Except EvaluationError Bool}
    {rest : List (Except EvaluationError Bool)} {found more : List Condition}
    (hfirst : first.map summary = outcome.map (·, found))
    (hnext : (next ()).map summary = (k.scan rest).map (·, more))
    (level : TermPath) (index skipped : Nat) :
    (first >>= fun f =>
      f.proceed k (.settled level k index skipped) next).map summary =
      (k.scan (outcome :: rest)).map
        (·, found ++ if k.passes outcome then more else []) := by
  rcases cases_of_map_summary_eq hfirst with
    ⟨cause, rfl, rfl⟩ | ⟨f, rfl, rfl, rfl⟩
  · rfl
  · by_cases hsettles : f.holds = k.settledBy
    · have hpasses : k.passes (.ok f.holds) = false := by
        simp [Connector.passes, hsettles]
      rw [Connector.scan_cons_of_not_passes hpasses, hpasses]
      simp [proceed, hsettles, bind, Except.bind, Except.map, summary, matched,
        Event.match?]
    · have hpasses : k.passes (.ok f.holds) = true := by
        simpa [Connector.passes] using hsettles
      rw [Connector.scan_cons_of_passes hpasses, if_pos hpasses]
      simp only [proceed, if_neg hsettles, bind, Except.bind]
      rcases cases_of_map_summary_eq hnext with
        ⟨cause, hbehind, hscan⟩ | ⟨g, hbehind, hscan, rfl⟩
      · rw [hbehind, hscan]
        rfl
      · rw [hbehind, hscan]
        simp [Except.map, summary, matched, after]

end Findings

theorem Condition.summary_evaluate (place : TermPath) (c : Condition) :
    (c.evaluate r place).map Findings.summary =
      (c.outcome r).map (·, [c].filter (isTrue r)) := by
  have htrue : c.isTrue r = match c.outcome r with
    | .ok holds => holds
    | .error _ => false := rfl
  unfold evaluate
  unfold outcome at htrue ⊢
  cases hvalue : r.get? c.field with
  | none => rfl
  | some value =>
      cases hholds : c.operator.holds value c.value with
      | error cause => simp [Except.map, Except.mapError, hholds]
      | ok holds =>
          simp only [hvalue, hholds, Except.mapError] at htrue
          cases holds <;>
            simp [Except.map, Except.mapError, hholds, htrue, Findings.summary,
              Findings.matched, Event.match?]

mutual

theorem Term.summary_evaluate (place : TermPath) :
    (t : Term) →
      (t.evaluate r place).map Findings.summary =
        (t.outcome r).map (·, (t.reached r).filter (Condition.isTrue r))
  | .condition c => c.summary_evaluate place
  | .group e => e.summary_evaluate place

/-- An expression evaluates to its outcome, and the conditions found true are
those reached and true. -/
theorem Expression.summary_evaluate (place : TermPath) :
    (e : Expression) →
      (e.evaluate r place).map Findings.summary =
        (e.outcome r).map (·, e.found r)
  | .single t => by
      rw [Expression.evaluate, Expression.outcome, Connector.scan_singleton]
      exact Term.summary_evaluate (place ++ [0]) t
  | .chain k ts => by
      have hts := Terms.summary_evaluate place k 0 ts
      rw [Expression.evaluate, Expression.outcome, Expression.found,
        Expression.reached, ← hts]
      cases ts.evaluate r place k 0 with
      | error cause => rfl
      | ok f => rfl

theorem Terms.summary_evaluate
    (level : TermPath) (k : Connector) (index : Nat) :
    (ts : Terms) →
      (ts.evaluate r level k index).map Findings.summary =
        (k.scan (ts.outcomes r)).map
          (·, (ts.reached r k).filter (Condition.isTrue r))
  | .pair a b => by
      have ha := Term.summary_evaluate (level ++ [index]) a
      have hb := Term.summary_evaluate (level ++ [index + 1]) b
      rw [← k.scan_singleton (b.outcome r)] at hb
      rw [Terms.evaluate, Terms.outcomes, Terms.reached, List.filter_append,
        Findings.summary_proceed ha hb]
      split <;> rfl
  | .cons a rest => by
      have ha := Term.summary_evaluate (level ++ [index]) a
      have hrest := Terms.summary_evaluate level k (index + 1) rest
      rw [Terms.evaluate, Terms.outcomes, Terms.reached, List.filter_append,
        Findings.summary_proceed ha hrest]
      split <;> rfl

end

/-! ## Errors come from reached conditions -/

theorem Connector.scan_cons_eq_error_iff
    {k : Connector} {outcome : Except EvaluationError Bool}
    {rest : List (Except EvaluationError Bool)} {cause : EvaluationError} :
    k.scan (outcome :: rest) = .error cause ↔
      outcome = .error cause ∨
        k.passes outcome = true ∧ k.scan rest = .error cause := by
  cases hpasses : k.passes outcome with
  | false =>
      rw [scan_cons_of_not_passes hpasses]
      simp
  | true =>
      rw [scan_cons_of_passes hpasses]
      have hne : outcome ≠ .error cause := by
        rintro rfl
        cases hpasses
      simp [hne]

section Errors

variable {cause : EvaluationError}

mutual

theorem Term.outcome_eq_error_iff :
    (t : Term) →
      (t.outcome r = .error cause ↔
        ∃ c ∈ t.reached r, c.outcome r = .error cause)
  | .condition c => by simp [Term.outcome, Term.reached]
  | .group e => by
      rw [Term.outcome, Term.reached]
      exact Expression.outcome_eq_error_iff e

/-- The outcome of an expression is an error exactly if a condition that is
reached has it. -/
theorem Expression.outcome_eq_error_iff :
    (e : Expression) →
      (e.outcome r = .error cause ↔
        ∃ c ∈ e.reached r, c.outcome r = .error cause)
  | .single t => by
      rw [Expression.outcome, Expression.reached, Connector.scan_singleton]
      exact Term.outcome_eq_error_iff t
  | .chain k ts => by
      rw [Expression.outcome, Expression.reached]
      exact Terms.scan_outcomes_eq_error_iff k ts

theorem Terms.scan_outcomes_eq_error_iff (k : Connector) :
    (ts : Terms) →
      (k.scan (ts.outcomes r) = .error cause ↔
        ∃ c ∈ ts.reached r k, c.outcome r = .error cause)
  | .pair a b => by
      have ha := Term.outcome_eq_error_iff a
      have hb := Term.outcome_eq_error_iff b
      rw [Terms.outcomes, Terms.reached, Connector.scan_cons_eq_error_iff,
        Connector.scan_singleton, ha, hb]
      cases k.passes (a.outcome r) <;> simp [or_and_right, exists_or]
  | .cons a rest => by
      have ha := Term.outcome_eq_error_iff a
      have hrest := Terms.scan_outcomes_eq_error_iff k rest
      rw [Terms.outcomes, Terms.reached, Connector.scan_cons_eq_error_iff, ha,
        hrest]
      cases k.passes (a.outcome r) <;> simp [or_and_right, exists_or]

end

end Errors

/-! ## Verdicts and reports -/

theorem Expression.verdict_eq_outcome (e : Expression) :
    e.verdict r = e.outcome r := by
  unfold verdict
  rcases Findings.cases_of_map_summary_eq (e.summary_evaluate (r := r) []) with
    ⟨cause, hevaluate, houtcome⟩ | ⟨f, hevaluate, houtcome, -⟩
  · rw [hevaluate, houtcome]
    rfl
  · rw [hevaluate, houtcome]
    rfl

namespace CompiledRule

theorem holds_execute (c : CompiledRule) (traced : Bool) :
    (c.execute traced r).map Report.holds = c.expression.outcome r := by
  rw [← c.expression.verdict_eq_outcome, Expression.verdict, execute]
  cases c.expression.evaluate r [] with
  | error cause => rfl
  | ok f => rfl

theorem matched_execute (c : CompiledRule) (traced : Bool) :
    (c.execute traced r).map Report.matched =
      (c.expression.outcome r).map fun _ =>
        (c.expression.found r).map Condition.canonical := by
  unfold execute
  rcases Findings.cases_of_map_summary_eq
      (c.expression.summary_evaluate (r := r) []) with
    ⟨cause, hevaluate, houtcome⟩ | ⟨f, hevaluate, houtcome, hmatched⟩
  · rw [hevaluate, houtcome]
    rfl
  · rw [hevaluate, houtcome, ← hmatched]
    rfl

theorem execute_eq_error_iff
    (c : CompiledRule) (traced : Bool) (cause : EvaluationError) :
    c.execute traced r = .error cause ↔
      ∃ d ∈ c.expression.reached r, d.outcome r = .error cause := by
  rw [← c.expression.outcome_eq_error_iff, ← c.holds_execute traced]
  cases c.execute traced r with
  | error other => simp [Except.map]
  | ok report => simp [Except.map]

/-- An expression has the outcome on a record that a scan of its terms gives,
and so has a report on it, which lists the conditions that were reached and true
in the order of the scan. Tracing changes neither of these, and an error is that
of a condition that was reached. -/
theorem execute_follows_scan (r : Record) :
    (∀ e : Expression, e.verdict r = e.outcome r) ∧
    ∀ (c : CompiledRule) (traced : Bool),
      (c.execute traced r).map Report.holds = c.expression.outcome r ∧
      (c.execute traced r).map Report.matched =
        ((c.expression.outcome r).map fun _ =>
          (c.expression.found r).map Condition.canonical) ∧
      (c.execute traced r).map (fun p => (p.holds, p.matched)) =
        (c.execute (!traced) r).map (fun p => (p.holds, p.matched)) ∧
      ∀ cause, c.execute traced r = .error cause ↔
        ∃ d ∈ c.expression.reached r, d.outcome r = .error cause := by
  refine ⟨fun e => e.verdict_eq_outcome, fun c traced => ⟨c.holds_execute traced,
    c.matched_execute traced, ?_, c.execute_eq_error_iff traced⟩⟩
  unfold execute
  cases c.expression.evaluate r [] with
  | error cause => rfl
  | ok f => rfl

end CompiledRule

end Rulebook
