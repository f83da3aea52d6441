import Mathlib
import Rulebook.Proofs.Grammar
import Rulebook.Proofs.Outcome

/-!
# Visits

When a part of an expression is evaluated, it has an outcome, and on the way to
it some conditions are reached. Both together are a visit. Under one connector,
visits are put one behind another: the next one is made unless the last one has
settled the level. This is associative, and a visit that reaches nothing and
settles nothing is neutral, so it does not matter how the parts are grouped.

What is reached are conditions of the expression, in order, and those that the
log of an evaluation says were compared.
-/

namespace Rulebook

variable {r : Record}

/-! ## One visit behind another -/

/-- What it comes to when a part of an expression is evaluated: its outcome, and
the conditions that are reached on the way. -/
structure Visit where
  outcome : Except EvaluationError Bool
  reached : List Condition

namespace Connector

variable {k : Connector}

/-- Nothing is visited, and nothing settles the level. -/
def idle (k : Connector) : Visit := ⟨.ok (!k.settledBy), []⟩

/-- A visit, and another one behind it unless the first settles the level. -/
def andThen (k : Connector) (v w : Visit) : Visit :=
  if k.passes v.outcome then ⟨w.outcome, v.reached ++ w.reached⟩ else v

/-- Visits one after another, up to the first one that settles the level. -/
def visitAll (k : Connector) (vs : List Visit) : Visit :=
  vs.foldr k.andThen k.idle

theorem passes_iff {outcome : Except EvaluationError Bool} :
    k.passes outcome = true ↔ outcome = .ok (!k.settledBy) := by
  cases outcome with
  | error cause => simp [passes]
  | ok holds => simp [passes, Bool.eq_not]

theorem idle_andThen (v : Visit) : k.andThen k.idle v = v := by
  have hpasses : k.passes k.idle.outcome = true := passes_iff.mpr rfl
  rw [andThen, if_pos hpasses, idle, List.nil_append]

theorem andThen_idle (v : Visit) : k.andThen v k.idle = v := by
  by_cases hpasses : k.passes v.outcome = true
  · rw [andThen, if_pos hpasses, idle, List.append_nil,
      ← passes_iff.mp hpasses]
  · rw [andThen, if_neg hpasses]

theorem andThen_assoc (u v w : Visit) :
    k.andThen (k.andThen u v) w = k.andThen u (k.andThen v w) := by
  by_cases hu : k.passes u.outcome = true
  · by_cases hv : k.passes v.outcome = true
    · simp [andThen, hu, hv]
    · simp [andThen, hu, hv]
  · simp [andThen, hu]

theorem visitAll_singleton (v : Visit) : k.visitAll [v] = v := andThen_idle v

theorem visitAll_append (vs ws : List Visit) :
    k.visitAll (vs ++ ws) = k.andThen (k.visitAll vs) (k.visitAll ws) := by
  induction vs with
  | nil => exact (idle_andThen _).symm
  | cons v vs ih =>
      calc k.visitAll (v :: vs ++ ws)
          = k.andThen v (k.visitAll (vs ++ ws)) := rfl
        _ = k.andThen v (k.andThen (k.visitAll vs) (k.visitAll ws)) := by
            rw [ih]
        _ = k.andThen (k.visitAll (v :: vs)) (k.visitAll ws) :=
            (andThen_assoc v _ _).symm

/-- What is visited one after another can as well be visited as one part. -/
theorem visitAll_nested (us vs ws : List Visit) :
    k.visitAll (us ++ k.visitAll vs :: ws) = k.visitAll (us ++ (vs ++ ws)) := by
  have hcons : k.visitAll (k.visitAll vs :: ws) =
      k.andThen (k.visitAll vs) (k.visitAll ws) := rfl
  rw [visitAll_append, visitAll_append, visitAll_append, hcons]

end Connector

/-! ## The visits of an expression -/

/-- What it comes to when a term is evaluated. -/
def Term.visit (r : Record) (t : Term) : Visit := ⟨t.outcome r, t.reached r⟩

/-- What it comes to when an expression is evaluated. -/
def Expression.visit (r : Record) (e : Expression) : Visit :=
  ⟨e.outcome r, e.reached r⟩

theorem Term.visit_group (e : Expression) :
    (Term.group e).visit r = e.visit r := by
  rw [visit, Term.outcome, Term.reached, Expression.visit]

theorem Terms.visitAll_eq (k : Connector) (ts : Terms) :
    k.visitAll (ts.toList.map (Term.visit r)) =
      ⟨k.scan (ts.outcomes r), ts.reached r k⟩ := by
  have step (first : Term) {vs : List Visit}
      {outcomes : List (Except EvaluationError Bool)} {more : List Condition}
      (hrest : k.visitAll vs = ⟨k.scan outcomes, more⟩) :
      k.visitAll (first.visit r :: vs) =
        ⟨k.scan (first.outcome r :: outcomes),
          first.reached r ++ if k.passes (first.outcome r) then more else []⟩ := by
    have hcons : k.visitAll (first.visit r :: vs) =
        k.andThen (first.visit r) (k.visitAll vs) := rfl
    rw [hcons, hrest, Connector.andThen]
    cases hpasses : k.passes (first.outcome r) with
    | false =>
        simp [Term.visit, hpasses, Connector.scan_cons_of_not_passes hpasses]
    | true => simp [Term.visit, hpasses, Connector.scan_cons_of_passes hpasses]
  cases ts with
  | pair a b =>
      have hlast : k.visitAll [b.visit r] = ⟨k.scan [b.outcome r], b.reached r⟩ := by
        rw [Connector.visitAll_singleton, Connector.scan_singleton, Term.visit]
      rw [toList, List.map_cons, List.map_singleton, step a hlast, outcomes,
        reached]
  | cons a rest =>
      rw [toList, List.map_cons, step a (rest.visitAll_eq k), outcomes, reached]

namespace Expression

theorem visit_single (t : Term) : (single t).visit r = t.visit r := by
  rw [visit, outcome, Connector.scan_singleton, reached, Term.visit]

theorem visit_chain (k : Connector) (ts : Terms) :
    (chain k ts).visit r = k.visitAll (ts.toList.map (Term.visit r)) := by
  rw [ts.visitAll_eq, visit, outcome, reached]

/-- An expression is visited term by term, under any connector that it
accepts. -/
theorem visit_eq_visitAll {e : Expression} {k : Connector} (h : e.Accepts k) :
    e.visit r = k.visitAll (e.terms.map (Term.visit r)) := by
  cases e with
  | single t =>
      rw [visit_single, terms, List.map_singleton, Connector.visitAll_singleton]
  | chain own ts =>
      obtain rfl : own = k := by simpa [Accepts, connector?] using h
      rw [visit_chain, terms]

end Expression

/-! ## What is reached -/

mutual

theorem Term.reached_sublist :
    (t : Term) → (t.reached r).Sublist t.conditions
  | .condition c => .refl [c]
  | .group e => e.reached_sublist

/-- Each condition is reached at most once, and they are reached in order. -/
theorem Expression.reached_sublist :
    (e : Expression) → (e.reached r).Sublist e.conditions
  | .single t => t.reached_sublist
  | .chain k ts => ts.reached_sublist k

theorem Terms.reached_sublist (k : Connector) :
    (ts : Terms) → (ts.reached r k).Sublist ts.conditions
  | .pair a b => by
      rw [Terms.reached, Terms.conditions]
      refine a.reached_sublist.append ?_
      split
      · exact b.reached_sublist
      · exact List.nil_sublist _
  | .cons a rest => by
      rw [Terms.reached, Terms.conditions]
      refine a.reached_sublist.append ?_
      split
      · exact rest.reached_sublist k
      · exact List.nil_sublist _

end

/-- The condition that an event compared. -/
def Event.condition? : Event → Option Condition
  | .compared _ c _ => some c
  | _ => none

/-- The conditions that were compared, in the order of their evaluation. -/
def Findings.compared (f : Findings) : List Condition :=
  f.events.filterMap Event.condition?

theorem Findings.compared_of_proceed
    {first : Except EvaluationError Findings}
    {next : Unit → Except EvaluationError Findings} {k : Connector}
    {outcome : Except EvaluationError Bool} {reached more : List Condition}
    {level : TermPath} {index skipped : Nat} {g : Findings}
    (hfirst : ∀ f, first = .ok f → outcome = .ok f.holds ∧ f.compared = reached)
    (hnext : ∀ f, next () = .ok f → f.compared = more)
    (h : (first >>= fun f =>
      f.proceed k (.settled level k index skipped) next) = .ok g) :
    g.compared = reached ++ if k.passes outcome then more else [] := by
  cases first with
  | error cause => cases h
  | ok f =>
      obtain ⟨rfl, rfl⟩ := hfirst f rfl
      change f.proceed k _ next = _ at h
      unfold proceed at h
      split at h
      · next hsettles =>
        cases h
        simp [compared, Connector.passes, hsettles, Event.condition?]
      · next hgoes =>
        cases hrest : next () with
        | error cause =>
            rw [hrest] at h
            cases h
        | ok rest =>
            rw [hrest] at h
            cases h
            simp [Connector.passes, hgoes, compared, after, ← hnext rest hrest]

theorem Term.outcome_of_evaluate
    (t : Term) {place : TermPath} {f : Findings}
    (h : t.evaluate r place = .ok f) : t.outcome r = .ok f.holds :=
  (Findings.eq_of_map_summary_eq (t.summary_evaluate place) h).1

theorem Condition.compared_of_evaluate
    {c : Condition} {place : TermPath} {f : Findings}
    (h : c.evaluate r place = .ok f) : f.compared = [c] := by
  unfold evaluate at h
  split at h
  · cases h
  · split at h
    · cases h
    · cases h
      rfl

mutual

theorem Term.compared_of_evaluate :
    (t : Term) → (place : TermPath) → (f : Findings) →
      t.evaluate r place = .ok f → f.compared = t.reached r
  | .condition c, _, _, h => c.compared_of_evaluate h
  | .group e, place, f, h => e.compared_of_evaluate place f h

/-- Unless there is an error, the conditions that are reached are those that are
compared. -/
theorem Expression.compared_of_evaluate :
    (e : Expression) → (place : TermPath) → (f : Findings) →
      e.evaluate r place = .ok f → f.compared = e.reached r
  | .single t, place, f, h => t.compared_of_evaluate (place ++ [0]) f h
  | .chain k ts, place, f, h => by
      rw [Expression.evaluate] at h
      cases hts : ts.evaluate r place k 0 with
      | error cause =>
          rw [hts] at h
          cases h
      | ok g =>
          rw [hts] at h
          cases h
          exact ts.compared_of_evaluate k place 0 g hts

theorem Terms.compared_of_evaluate :
    (ts : Terms) → (k : Connector) → (level : TermPath) → (index : Nat) →
      (f : Findings) → ts.evaluate r level k index = .ok f →
        f.compared = ts.reached r k
  | .pair a b, k, level, index, f, h => by
      rw [Terms.evaluate] at h
      exact Findings.compared_of_proceed
        (fun g hg => ⟨a.outcome_of_evaluate hg, a.compared_of_evaluate _ g hg⟩)
        (b.compared_of_evaluate (level ++ [index + 1])) h
  | .cons a rest, k, level, index, f, h => by
      rw [Terms.evaluate] at h
      exact Findings.compared_of_proceed
        (fun g hg => ⟨a.outcome_of_evaluate hg, a.compared_of_evaluate _ g hg⟩)
        (rest.compared_of_evaluate k level (index + 1)) h

end

end Rulebook
