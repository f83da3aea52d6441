import Mathlib
import Rulebook.Proofs.NotANumber
import Rulebook.Proofs.Visits

/-!
# Duality

Every operator has a complement, which holds between two scalars exactly where
the operator does not, and fails where it fails. This is so as long as doubles
are numbers: two that are not are in no order, whichever way they are compared.
Conjunction and disjunction are settled by opposite verdicts. So the dual of an
expression, in which connectors are exchanged and operators complemented, is
evaluated in the mirror image of how the expression is: the same conditions are
reached, each with the opposite verdict.
-/

namespace Rulebook

variable {r : Record}

/-! ## Complements of operators -/

namespace Operator

/-- The operator that holds where another one does not. -/
def complement : Operator → Operator
  | .greater => .lessOrEqual
  | .less => .greaterOrEqual
  | .equal => .notEqual
  | .greaterOrEqual => .less
  | .lessOrEqual => .greater
  | .notEqual => .equal

@[simp] theorem complement_complement (op : Operator) :
    op.complement.complement = op := by
  cases op <;> rfl

theorem relates_complement
    {x y : Binary64} (hx : x.isNaN = false) (hy : y.isNaN = false)
    (op : Operator) : op.complement.relates x y = !op.relates x y := by
  have hless := Binary64.less_eq_not_atMost hx hy
  have hgreater := Binary64.less_eq_not_atMost hy hx
  cases op with
  | greater => rw [complement, relates, relates, hgreater, Bool.not_not]
  | less => rw [complement, relates, relates, hless, Bool.not_not]
  | equal => rw [complement, relates, relates]
  | greaterOrEqual => rw [complement, relates, relates, hless]
  | lessOrEqual => rw [complement, relates, relates, hgreater]
  | notEqual => rw [complement, relates, relates, Bool.not_not]

end Operator

/-- The error of a comparison by the complement of an operator. -/
def ComparisonError.dual : ComparisonError → ComparisonError
  | .notNumeric op found => .notNumeric op.complement found
  | .typeMismatch field literal => .typeMismatch field literal
  | .unsupportedOperator op kind => .unsupportedOperator op.complement kind

@[simp] theorem ComparisonError.dual_dual (cause : ComparisonError) :
    cause.dual.dual = cause := by
  cases cause <;> simp [dual]

/-- The error of the dual of an expression: a missing field is missing there
too, and a comparison fails by the complement of its operator. -/
def EvaluationError.dual : EvaluationError → EvaluationError
  | .missingField field => .missingField field
  | .incomparable field cause => .incomparable field cause.dual

@[simp] theorem EvaluationError.dual_dual (cause : EvaluationError) :
    cause.dual.dual = cause := by
  cases cause <;> simp [dual]

namespace Operator

/-- Where scalars of two kinds are compared, the error names no operator. -/
theorem dual_eq_of_equality_eq_error
    {field literal : Scalar} {cause : ComparisonError}
    (h : equality field literal = .error cause) : cause.dual = cause := by
  unfold equality at h
  split at h
  · cases h
  · cases h
    rfl

theorem ordering_complement
    {field literal : Scalar} (hfield : field.HasNoNaN)
    (hliteral : literal.HasNoNaN) (op : Operator) :
    op.complement.ordering field literal =
      ((op.ordering field literal).map (!·)).mapError ComparisonError.dual := by
  cases field with
  | number x =>
      cases literal with
      | number y =>
          rw [ordering, ordering, relates_complement hfield hliteral]
          rfl
      | string t => rfl
      | boolean b => rfl
  | string s => cases literal <;> rfl
  | boolean a => cases literal <;> rfl

/-- Between numbers, strings and truth values, the complement of an operator
holds where the operator does not, and fails where it fails. -/
theorem holds_complement
    {field literal : Scalar} (hfield : field.HasNoNaN)
    (hliteral : literal.HasNoNaN) (op : Operator) :
    op.complement.holds field literal =
      ((op.holds field literal).map (!·)).mapError ComparisonError.dual := by
  have hordering := ordering_complement hfield hliteral
  cases op with
  | greater => exact hordering .greater
  | less => exact hordering .less
  | greaterOrEqual => exact hordering .greaterOrEqual
  | lessOrEqual => exact hordering .lessOrEqual
  | equal =>
      simp only [complement, holds]
      cases hequality : equality field literal with
      | ok b => rfl
      | error cause =>
          simp [Except.map, Except.mapError,
            dual_eq_of_equality_eq_error hequality]
  | notEqual =>
      simp only [complement, holds]
      cases hequality : equality field literal with
      | ok b => simp [Except.map, Except.mapError]
      | error cause =>
          simp [Except.map, Except.mapError,
            dual_eq_of_equality_eq_error hequality]

end Operator

/-! ## Duals of expressions -/

/-- The other connector. -/
def Connector.dual : Connector → Connector
  | .and => .or
  | .or => .and

/-- A condition with the complement of its operator. -/
def Condition.dual (c : Condition) : Condition :=
  { c with operator := c.operator.complement }

@[simp] theorem Condition.dual_dual (c : Condition) : c.dual.dual = c := by
  simp [dual]

mutual

/-- The dual of a term. -/
def Term.dual : Term → Term
  | .condition c => .condition c.dual
  | .group e => .group e.dual

/-- An expression with all connectors exchanged and all operators replaced by
their complements. -/
def Expression.dual : Expression → Expression
  | .single t => .single t.dual
  | .chain k ts => .chain k.dual ts.dual

/-- The duals of several terms. -/
def Terms.dual : Terms → Terms
  | .pair a b => .pair a.dual b.dual
  | .cons a rest => .cons a.dual rest.dual

end

/-- The outcome of the dual of an expression. -/
def dualOutcome :
    Except EvaluationError Bool → Except EvaluationError Bool
  | .ok holds => .ok (!holds)
  | .error cause => .error cause.dual

theorem Condition.outcome_dual
    {c : Condition} (hc : c.value.HasNoNaN) (hr : r.HasNoNaN) :
    c.dual.outcome r = dualOutcome (c.outcome r) := by
  unfold outcome
  cases hvalue : r.get? c.field with
  | none =>
      have hdual : r.get? c.dual.field = none := hvalue
      rw [hdual]
      rfl
  | some value =>
      have hdual : r.get? c.dual.field = some value := hvalue
      have hholds := c.operator.holds_complement (hr _ _ hvalue) hc
      rw [hdual]
      simp only [dual, hholds]
      cases c.operator.holds value c.value with
      | ok holds => rfl
      | error cause => rfl

/-! ## Visits of duals -/

namespace Visit

/-- The mirror image of a visit: the same conditions are reached, but in their
duals, and the outcome is the dual one. -/
def dual (v : Visit) : Visit :=
  ⟨dualOutcome v.outcome, v.reached.map Condition.dual⟩

end Visit

namespace Connector

variable {k : Connector}

theorem settledBy_dual (k : Connector) : k.dual.settledBy = !k.settledBy := by
  cases k <;> rfl

theorem passes_dual (outcome : Except EvaluationError Bool) :
    k.dual.passes (dualOutcome outcome) = k.passes outcome := by
  cases outcome with
  | error cause => rfl
  | ok holds => simp [dualOutcome, passes, settledBy_dual]

theorem andThen_dual (v w : Visit) :
    k.dual.andThen v.dual w.dual = (k.andThen v w).dual := by
  have hpasses : k.dual.passes v.dual.outcome = k.passes v.outcome :=
    passes_dual v.outcome
  unfold andThen
  rw [hpasses]
  split
  · simp [Visit.dual]
  · rfl

theorem visitAll_dual (vs : List Visit) :
    k.dual.visitAll (vs.map Visit.dual) = (k.visitAll vs).dual := by
  induction vs with
  | nil => simp [visitAll, idle, Visit.dual, dualOutcome, settledBy_dual]
  | cons v vs ih =>
      calc k.dual.visitAll ((v :: vs).map Visit.dual)
          = k.dual.andThen v.dual (k.dual.visitAll (vs.map Visit.dual)) := rfl
        _ = k.dual.andThen v.dual (k.visitAll vs).dual := by rw [ih]
        _ = (k.visitAll (v :: vs)).dual := andThen_dual v _

end Connector

mutual

theorem Term.visit_dual (hr : r.HasNoNaN) :
    (t : Term) → (∀ c ∈ t.conditions, c.value.HasNoNaN) →
      t.dual.visit r = (t.visit r).dual
  | .condition c, h => by
      have hc : c.value.HasNoNaN := h c (by simp [Term.conditions])
      simp only [Term.dual, Term.visit, Term.outcome, Term.reached,
        Condition.outcome_dual hc hr, Visit.dual, List.map_singleton]
  | .group e, h => by
      rw [Term.dual, Term.visit_group, Term.visit_group]
      exact Expression.visit_dual hr e h

/-- The dual of an expression is visited in the mirror image. -/
theorem Expression.visit_dual (hr : r.HasNoNaN) :
    (e : Expression) → e.HasNoNaN → e.dual.visit r = (e.visit r).dual
  | .single t, h => by
      rw [Expression.dual, Expression.visit_single, Expression.visit_single]
      exact Term.visit_dual hr t h
  | .chain k ts, h => by
      rw [Expression.dual, Expression.visit_chain, Expression.visit_chain,
        ← Connector.visitAll_dual, List.map_map, Terms.map_visit_dual hr ts h]

theorem Terms.map_visit_dual (hr : r.HasNoNaN) :
    (ts : Terms) → (∀ c ∈ ts.conditions, c.value.HasNoNaN) →
      ts.dual.toList.map (Term.visit r) =
        ts.toList.map (Visit.dual ∘ Term.visit r)
  | .pair a b, h => by
      rw [Terms.conditions, List.forall_mem_append] at h
      simp only [Terms.dual, Terms.toList, List.map_cons, List.map_nil,
        Function.comp_apply, Term.visit_dual hr a h.1, Term.visit_dual hr b h.2]
  | .cons a rest, h => by
      rw [Terms.conditions, List.forall_mem_append] at h
      simp only [Terms.dual, Terms.toList, List.map_cons, Function.comp_apply,
        Term.visit_dual hr a h.1, Terms.map_visit_dual hr rest h.2]

end

/-! ## Mirrored evaluations -/

theorem dualOutcome_eq_ok_iff
    {outcome : Except EvaluationError Bool} {b : Bool} :
    dualOutcome outcome = .ok (!b) ↔ outcome = .ok b := by
  cases outcome <;> simp [dualOutcome]

theorem dualOutcome_eq_error_iff
    {outcome : Except EvaluationError Bool} {cause : EvaluationError} :
    dualOutcome outcome = .error cause.dual ↔ outcome = .error cause := by
  have hinjective : Function.Injective EvaluationError.dual :=
    Function.LeftInverse.injective EvaluationError.dual_dual
  cases outcome <;> simp [dualOutcome, hinjective.eq_iff]

theorem Condition.isTrue_dual
    {c : Condition} (hc : c.value.HasNoNaN) (hr : r.HasNoNaN)
    (hcompares : ∀ cause, c.outcome r ≠ .error cause) :
    c.dual.isTrue r = !c.isTrue r := by
  rw [isTrue, isTrue, outcome_dual hc hr]
  cases houtcome : c.outcome r with
  | error cause => exact absurd houtcome (hcompares cause)
  | ok holds => rfl

namespace Expression

variable {e : Expression}

theorem outcome_dual (he : e.HasNoNaN) (hr : r.HasNoNaN) :
    e.dual.outcome r = dualOutcome (e.outcome r) :=
  congrArg Visit.outcome (visit_dual hr e he)

theorem reached_dual (he : e.HasNoNaN) (hr : r.HasNoNaN) :
    e.dual.reached r = (e.reached r).map Condition.dual :=
  congrArg Visit.reached (visit_dual hr e he)

/-- The dual finds true what is reached and false. -/
theorem found_dual
    (he : e.HasNoNaN) (hr : r.HasNoNaN) {b : Bool} (h : e.outcome r = .ok b) :
    (e.dual.found r).map Condition.dual =
      (e.reached r).filter fun c => !c.isTrue r := by
  have hopposite : ∀ c ∈ e.reached r, c.dual.isTrue r = !c.isTrue r := by
    intro c hc
    refine Condition.isTrue_dual (he c (e.reached_sublist.subset hc)) hr ?_
    -- A condition that fails where it is reached would be the outcome.
    intro cause hcause
    cases h.symm.trans (e.outcome_eq_error_iff.mpr ⟨c, hc, hcause⟩)
  calc (e.dual.found r).map Condition.dual
      = (((e.reached r).map Condition.dual).filter
          (Condition.isTrue r)).map Condition.dual := by
        rw [found, reached_dual he hr]
    _ = ((e.reached r).filter fun c => c.dual.isTrue r).map
          (Condition.dual ∘ Condition.dual) := by
        rw [List.filter_map, List.map_map]
        rfl
    _ = (e.reached r).filter fun c => c.dual.isTrue r := by
        simp [Function.comp_def]
    _ = (e.reached r).filter fun c => !c.isTrue r :=
        List.filter_congr hopposite

/-- Where no double fails to be a number, as in what is read, an expression and
its dual have opposite verdicts, or both fail, with one error up to the operator
it names. They reach the same conditions, and where they do not fail each of
these is found true by exactly one of the two. -/
theorem dual_mirrors_evaluation :
    (∀ (e : Expression) (r : Record), e.HasNoNaN → r.HasNoNaN →
      (∀ b, e.verdict r = .ok b ↔ e.dual.verdict r = .ok (!b)) ∧
      (∀ cause, e.verdict r = .error cause ↔
        e.dual.verdict r = .error cause.dual) ∧
      e.dual.reached r = (e.reached r).map Condition.dual ∧
      ∀ f g, e.evaluate r [] = .ok f → e.dual.evaluate r [] = .ok g →
        f.compared = e.reached r ∧ g.compared = e.dual.reached r ∧
        (f.matched ++ g.matched.map Condition.dual).Perm (e.reached r)) ∧
    (∀ text e, ofText text = .ok e → e.HasNoNaN) ∧
    ∀ room outline value r, Json.Outline.toJson room outline = .ok value →
      Record.ofJson value = .ok r → r.HasNoNaN := by
  refine ⟨fun e r he hr => ⟨fun b => ?_, fun cause => ?_, reached_dual he hr,
      fun f g hf hg => ⟨e.compared_of_evaluate [] f hf,
        e.dual.compared_of_evaluate [] g hg, ?_⟩⟩,
    fun text e h => hasNoNaN_of_ofText h,
    fun room outline value r hvalue hr =>
      Record.hasNoNaN_of_ofJson (Json.hasNoNaN_of_toJson hvalue) hr⟩
  · rw [verdict_eq_outcome, verdict_eq_outcome, outcome_dual he hr,
      dualOutcome_eq_ok_iff]
  · rw [verdict_eq_outcome, verdict_eq_outcome, outcome_dual he hr,
      dualOutcome_eq_error_iff]
  · obtain ⟨houtcome, hmatched⟩ :=
      Findings.eq_of_map_summary_eq (e.summary_evaluate []) hf
    obtain ⟨-, hmatched'⟩ :=
      Findings.eq_of_map_summary_eq (e.dual.summary_evaluate []) hg
    rw [hmatched, hmatched', found_dual he hr houtcome, found]
    exact List.filter_append_perm _ _

theorem dual_mirrors_evaluation_of_negative_zero :
    let zero : Json.Numeral := ⟨true, ['0'], [], none⟩
    let outline : Json.Outline :=
      .object [(some "a", .atom (.number zero)),
        (some "b", .atom (.string (some "y")))] true
    let value : Json :=
      .object [("a", .double (.zero true)), ("b", .string "y")]
    let positive : Condition :=
      ⟨"a", .greaterOrEqual, .number (.zero false)⟩
    let same : Condition := ⟨"b", .equal, .string "x"⟩
    let e : Expression :=
      .chain .and (.pair (.condition positive) (.condition same))
    let r := Record.ofList [("a", .number (.zero true)), ("b", .string "y")]
    ofText "a >= 0 AND b = 'x'" = .ok e ∧ outline.toJson 127 = .ok value ∧
      Record.ofJson value = .ok r ∧ e.dual.verdict r = .ok true ∧
      e.dual.reached r = [positive.dual, same.dual] ∧
      ∃ f g, e.evaluate r [] = .ok f ∧ e.dual.evaluate r [] = .ok g ∧
        (f.matched ++ g.matched.map Condition.dual).Perm [positive, same] := by
  intro zero outline value positive same e r
  obtain ⟨hmirrors, hexpression, hrecord⟩ := dual_mirrors_evaluation
  have htext : ofText "a >= 0 AND b = 'x'" = .ok e := by cbv
  have hvalue : outline.toJson 127 = .ok value := by cbv
  have hr : Record.ofJson value = .ok r := by cbv
  obtain ⟨hverdict, -, hreached, hmatched⟩ :=
    hmirrors e r (hexpression _ e htext) (hrecord 127 outline value r hvalue hr)
  have hboth : e.reached r = [positive, same] := by decide
  refine ⟨htext, hvalue, hr, (hverdict false).mp (by decide), ?_, ?_⟩
  · rw [hreached, hboth]
    rfl
  · refine ⟨_, _, rfl, rfl, ?_⟩
    rw [← hboth]
    exact (hmatched _ _ rfl rfl).2.2

end Expression

end Rulebook
