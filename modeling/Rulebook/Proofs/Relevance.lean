import Mathlib
import Rulebook.Proofs.Registry
import Rulebook.Proofs.Visits

/-!
# What an evaluation depends on

An evaluation looks up the fields of the conditions that it reaches, and nothing
else of a record. So records that agree on these are evaluated alike, to the last
line of the trace. Compiling collects the fields of all conditions, reached or
not, so agreement on the required fields is enough for every evaluation.

A record that lacks a field is asked for it at the first reached condition that
mentions it, and that is an error. Where there is no such error, all that was
looked up was there, and a record that has more is evaluated alike.
-/

namespace Rulebook

variable {r s : Record}

/-- One record has all that another one has, and possibly more. -/
def Record.Extends (s r : Record) : Prop :=
  ∀ field value, r.get? field = some value → s.get? field = some value

theorem Record.extends_insert
    {field : String} (h : r.get? field = none) (value : Scalar) :
    (r.insert field value).Extends r := by
  intro other old hold
  have hne : field ≠ other := by
    rintro rfl
    cases h.symm.trans hold
  rw [get?_insert, if_neg hne, hold]

/-- Whether a record lacks the field of a condition. -/
def Condition.isAbsent (r : Record) (c : Condition) : Bool :=
  (r.get? c.field).isNone

/-- The first condition that is reached although its field is absent. -/
def Expression.firstAbsent? (r : Record) (e : Expression) : Option Condition :=
  (e.reached r).find? (Condition.isAbsent r)

/-! ## What is looked up -/

theorem Condition.evaluate_congr
    {c : Condition} (h : s.get? c.field = r.get? c.field) (place : TermPath) :
    c.evaluate s place = c.evaluate r place := by
  rw [evaluate, evaluate, h]

theorem Findings.proceed_congr
    {first : Except EvaluationError Findings}
    {outcome : Except EvaluationError Bool}
    {next next' : Unit → Except EvaluationError Findings} {k : Connector}
    {settled : Event} (hfirst : ∀ f, first = .ok f → outcome = .ok f.holds)
    (hnext : k.passes outcome = true → next () = next' ()) :
    (first >>= fun f => f.proceed k settled next) =
      (first >>= fun f => f.proceed k settled next') := by
  cases first with
  | error cause => rfl
  | ok f =>
      obtain rfl := hfirst f rfl
      change f.proceed k settled next = f.proceed k settled next'
      unfold proceed
      split
      · rfl
      · next hgoes => rw [hnext (bne_iff_ne.mpr hgoes)]

mutual

theorem Term.evaluate_congr :
    (t : Term) → (∀ c ∈ t.reached r, s.get? c.field = r.get? c.field) →
      (place : TermPath) → t.evaluate s place = t.evaluate r place
  | .condition c, h, place =>
      c.evaluate_congr (h c (List.mem_singleton_self c)) place
  | .group e, h, place => e.evaluate_congr h place

/-- An expression is evaluated alike on records that agree on the fields of the
conditions that are reached on one of them. -/
theorem Expression.evaluate_congr :
    (e : Expression) → (∀ c ∈ e.reached r, s.get? c.field = r.get? c.field) →
      (place : TermPath) → e.evaluate s place = e.evaluate r place
  | .single t, h, place => t.evaluate_congr h (place ++ [0])
  | .chain k ts, h, place => by
      rw [Expression.evaluate, Expression.evaluate, ts.evaluate_congr h place 0]

theorem Terms.evaluate_congr {k : Connector} :
    (ts : Terms) → (∀ c ∈ ts.reached r k, s.get? c.field = r.get? c.field) →
      (level : TermPath) → (index : Nat) →
        ts.evaluate s level k index = ts.evaluate r level k index
  | .pair a b, h, level, index => by
      rw [Terms.reached, List.forall_mem_append] at h
      rw [Terms.evaluate, Terms.evaluate, a.evaluate_congr h.1]
      refine Findings.proceed_congr (fun f hf => a.outcome_of_evaluate hf) ?_
      intro hpasses
      rw [hpasses, if_pos rfl] at h
      exact b.evaluate_congr h.2 _
  | .cons a rest, h, level, index => by
      rw [Terms.reached, List.forall_mem_append] at h
      rw [Terms.evaluate, Terms.evaluate, a.evaluate_congr h.1]
      refine Findings.proceed_congr (fun f hf => a.outcome_of_evaluate hf) ?_
      intro hpasses
      rw [hpasses, if_pos rfl] at h
      exact rest.evaluate_congr h.2 level (index + 1)

end

/-! ## What is absent -/

theorem Condition.outcome_eq_missingField_iff {c : Condition} {field : String} :
    c.outcome r = .error (.missingField field) ↔
      c.field = field ∧ r.get? c.field = none := by
  unfold outcome
  cases hvalue : r.get? c.field with
  | none => simp
  | some value =>
      have hcompares : (c.operator.holds value c.value).mapError
          (EvaluationError.incomparable c.field) ≠
            .error (.missingField field) := by
        cases c.operator.holds value c.value <;> simp [Except.mapError]
      simp [hcompares]

namespace CompiledRule

variable {c : CompiledRule} {traced : Bool}

theorem execute_congr
    (h : ∀ d ∈ c.expression.reached r, s.get? d.field = r.get? d.field) :
    c.execute traced s = c.execute traced r := by
  rw [execute, execute, c.expression.evaluate_congr h]

theorem execute_eq_missingField_iff_exists {field : String} :
    c.execute traced r = .error (.missingField field) ↔
      ∃ d ∈ c.expression.reached r, d.field = field ∧ r.get? d.field = none := by
  simp only [c.execute_eq_error_iff, Condition.outcome_eq_missingField_iff]

/-- A field that is missing is the field of the first condition reached whose
field is absent. -/
theorem execute_eq_missingField_iff {field : String} :
    c.execute traced r = .error (.missingField field) ↔
      (c.expression.firstAbsent? r).map Condition.field = some field := by
  have hfirst {d : Condition} (hd : c.expression.firstAbsent? r = some d) :
      c.execute traced r = .error (.missingField d.field) := by
    have habsent : d.isAbsent r = true := List.find?_some hd
    exact execute_eq_missingField_iff_exists.mpr
      ⟨d, List.mem_of_find?_eq_some hd, rfl,
        Option.isNone_iff_eq_none.mp habsent⟩
  constructor
  · intro h
    obtain ⟨d, hreached, -, habsent⟩ := execute_eq_missingField_iff_exists.mp h
    cases hfound : c.expression.firstAbsent? r with
    | none =>
        have hpresent := List.find?_eq_none.mp hfound d hreached
        exact absurd (Option.isNone_iff_eq_none.mpr habsent) hpresent
    | some first =>
        cases h.symm.trans (hfirst hfound)
        rfl
  · intro h
    obtain ⟨d, hd, rfl⟩ := Option.map_eq_some_iff.mp h
    exact hfirst hd

/-- What is reached mentions required fields only. -/
theorem IsFaithful.field_mem_requiredFields
    (h : c.IsFaithful) {d : Condition} (hd : d ∈ c.expression.reached r) :
    d.field ∈ c.requiredFields :=
  (h.mem_requiredFields_iff d.field).mpr
    ⟨d, c.expression.reached_sublist.subset hd, rfl⟩

/-- A compiled rule gives the same report or error on records that agree on the
required fields. What it gives stays the same when a record is extended, unless
a field was missing, and a field that is missing is required: it is that of the
first condition that is reached and whose field is absent. -/
theorem execute_depends_on_required_fields
    {version : Nat} {rule : Rule} (h : rule.compile version = .ok c) :
    (∀ r s, (∀ field ∈ c.requiredFields, s.get? field = r.get? field) →
      c.execute traced s = c.execute traced r) ∧
    (∀ r s : Record, s.Extends r →
      (∀ field, c.execute traced r ≠ .error (.missingField field)) →
        c.execute traced s = c.execute traced r) ∧
    (∀ r field, c.execute traced r = .error (.missingField field) →
      field ∈ c.requiredFields ∧ r.get? field = none ∧
        (c.expression.firstAbsent? r).map Condition.field = some field) ∧
    ∀ r, (∀ field ∈ c.requiredFields, r.get? field ≠ none) →
      ∀ field, c.execute traced r ≠ .error (.missingField field) := by
  obtain ⟨-, -, hfaithful⟩ := Rule.compile_eq_ok h
  have hmissing : ∀ r field, c.execute traced r = .error (.missingField field) →
      field ∈ c.requiredFields ∧ r.get? field = none := by
    intro r field hfails
    obtain ⟨d, hreached, rfl, habsent⟩ :=
      execute_eq_missingField_iff_exists.mp hfails
    exact ⟨hfaithful.field_mem_requiredFields hreached, habsent⟩
  refine ⟨fun r s hagree => ?_, fun r s hextends hsettled => ?_,
    fun r field hfails => ?_, fun r hpresent field hfails => ?_⟩
  · exact execute_congr fun d hd =>
      hagree d.field (hfaithful.field_mem_requiredFields hd)
  · apply execute_congr
    intro d hd
    cases hvalue : r.get? d.field with
    | none =>
        -- The first record would have been missing this field.
        exact absurd
          (execute_eq_missingField_iff_exists.mpr ⟨d, hd, rfl, hvalue⟩)
          (hsettled d.field)
    | some value => exact hextends d.field value hvalue
  · obtain ⟨hrequired, habsent⟩ := hmissing r field hfails
    exact ⟨hrequired, habsent, execute_eq_missingField_iff.mp hfails⟩
  · obtain ⟨hrequired, habsent⟩ := hmissing r field hfails
    exact hpresent field hrequired habsent

theorem execute_depends_on_required_fields_of_short_circuit :
    let rule : Rule :=
      ⟨"1", "first", "", "a = true OR (b = 'x' AND c > 0)", ⟨0, 0⟩, ⟨0, 0⟩, []⟩
    let known := Record.ofList [("a", .boolean true)]
    let unordered := Record.ofList
      [("a", .boolean false), ("b", .string "x"), ("c", .boolean true)]
    let unknown := Record.ofList [("a", .boolean false), ("c", .boolean true)]
    let cause : EvaluationError :=
      .incomparable "c" (.notNumeric .greater .boolean)
    ∃ c, rule.compile 1 = .ok c ∧
      (∀ value, c.execute true (known.insert "b" value) = c.execute true known) ∧
      (∀ value, c.execute true (unordered.insert "d" value) = .error cause) ∧
      c.execute true unknown = .error (.missingField "b") ∧
      (c.expression.firstAbsent? unknown).map Condition.field = some "b" ∧
      "b" ∈ c.requiredFields := by
  intro rule known unordered unknown cause
  let a : Condition := ⟨"a", .equal, .boolean true⟩
  let b : Condition := ⟨"b", .equal, .string "x"⟩
  let positive : Condition := ⟨"c", .greater, .number (.zero false)⟩
  let e : Expression := .chain .or (.pair (.condition a)
    (.group (.chain .and (.pair (.condition b) (.condition positive)))))
  let c : CompiledRule := ⟨rule, e, ["a", "b", "c"], 1⟩
  have hcompile : rule.compile 1 = .ok c := by cbv
  obtain ⟨hagree, hextend, hmissing, -⟩ :=
    @execute_depends_on_required_fields c true 1 rule hcompile
  have hholds : (c.execute true known).map Report.holds = .ok true := by decide
  have hfails : c.execute true unknown = .error (.missingField "b") := by decide
  obtain ⟨hrequired, -, hfirst⟩ := hmissing unknown "b" hfails
  refine ⟨c, hcompile, fun value => ?_, fun value => ?_, hfails, hfirst,
    hrequired⟩
  · apply hextend known (known.insert "b" value)
    · exact Record.extends_insert (by decide) value
    · intro field hfield
      rw [hfield] at hholds
      cases hholds
  · rw [hagree unordered]
    · decide
    · intro field hfield
      have hne : "d" ≠ field := by
        rintro rfl
        revert hfield
        decide
      rw [Record.get?_insert, if_neg hne]

end CompiledRule

end Rulebook
