import Mathlib
import Rulebook.Combination
import Rulebook.Proofs.Outcome
import Rulebook.Proofs.RoundTrip

/-!
# Combined expressions

A combined expression has its sources as groups, in their order and under one
connector. This determines its depth, its conditions and its canonical text, and
it determines what the expression gives on a record: the verdicts of the sources
are gathered from left to right until one of them settles the level.

The combiner makes such an expression from any two or more sources, and refuses
it exactly if it is nested too deep to be read back.
-/

namespace Rulebook

/-! ## Levels as lists of terms -/

namespace Terms

theorem depth_eq_foldr (ts : Terms) :
    ts.depth = (ts.toList.map Term.depth).foldr max 0 := by
  cases ts with
  | pair a b => simp [depth, toList]
  | cons a rest => simp [depth, toList, depth_eq_foldr rest]

theorem conditions_eq_flatMap (ts : Terms) :
    ts.conditions = ts.toList.flatMap Term.conditions := by
  cases ts with
  | pair a b => simp [conditions, toList]
  | cons a rest => simp [conditions, toList, conditions_eq_flatMap rest]

theorem canonical_eq_intercalate (k : Connector) (ts : Terms) :
    ts.canonical k =
      (" " ++ k.keyword ++ " ").intercalate (ts.toList.map Term.canonical) := by
  cases ts with
  | pair a b =>
      simp [canonical, toList, String.intercalate_cons_cons, String.append_assoc]
  | cons a rest =>
      have hrest := canonical_eq_intercalate k rest
      have hne : rest.toList.map Term.canonical ≠ [] := by
        have hsize := rest.two_le_size
        intro hnil
        rw [List.map_eq_nil_iff] at hnil
        simp [size, hnil] at hsize
      rw [canonical_cons, toList, List.map_cons,
        String.intercalate_cons_of_ne_nil hne, ← hrest]
      simp [String.append_assoc]

end Terms

/-! ## Gathering verdicts -/

/-- What a level gives whose terms give these verdicts with these findings: the
first error, or the first verdict that settles the level, and the findings up to
there. -/
def Connector.gather {ε : Type} (k : Connector) :
    List (Except ε (Bool × List String)) → Except ε (Bool × List String)
  | [] => .ok (!k.settledBy, [])
  | .error cause :: _ => .error cause
  | .ok (holds, found) :: rest =>
    if holds = k.settledBy then .ok (holds, found)
    else (k.gather rest).map fun behind => (behind.1, found ++ behind.2)

/-- The outcome of a term, with the canonical texts of the conditions that are
reached and true. -/
def Term.findings (r : Record) (t : Term) :
    Except EvaluationError (Bool × List String) :=
  (t.outcome r).map fun holds =>
    (holds, ((t.reached r).filter (Condition.isTrue r)).map Condition.canonical)

/-- The outcome of an expression, with the canonical texts of the conditions
that are reached and true. -/
def Expression.findings (r : Record) (e : Expression) :
    Except EvaluationError (Bool × List String) :=
  (e.outcome r).map fun holds => (holds, (e.found r).map Condition.canonical)

namespace Connector

theorem gather_singleton
    {ε : Type} (k : Connector) (x : Except ε (Bool × List String)) :
    k.gather [x] = x := by
  rcases x with cause | ⟨holds, found⟩
  · rfl
  · by_cases hsettles : holds = k.settledBy
    · rw [gather, if_pos hsettles]
    · rw [gather, if_neg hsettles, gather, Bool.eq_not_of_ne hsettles]
      simp [Except.map]

theorem gather_map_error
    {ε δ : Type} (k : Connector) (f : ε → δ)
    (xs : List (Except ε (Bool × List String))) :
    k.gather (xs.map (Except.mapError f)) = (k.gather xs).mapError f := by
  induction xs with
  | nil => rfl
  | cons x rest ih =>
      rcases x with cause | ⟨holds, found⟩
      · rfl
      · by_cases hsettles : holds = k.settledBy
        · simp [gather, Except.mapError, hsettles]
        · simp only [List.map_cons, Except.mapError, gather, hsettles, if_false]
          rw [show rest.map (fun x => Except.mapError f x) =
            rest.map (Except.mapError f) from rfl, ih]
          cases k.gather rest <;> rfl

/-- One step of a scan, with the findings on the way. -/
theorem gather_cons
    {k : Connector} (r : Record) (first : Term)
    {outcomes : List (Except EvaluationError Bool)} {found : List Condition}
    {rest : List (Except EvaluationError (Bool × List String))}
    (hrest : k.gather rest =
      (k.scan outcomes).map fun holds =>
        (holds, found.map Condition.canonical)) :
    k.gather (first.findings r :: rest) =
      (k.scan (first.outcome r :: outcomes)).map fun holds =>
        (holds, (((first.reached r).filter (Condition.isTrue r)) ++
          if k.passes (first.outcome r) then found else []).map
            Condition.canonical) := by
  unfold Term.findings
  cases houtcome : first.outcome r with
  | error cause => rfl
  | ok holds =>
      by_cases hsettles : holds = k.settledBy
      · simp [gather, scan, passes, Except.map, hsettles]
      · simp only [Except.map, gather, scan, passes, hsettles, if_false, hrest]
        cases k.scan outcomes with
        | error cause => rfl
        | ok last => simp [hsettles]

end Connector

theorem Terms.gather_findings (k : Connector) (r : Record) (ts : Terms) :
    k.gather (ts.toList.map (Term.findings r)) =
      (k.scan (ts.outcomes r)).map fun holds =>
        (holds, ((ts.reached r k).filter (Condition.isTrue r)).map
          Condition.canonical) := by
  cases ts with
  | pair a b =>
      have hlast : k.gather [b.findings r] =
          (k.scan [b.outcome r]).map fun holds =>
            (holds, ((b.reached r).filter (Condition.isTrue r)).map
              Condition.canonical) := by
        rw [k.gather_singleton, k.scan_singleton]
        rfl
      have hstep := Connector.gather_cons r a hlast
      simp only [Terms.toList, List.map_cons, List.map_nil, Terms.outcomes,
        Terms.reached, List.filter_append, hstep]
      split <;> rfl
  | cons a rest =>
      have hrest := Terms.gather_findings k r rest
      have hstep := Connector.gather_cons r a hrest
      simp only [Terms.toList, List.map_cons, Terms.outcomes, Terms.reached,
        List.filter_append, hstep]
      split <;> rfl

/-! ## Combinations -/

namespace Expression

/-- An expression combines others if they are its terms, each as a group and in
their order, under the given connector. -/
structure Combines (e : Expression) (k : Connector)
    (sources : List Expression) : Prop where
  connector?_eq : e.connector? = some k
  terms_eq : e.terms = sources.map Term.group

/-- The depth of the deepest of some expressions. -/
def deepest (sources : List Expression) : Nat :=
  (sources.map depth).foldr max 0

variable {e : Expression} {k : Connector} {sources : List Expression}

theorem Combines.exists_eq_chain (h : e.Combines k sources) :
    ∃ ts : Terms, e = .chain k ts ∧ ts.toList = sources.map Term.group := by
  obtain ⟨hconnector, hterms⟩ := h
  cases e with
  | single t => cases hconnector
  | chain own ts =>
      have hown : own = k := Option.some.inj hconnector
      rw [hown]
      exact ⟨ts, rfl, hterms⟩

theorem Combines.ne_nil (h : e.Combines k sources) : sources ≠ [] := by
  obtain ⟨ts, rfl, hts⟩ := h.exists_eq_chain
  have hsize := ts.two_le_size
  rintro rfl
  simp [Terms.size, hts] at hsize

theorem foldr_max_map_succ
    {depths : List Nat} (hne : depths ≠ []) :
    (depths.map (· + 1)).foldr max 0 = depths.foldr max 0 + 1 := by
  induction depths with
  | nil => exact absurd rfl hne
  | cons d rest ih =>
      by_cases hrest : rest = []
      · simp [hrest]
      · have hbehind := ih hrest
        simp only [List.map_cons, List.foldr_cons, hbehind]
        omega

theorem deepest_lt
    {limit : Nat} (hpos : 0 < limit)
    (hsources : ∀ source ∈ sources, source.depth < limit) :
    deepest sources < limit := by
  unfold deepest
  induction sources with
  | nil => exact hpos
  | cons source rest ih =>
      have hfirst := hsources source List.mem_cons_self
      have hrest := ih fun e he => hsources e (List.mem_cons_of_mem source he)
      exact Nat.max_lt.mpr ⟨hfirst, hrest⟩

theorem Combines.depth_eq (h : e.Combines k sources) :
    e.depth = deepest sources + 1 := by
  have hne : sources.map depth ≠ [] := mt List.map_eq_nil_iff.mp h.ne_nil
  obtain ⟨ts, rfl, hts⟩ := h.exists_eq_chain
  have hdepths : (sources.map Term.group).map Term.depth =
      (sources.map depth).map (· + 1) := by
    simp [Term.depth]
  change ts.depth = deepest sources + 1
  rw [ts.depth_eq_foldr, hts, hdepths, foldr_max_map_succ hne, deepest]

theorem Combines.conditions_eq (h : e.Combines k sources) :
    e.conditions = sources.flatMap conditions := by
  obtain ⟨ts, rfl, hts⟩ := h.exists_eq_chain
  change ts.conditions = sources.flatMap conditions
  rw [ts.conditions_eq_flatMap, hts, List.flatMap_map]
  rfl

theorem Combines.canonical_eq (h : e.Combines k sources) :
    e.canonical = (" " ++ k.keyword ++ " ").intercalate
      (sources.map fun source => "(" ++ source.canonical ++ ")") := by
  obtain ⟨ts, rfl, hts⟩ := h.exists_eq_chain
  change ts.canonical k = _
  rw [ts.canonical_eq_intercalate, hts, List.map_map]
  rfl

/-- A combination gives on a record what is gathered from its sources. -/
theorem Combines.findings_eq (h : e.Combines k sources) (r : Record) :
    e.findings r = k.gather (sources.map (findings r)) := by
  obtain ⟨ts, rfl, hts⟩ := h.exists_eq_chain
  have hgather := ts.gather_findings k r
  rw [hts, List.map_map] at hgather
  exact hgather.symm

theorem Combines.isWellFormed
    (h : e.Combines k sources) (hdepth : e.depth ≤ maxDepth)
    (hsources : ∀ source ∈ sources, source.IsWellFormed) : e.IsWellFormed := by
  refine ⟨?_, hdepth⟩
  intro c hc
  rw [h.conditions_eq] at hc
  obtain ⟨source, hsource, hmem⟩ := List.mem_flatMap.mp hc
  exact (hsources source hsource).1 c hmem

/-- Two or more expressions have a combination, which is refused exactly if it
is nested too deep. -/
theorem exists_combines_combine_eq
    (k : Connector) (sources : List Expression) (hcount : 2 ≤ sources.length) :
    ∃ e : Expression, e.Combines k sources ∧
      combine k sources =
        if maxDepth < deepest sources + 1 then
          .error (.tooDeep (deepest sources + 1))
        else .ok e := by
  obtain ⟨first, second, rest, rfl⟩ : ∃ first second rest,
      sources = first :: second :: rest := by
    match sources, hcount with
    | first :: second :: rest, _ => exact ⟨first, second, rest, rfl⟩
  let e : Expression :=
    .chain k (.ofList (.group first) (.group second) (rest.map .group))
  have hcombines : e.Combines k (first :: second :: rest) := by
    constructor
    · rfl
    · simp [e, terms]
  refine ⟨e, hcombines, ?_⟩
  rw [← hcombines.depth_eq]
  rfl

end Expression

end Rulebook
