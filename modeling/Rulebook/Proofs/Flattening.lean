import Mathlib
import Rulebook.Proofs.Visits

/-!
# Redundant groups

A group is redundant if it has no connector of its own, or that of the level in
which it stands: its terms could stand in its place. Redundant groups can be
dissolved one after another, in any order, and what is left in the end is always
the same flat expression.

None of this can be noticed when the expression is evaluated. A group is left
early exactly where the level around it would have been left, so the same
conditions are reached in the same order, and the outcome is the same, be it an
error or not.
-/

namespace Rulebook

variable {r : Record}

/-! ## Dissolving one group -/

/-- One redundant group is dissolved, anywhere in an expression. An expression
that is nothing but a group is replaced by the content of it; a group without a
connector of its own, or with that of the level around it, is replaced by its
terms; and either may happen in a group that stays. -/
inductive Expression.Dissolves : Expression → Expression → Prop where
  | content (body : Expression) : Dissolves (.single (.group body)) body
  | splice {e f body : Expression} {k : Connector} {before after : List Term}
      (hconnector : e.connector? = some k)
      (hterms : e.terms = before ++ .group body :: after)
      (haccepts : body.Accepts k) (hconnector' : f.connector? = some k)
      (hterms' : f.terms = before ++ (body.terms ++ after)) : Dissolves e f
  | inside {e f body body' : Expression} {before after : List Term}
      (hterms : e.terms = before ++ .group body :: after)
      (hconnector : f.connector? = e.connector?)
      (hterms' : f.terms = before ++ .group body' :: after)
      (hbody : Dissolves body body') : Dissolves e f

namespace Expression

variable {e f : Expression}

theorem accepts_connector_getD (e : Expression) :
    e.Accepts (e.connector?.getD .and) := by
  cases e with
  | single _ => exact .inl rfl
  | chain _ _ => exact .inr rfl

theorem Accepts.congr {k : Connector} (h : e.Accepts k)
    (hconnector : f.connector? = e.connector?) : f.Accepts k := by
  rw [Accepts, hconnector]
  exact h

/-- Dissolving a redundant group changes neither what is reached nor the
outcome. -/
theorem Dissolves.visit_eq (h : e.Dissolves f) : f.visit r = e.visit r := by
  induction h with
  | content body => rw [visit_single, Term.visit_group]
  | splice hconnector hterms haccepts hconnector' hterms' =>
      rw [visit_eq_visitAll (.inr hconnector), visit_eq_visitAll (.inr hconnector'),
        hterms, hterms', List.map_append, List.map_append, List.map_append,
        List.map_cons, Term.visit_group, visit_eq_visitAll haccepts,
        Connector.visitAll_nested]
  | @inside e f body body' before after hterms hconnector hterms' _ ih =>
      have haccepts := e.accepts_connector_getD
      rw [visit_eq_visitAll haccepts,
        visit_eq_visitAll (haccepts.congr hconnector), hterms, hterms',
        List.map_append, List.map_append, List.map_cons, List.map_cons,
        Term.visit_group, Term.visit_group, ih]

theorem visit_eq_of_dissolves_all
    (h : Relation.ReflTransGen Dissolves e f) : f.visit r = e.visit r := by
  induction h with
  | refl => rfl
  | tail _ hlast ih => rw [hlast.visit_eq, ih]

end Expression

/-! ## The flat form of an expression -/

namespace Expression

/-- An expression as a part of a level with the given connector: as it is if the
level can take its terms, and as a group otherwise. -/
def under (k : Connector) (e : Expression) : Expression :=
  match e with
  | .single t => .single t
  | .chain own _ => if own = k then e else .single (.group e)

/-- The level whose terms are those of two parts. -/
def beside (k : Connector) (e f : Expression) : Expression :=
  (f.under k).terms.foldl (fun level t => level.snoc k t) (e.under k)

end Expression

mutual

/-- The flat level that a term makes on its own. -/
def Term.flat : Term → Expression
  | .condition c => .single (.condition c)
  | .group e => e.flat

/-- An expression without its redundant groups. -/
def Expression.flat : Expression → Expression
  | .single t => t.flat
  | .chain k ts => ts.flat k

/-- The flat level of several terms under a connector. -/
def Terms.flat (k : Connector) : Terms → Expression
  | .pair a b => a.flat.beside k b.flat
  | .cons a rest => a.flat.beside k (rest.flat k)

end

/-- The terms that stand for a term in the flat form of a level. -/
def Term.flatTerms (k : Connector) (t : Term) : List Term :=
  (t.flat.under k).terms

namespace Expression

variable {e f : Expression} {k : Connector}

theorem accepts_under (k : Connector) (e : Expression) :
    (e.under k).Accepts k := by
  cases e with
  | single t => exact .inl rfl
  | chain own ts =>
      rw [under]
      split
      · next hown => exact .inr (congrArg some hown)
      · exact .inl rfl

theorem under_of_accepts (h : e.Accepts k) : e.under k = e := by
  cases e with
  | single t => rfl
  | chain own ts =>
      have hown : own = k := by simpa [Accepts, connector?] using h
      rw [under, if_pos hown]

theorem under_of_not_accepts (h : ¬e.Accepts k) :
    e.under k = .single (.group e) := by
  cases e with
  | single t => exact absurd (.inl rfl) h
  | chain own ts =>
      have hown : own ≠ k := by simpa [Accepts, connector?] using h
      rw [under, if_neg hown]

theorem foldl_snoc
    (ts : List Term) (h : e.Accepts k) :
    (ts.foldl (fun level t => level.snoc k t) e).Accepts k ∧
      (ts.foldl (fun level t => level.snoc k t) e).terms = e.terms ++ ts ∧
      (ts ≠ [] → (ts.foldl (fun level t => level.snoc k t) e).connector? =
        some k) := by
  induction ts generalizing e with
  | nil => simp [h]
  | cons t ts ih =>
      have hsnoc := connector?_snoc h t
      obtain ⟨haccepts, hterms, hconnector⟩ := ih (.inr hsnoc)
      refine ⟨haccepts, ?_, fun _ => ?_⟩
      · rw [List.foldl_cons, hterms, terms_snoc, List.append_assoc,
          List.singleton_append]
      · by_cases hnil : ts = []
        · rw [hnil]
          exact hsnoc
        · exact hconnector hnil

theorem terms_ne_nil (e : Expression) : e.terms ≠ [] := by
  cases e with
  | single t => exact List.cons_ne_nil _ _
  | chain k ts =>
      have hsize := ts.two_le_size
      intro hnil
      rw [terms] at hnil
      simp [Terms.size, hnil] at hsize

theorem terms_beside (k : Connector) (e f : Expression) :
    (e.beside k f).terms = (e.under k).terms ++ (f.under k).terms :=
  (foldl_snoc _ (accepts_under k e)).2.1

theorem connector?_beside (k : Connector) (e f : Expression) :
    (e.beside k f).connector? = some k :=
  (foldl_snoc _ (accepts_under k e)).2.2 (terms_ne_nil _)

end Expression

theorem Terms.connector?_flat (k : Connector) (ts : Terms) :
    (ts.flat k).connector? = some k := by
  cases ts with
  | pair a b => rw [flat, Expression.connector?_beside]
  | cons a rest => rw [flat, Expression.connector?_beside]

theorem Terms.terms_flat (k : Connector) (ts : Terms) :
    (ts.flat k).terms = ts.toList.flatMap (Term.flatTerms k) := by
  cases ts with
  | pair a b => simp [flat, toList, Expression.terms_beside, Term.flatTerms]
  | cons a rest =>
      have hrest : (rest.flat k).under k = rest.flat k :=
        Expression.under_of_accepts (.inr (rest.connector?_flat k))
      rw [flat, Expression.terms_beside, hrest, rest.terms_flat k, toList,
        List.flatMap_cons, Term.flatTerms]

namespace Expression

variable {e f body : Expression} {k : Connector}

theorem connector?_flat (h : e.connector? = some k) :
    e.flat.connector? = some k := by
  cases e with
  | single t => cases h
  | chain own ts =>
      obtain rfl := Option.some.inj h
      exact ts.connector?_flat own

theorem terms_flat (h : e.connector? = some k) :
    e.flat.terms = e.terms.flatMap (Term.flatTerms k) := by
  cases e with
  | single t => cases h
  | chain own ts =>
      obtain rfl := Option.some.inj h
      exact ts.terms_flat own

/-- The terms of a group that a level accepts stand for it in the flat form. -/
theorem flatTerms_group (h : body.Accepts k) :
    (Term.group body).flatTerms k = body.terms.flatMap (Term.flatTerms k) := by
  rw [Term.flatTerms, Term.flat]
  cases hconnector : body.connector? with
  | none =>
      cases body with
      | single t => simp [flat, terms, Term.flatTerms]
      | chain own ts => cases hconnector
  | some own =>
      obtain rfl : own = k := by simpa [Accepts, hconnector] using h
      rw [under_of_accepts (.inr (connector?_flat hconnector)),
        terms_flat hconnector]

/-- Dissolving a redundant group does not change the flat form. -/
theorem Dissolves.flat_eq (h : e.Dissolves f) : f.flat = e.flat := by
  induction h with
  | content body => rw [flat, Term.flat]
  | splice hconnector hterms haccepts hconnector' hterms' =>
      apply eq_of_terms_eq
      · rw [connector?_flat hconnector, connector?_flat hconnector']
      · rw [terms_flat hconnector, terms_flat hconnector', hterms, hterms',
          List.flatMap_append, List.flatMap_append, List.flatMap_append,
          List.flatMap_cons, flatTerms_group haccepts]
  | @inside e f body body' before after hterms hconnector hterms' _ ih =>
      cases hlevel : e.connector? with
      | none =>
          rw [hlevel] at hconnector
          cases e with
          | chain k ts => cases hlevel
          | single t =>
              cases f with
              | chain k ts => cases hconnector
              | single u =>
                  obtain ⟨rfl, rfl, rfl⟩ : before = [] ∧ .group body = t ∧
                      after = [] := by
                    simpa [terms, List.singleton_eq_append_iff] using hterms
                  obtain rfl : u = .group body' := by
                    simpa [terms] using hterms'
                  rw [flat, Term.flat, flat, Term.flat, ih]
      | some k =>
          rw [hlevel] at hconnector
          have hgroup : (Term.group body').flatTerms k =
              (Term.group body).flatTerms k := by
            rw [Term.flatTerms, Term.flat, ih, Term.flatTerms, Term.flat]
          apply eq_of_terms_eq
          · rw [connector?_flat hlevel, connector?_flat hconnector]
          · rw [terms_flat hlevel, terms_flat hconnector, hterms, hterms',
              List.flatMap_append, List.flatMap_append, List.flatMap_cons,
              List.flatMap_cons, hgroup]

end Expression

/-! ## What is left in the end -/

mutual

/-- The number of groups in a term. -/
def Term.groups : Term → Nat
  | .condition _ => 0
  | .group e => e.groups + 1

/-- The number of groups in an expression, on all levels. -/
def Expression.groups : Expression → Nat
  | .single t => t.groups
  | .chain _ ts => ts.groups

/-- The number of groups in several terms. -/
def Terms.groups : Terms → Nat
  | .pair a b => a.groups + b.groups
  | .cons a rest => a.groups + rest.groups

end

theorem Terms.groups_eq_sum (ts : Terms) :
    ts.groups = (ts.toList.map Term.groups).sum := by
  cases ts with
  | pair a b => simp [groups, toList]
  | cons a rest => simp [groups, toList, rest.groups_eq_sum]

namespace Expression

variable {e f : Expression}

theorem groups_eq_sum (e : Expression) :
    e.groups = (e.terms.map Term.groups).sum := by
  cases e with
  | single t => simp [groups, terms]
  | chain k ts => rw [groups, terms, ts.groups_eq_sum]

/-- Dissolving a group leaves one group less. -/
theorem Dissolves.groups_eq (h : e.Dissolves f) : e.groups = f.groups + 1 := by
  induction h with
  | content body => rw [groups, Term.groups]
  | @splice e f body k before after _ hterms _ _ hterms' =>
      have hbody := body.groups_eq_sum
      rw [e.groups_eq_sum, f.groups_eq_sum, hterms, hterms']
      simp only [List.map_append, List.map_cons, List.sum_append, List.sum_cons,
        Term.groups]
      omega
  | @inside e f body body' before after hterms _ hterms' _ ih =>
      rw [e.groups_eq_sum, f.groups_eq_sum, hterms, hterms']
      simp only [List.map_append, List.map_cons, List.sum_append, List.sum_cons,
        Term.groups]
      omega

/-- No group of an expression is redundant. -/
def IsFlat (e : Expression) : Prop := ∀ f, ¬e.Dissolves f

/-- Groups can be dissolved until none is redundant. -/
theorem exists_isFlat (e : Expression) :
    ∃ f, Relation.ReflTransGen Dissolves e f ∧ f.IsFlat := by
  induction hgroups : e.groups using Nat.strong_induction_on generalizing e with
  | _ n ih =>
      by_cases hflat : e.IsFlat
      · exact ⟨e, .refl, hflat⟩
      · obtain ⟨g, hg⟩ : ∃ g, e.Dissolves g := by
          simpa [IsFlat] using hflat
        have hfewer : g.groups < n := by
          rw [← hgroups, hg.groups_eq]
          exact Nat.lt_succ_self _
        obtain ⟨f, hf, hfflat⟩ := ih g.groups hfewer g rfl
        exact ⟨f, hf.head hg, hfflat⟩

theorem exists_of_terms
    (k : Connector) {ts : List Term} (h : 2 ≤ ts.length) :
    ∃ e : Expression, e.connector? = some k ∧ e.terms = ts := by
  match ts, h with
  | first :: second :: rest, _ =>
      exact ⟨.chain k (.ofList first second rest), rfl, by simp [terms]⟩

theorem two_le_length_terms {k : Connector} (h : e.connector? = some k) :
    2 ≤ e.terms.length := by
  cases e with
  | single t => cases h
  | chain own ts => exact ts.two_le_size

/-- The groups in a flat level are flat, and the level does not accept them. -/
theorem IsFlat.of_mem_terms
    (h : e.IsFlat) {k : Connector} (hk : e.connector? = some k)
    {body : Expression} (hmem : .group body ∈ e.terms) :
    body.IsFlat ∧ ¬body.Accepts k := by
  obtain ⟨before, after, hterms⟩ := List.append_of_mem hmem
  have hlength := two_le_length_terms hk
  rw [hterms] at hlength
  constructor
  · intro body' hbody
    obtain ⟨f, hconnector, hterms'⟩ :=
      @exists_of_terms k (before ++ .group body' :: after)
        (by simpa using hlength)
    exact h f (.inside hterms (hconnector.trans hk.symm) hterms' hbody)
  · intro haccepts
    have hbody := List.length_pos_of_ne_nil body.terms_ne_nil
    obtain ⟨f, hconnector, hterms'⟩ :=
      @exists_of_terms k (before ++ (body.terms ++ after)) (by
        simp only [List.length_append, List.length_cons] at hlength ⊢
        omega)
    exact h f (.splice hk hterms haccepts hconnector hterms')

theorem groups_lt_of_mem_terms {body : Expression}
    (hmem : .group body ∈ e.terms) : body.groups < e.groups := by
  have hle := List.le_sum_of_mem (List.mem_map_of_mem (f := Term.groups) hmem)
  rw [← e.groups_eq_sum, Term.groups] at hle
  omega

/-- A flat expression is its own flat form. -/
theorem IsFlat.flat_eq (h : e.IsFlat) : e.flat = e := by
  induction hgroups : e.groups using Nat.strong_induction_on generalizing e with
  | _ n ih =>
      cases hconnector : e.connector? with
      | none =>
          cases e with
          | chain k ts => cases hconnector
          | single t =>
              cases t with
              | condition c => rw [flat, Term.flat]
              | group body => exact absurd (.content body) (h body)
      | some k =>
          have hkept : ∀ t ∈ e.terms, t.flatTerms k = [t] := by
            intro t ht
            cases t with
            | condition c => rfl
            | group body =>
                obtain ⟨hbody, hrefuses⟩ := h.of_mem_terms hconnector ht
                have hfewer : body.groups < n :=
                  hgroups ▸ groups_lt_of_mem_terms ht
                rw [Term.flatTerms, Term.flat, ih _ hfewer hbody rfl,
                  under_of_not_accepts hrefuses, terms]
          apply eq_of_terms_eq
          · rw [connector?_flat hconnector, hconnector]
          · rw [terms_flat hconnector, List.flatMap_congr hkept,
              List.flatMap_singleton']

theorem flat_eq_of_dissolves_all
    (h : Relation.ReflTransGen Dissolves e f) : f.flat = e.flat := by
  induction h with
  | refl => rfl
  | tail _ hlast ih => rw [hlast.flat_eq, ih]

/-- The flat form of an expression is all that is left of it when its redundant
groups are dissolved, in whatever order. -/
theorem eq_flat_iff :
    f = e.flat ↔ Relation.ReflTransGen Dissolves e f ∧ f.IsFlat := by
  have hunique {g : Expression}
      (hg : Relation.ReflTransGen Dissolves e g ∧ g.IsFlat) : g = e.flat := by
    rw [← flat_eq_of_dissolves_all hg.1, hg.2.flat_eq]
  constructor
  · rintro rfl
    obtain ⟨g, hg⟩ := e.exists_isFlat
    rwa [← hunique hg]
  · exact hunique

/-- Redundant groups can be dissolved in whatever order, until a flat expression
is left, which is always the same. Neither this one nor any on the way differs
from the first when it is evaluated: the verdicts are the same, or the errors,
and so are the conditions that reports list as found true. -/
theorem dissolving_keeps_reports (e : Expression) :
    (∀ f, f = e.flat ↔ Relation.ReflTransGen Dissolves e f ∧ f.IsFlat) ∧
    ∀ (f : Expression) (r : Record), Relation.ReflTransGen Dissolves e f →
      f.verdict r = e.verdict r ∧
      ∀ (c d : CompiledRule) (traced traced' : Bool),
        c.expression = e → d.expression = f →
          (d.execute traced r).map Report.holds =
            (c.execute traced' r).map Report.holds ∧
          (d.execute traced r).map Report.matched =
            (c.execute traced' r).map Report.matched := by
  refine ⟨fun f => eq_flat_iff, fun f r hdissolves => ?_⟩
  have hvisit := visit_eq_of_dissolves_all (r := r) hdissolves
  have houtcome : f.outcome r = e.outcome r := congrArg Visit.outcome hvisit
  have hreached : f.reached r = e.reached r := congrArg Visit.reached hvisit
  refine ⟨by rw [verdict_eq_outcome, verdict_eq_outcome, houtcome], ?_⟩
  rintro c d traced traced' rfl rfl
  constructor
  · rw [CompiledRule.holds_execute, CompiledRule.holds_execute, houtcome]
  · rw [CompiledRule.matched_execute, CompiledRule.matched_execute, houtcome,
      found, hreached, ← found]

theorem dissolving_keeps_reports_of_missing_field :
    let a : Term := .condition ⟨"a", .equal, .boolean true⟩
    let b : Term := .condition ⟨"b", .equal, .boolean true⟩
    let c : Term := .condition ⟨"c", .equal, .boolean true⟩
    let nested : Expression :=
      .chain .or (.pair a (.group (.single (.group (.chain .or (.pair b c))))))
    let flat : Expression := .chain .or (.cons a (.pair b c))
    let r := Record.ofList [("a", .boolean false), ("b", .boolean true)]
    let rule : Rule := ⟨"x", "first", "", "", ⟨0, 0⟩, ⟨0, 0⟩, []⟩
    let compiled (e : Expression) : CompiledRule := ⟨rule, e, e.fields, 1⟩
    Relation.ReflTransGen Dissolves nested flat ∧ flat.verdict r = .ok true ∧
      ((compiled flat).execute true r).map Report.matched = .ok ["b = true"] := by
  intro a b c nested flat r rule compiled
  obtain ⟨hflat, hkeeps⟩ := dissolving_keeps_reports nested
  have hdissolves : Relation.ReflTransGen Dissolves nested flat :=
    ((hflat flat).mp rfl).1
  obtain ⟨hverdict, hreports⟩ := hkeeps flat r hdissolves
  obtain ⟨-, hmatched⟩ :=
    hreports (compiled nested) (compiled flat) true false rfl rfl
  refine ⟨hdissolves, ?_, ?_⟩
  · rw [hverdict]
    decide
  · rw [hmatched]
    decide

end Expression

end Rulebook
