import Mathlib
import Rulebook.Proofs.Snapshot

/-!
# The order of terms

Where all conditions of an expression can be compared, those that are never
reached included, the expression simply has a truth value on a record: what the
conditions say, put together by conjunction and disjunction. Evaluation gives
this value, although it does not look at all the terms.

Conjunction and disjunction do not depend on the order of what they join, nor on
how often it is there. So the terms of any level can be put into another order,
or repeated, and rules can be combined in any order and more than once.
-/

namespace Rulebook

variable {r : Record}

/-! ## Truth values -/

/-- Whether a condition can be compared on a record: its field is there, and the
comparison is defined. -/
def Condition.Compares (r : Record) (c : Condition) : Prop :=
  ∃ value holds, r.get? c.field = some value ∧
    c.operator.holds value c.value = .ok holds

/-- Whether all conditions of an expression can be compared on a record, be they
reached or not. -/
def Expression.Compares (r : Record) (e : Expression) : Prop :=
  ∀ c ∈ e.conditions, c.Compares r

/-- The conjunction or the disjunction of truth values. -/
def Connector.join : Connector → List Bool → Bool
  | .and, values => values.all id
  | .or, values => values.any id

mutual

/-- The truth value of a term. -/
def Term.value (r : Record) : Term → Bool
  | .condition c => c.isTrue r
  | .group e => e.value r

/-- The truth value of an expression: of all its terms, and not only of those up
to the first one that settles it. A single term makes a conjunction. -/
def Expression.value (r : Record) : Expression → Bool
  | .single t => Connector.and.join [t.value r]
  | .chain k ts => k.join (ts.values r)

/-- The truth values of all terms of a level. -/
def Terms.values (r : Record) : Terms → List Bool
  | .pair a b => [a.value r, b.value r]
  | .cons a rest => a.value r :: rest.values r

end

theorem Condition.outcome_of_compares {c : Condition} (h : c.Compares r) :
    c.outcome r = .ok (c.isTrue r) := by
  obtain ⟨value, holds, hvalue, hholds⟩ := h
  have houtcome : c.outcome r = .ok holds := by
    rw [outcome, hvalue]
    change (c.operator.holds value c.value).mapError _ = _
    rw [hholds]
    rfl
  rw [isTrue, houtcome]

namespace Connector

/-- Verdicts without an error among them are scanned up to one that settles the
level, and what is behind it would not have changed the result. -/
theorem scan_map_ok (k : Connector) (values : List Bool) :
    k.scan (values.map .ok) = .ok (k.join values) := by
  induction values with
  | nil => cases k <;> rfl
  | cons value rest ih =>
      rw [List.map_cons, scan, ih]
      cases k <;> cases value <;> rfl

theorem join_congr
    {k : Connector} {values values' : List Bool}
    (h : ∀ b, b ∈ values ↔ b ∈ values') : k.join values = k.join values' := by
  rw [Bool.eq_iff_iff]
  cases k with
  | and => simp [join, h]
  | or => simp [join, h]

end Connector

mutual

theorem Term.outcome_of_compares :
    (t : Term) → (∀ c ∈ t.conditions, c.Compares r) →
      t.outcome r = .ok (t.value r)
  | .condition c, h => c.outcome_of_compares (h c (List.mem_singleton_self c))
  | .group e, h => e.outcome_of_compares h

/-- If all conditions can be compared, the outcome is the truth value. -/
theorem Expression.outcome_of_compares :
    (e : Expression) → e.Compares r → e.outcome r = .ok (e.value r)
  | .single t, h => by
      rw [Expression.outcome, Term.outcome_of_compares t h, Expression.value,
        ← Connector.scan_map_ok]
      rfl
  | .chain k ts, h => by
      rw [Expression.outcome, Terms.outcomes_of_compares ts h,
        Connector.scan_map_ok, Expression.value]

theorem Terms.outcomes_of_compares :
    (ts : Terms) → (∀ c ∈ ts.conditions, c.Compares r) →
      ts.outcomes r = (ts.values r).map .ok
  | .pair a b, h => by
      rw [Terms.conditions, List.forall_mem_append] at h
      rw [Terms.outcomes, Term.outcome_of_compares a h.1,
        Term.outcome_of_compares b h.2]
      rfl
  | .cons a rest, h => by
      rw [Terms.conditions, List.forall_mem_append] at h
      rw [Terms.outcomes, Term.outcome_of_compares a h.1,
        Terms.outcomes_of_compares rest h.2]
      rfl

end

/-! ## Levels as sets of terms -/

theorem Terms.values_eq_map (ts : Terms) :
    ts.values r = ts.toList.map (Term.value r) := by
  cases ts with
  | pair a b => rfl
  | cons a rest => rw [values, toList, List.map_cons, rest.values_eq_map]

namespace Expression

variable {e f : Expression}

theorem value_eq_join (e : Expression) :
    e.value r = (e.connector?.getD .and).join (e.terms.map (Term.value r)) := by
  cases e with
  | single t => rfl
  | chain k ts =>
      rw [value, ts.values_eq_map]
      rfl

theorem conditions_eq_flatMap (e : Expression) :
    e.conditions = e.terms.flatMap Term.conditions := by
  cases e with
  | single t => simp [conditions, terms]
  | chain k ts => exact ts.conditions_eq_flatMap

/-- Two levels with the same connector and the same truth values among those of
their terms have the same truth value. -/
theorem value_eq_of_mem_iff
    (hconnector : f.connector? = e.connector?)
    (hterms : ∀ b, b ∈ f.terms.map (Term.value r) ↔
      b ∈ e.terms.map (Term.value r)) : f.value r = e.value r := by
  rw [value_eq_join, value_eq_join, hconnector]
  exact Connector.join_congr hterms

theorem mem_conditions_iff_of_mem_iff
    (hterms : ∀ t, t ∈ f.terms ↔ t ∈ e.terms) (c : Condition) :
    c ∈ f.conditions ↔ c ∈ e.conditions := by
  rw [conditions_eq_flatMap, conditions_eq_flatMap, List.mem_flatMap,
    List.mem_flatMap]
  simp only [hterms]

/-! ## Putting terms into another order -/

/-- The terms of one level are put into another order, or one of them is
repeated there, and the level may be that of a group anywhere in an expression.
A level that consists of a single term has no connector with which the term
could be repeated. -/
inductive Rearranges : Expression → Expression → Prop where
  | permutation {e f : Expression} (hconnector : f.connector? = e.connector?)
      (hterms : f.terms.Perm e.terms) : Rearranges e f
  | repetition {e f : Expression} {k : Connector} {before after : List Term}
      {t : Term} (hconnector : e.connector? = some k) (hmem : t ∈ e.terms)
      (hterms : e.terms = before ++ after) (hconnector' : f.connector? = some k)
      (hterms' : f.terms = before ++ t :: after) : Rearranges e f
  | inside {e f body body' : Expression} {before after : List Term}
      (hterms : e.terms = before ++ .group body :: after)
      (hconnector : f.connector? = e.connector?)
      (hterms' : f.terms = before ++ .group body' :: after)
      (hbody : Rearranges body body') : Rearranges e f

theorem rearranges_swap (k : Connector) (t u : Term) :
    (chain k (.pair t u)).Rearranges (chain k (.pair u t)) :=
  .permutation rfl (List.Perm.swap t u [])

theorem rearranges_repeat (k : Connector) (t u : Term) :
    (chain k (.pair t u)).Rearranges (chain k (.cons t (.pair u t))) := by
  have hterms : (chain k (.pair t u)).terms = [t, u] ++ [] := rfl
  exact .repetition rfl List.mem_cons_self hterms rfl rfl

theorem Rearranges.in_group (h : e.Rearranges f) (k : Connector) (u : Term) :
    (chain k (.pair (.group e) u)).Rearranges (chain k (.pair (.group f) u)) := by
  have hterms (body : Expression) :
      (chain k (.pair (.group body) u)).terms = [] ++ .group body :: [u] := rfl
  exact .inside (hterms e) rfl (hterms f) h

/-- Terms change places and are repeated, in a group and around it. -/
theorem rearranges_all_of_pairs (k l : Connector) (t u v : Term) :
    Relation.ReflTransGen Rearranges
      (.chain k (.pair (.group (.chain l (.pair t u))) v))
      (.chain k (.cons v
        (.pair (.group (.chain l (.cons u (.pair t u)))) v))) := by
  have hswap := (rearranges_swap l t u).in_group k v
  have hrepeat := (rearranges_repeat l u t).in_group k v
  let inner : Term := .group (.chain l (.cons u (.pair t u)))
  have hfront := rearranges_swap k inner v
  have hbehind := rearranges_repeat k v inner
  exact (((Relation.ReflTransGen.single hswap).tail hrepeat).tail hfront).tail
    hbehind

theorem mem_terms_iff_of_repetition
    {before after : List Term} {t : Term} (hmem : t ∈ e.terms)
    (hterms : e.terms = before ++ after)
    (hterms' : f.terms = before ++ t :: after) (u : Term) :
    u ∈ f.terms ↔ u ∈ e.terms := by
  have hperm : f.terms.Perm (t :: e.terms) := by
    rw [hterms, hterms']
    exact List.perm_middle
  rw [hperm.mem_iff, List.mem_cons]
  constructor
  · intro hu
    rcases hu with rfl | hu
    · exact hmem
    · exact hu
  · exact Or.inr

/-- A rearranged expression has the same conditions, though perhaps more often. -/
theorem Rearranges.mem_conditions_iff (h : e.Rearranges f) (c : Condition) :
    c ∈ f.conditions ↔ c ∈ e.conditions := by
  induction h with
  | permutation _ hterms =>
      exact mem_conditions_iff_of_mem_iff (fun t => hterms.mem_iff) c
  | repetition _ hmem hterms _ hterms' =>
      apply mem_conditions_iff_of_mem_iff
      exact mem_terms_iff_of_repetition hmem hterms hterms'
  | @inside e f body body' before after hterms _ hterms' _ ih =>
      rw [conditions_eq_flatMap, conditions_eq_flatMap, hterms, hterms']
      simp only [List.flatMap_append, List.flatMap_cons, List.mem_append,
        Term.conditions, ih]

/-- A rearranged expression has the same truth value. -/
theorem Rearranges.value_eq (h : e.Rearranges f) : f.value r = e.value r := by
  induction h with
  | permutation hconnector hterms =>
      apply value_eq_of_mem_iff hconnector
      intro b
      exact (hterms.map (Term.value r)).mem_iff
  | repetition hconnector hmem hterms hconnector' hterms' =>
      apply value_eq_of_mem_iff (hconnector'.trans hconnector.symm)
      intro b
      simp only [List.mem_map, mem_terms_iff_of_repetition hmem hterms hterms']
  | @inside e f body body' before after hterms hconnector hterms' _ ih =>
      apply value_eq_of_mem_iff hconnector
      intro b
      rw [hterms, hterms', List.map_append, List.map_append, List.map_cons,
        List.map_cons, Term.value, Term.value, ih]

/-- However often an expression is rearranged, its conditions and its truth
value are the same. -/
theorem same_of_rearranges_all
    (h : Relation.ReflTransGen Rearranges e f) :
    (f.Compares r ↔ e.Compares r) ∧ f.value r = e.value r := by
  induction h with
  | refl => exact ⟨Iff.rfl, rfl⟩
  | tail _ hlast ih =>
      refine ⟨?_, hlast.value_eq.trans ih.2⟩
      rw [← ih.1, Compares, Compares]
      simp only [hlast.mem_conditions_iff]

/-! ## Combining in another order -/

/-- The truth value of a combination is that of its sources, joined. -/
theorem Combines.value_eq
    {k : Connector} {sources : List Expression} (h : e.Combines k sources) :
    e.value r = k.join (sources.map (Expression.value r)) := by
  rw [value_eq_join, h.connector?_eq, h.terms_eq, List.map_map]
  rfl

theorem Combines.compares
    {k : Connector} {sources : List Expression} (h : e.Combines k sources)
    (hsources : ∀ source ∈ sources, source.Compares r) : e.Compares r := by
  intro c hc
  rw [h.conditions_eq] at hc
  obtain ⟨source, hsource, hmem⟩ := List.mem_flatMap.mp hc
  exact hsources source hsource c hmem

theorem depth_le_deepest
    {sources : List Expression} {source : Expression} (h : source ∈ sources) :
    source.depth ≤ deepest sources := by
  induction sources with
  | nil => cases h
  | cons first rest ih =>
      have hdeepest : deepest (first :: rest) = max first.depth (deepest rest) :=
        rfl
      rw [hdeepest]
      rcases List.mem_cons.mp h with rfl | h
      · exact Nat.le_max_left _ _
      · exact (ih h).trans (Nat.le_max_right _ _)

end Expression

namespace Store

variable {s s' : Store}

/-- The expression that is kept with the rule under an id. -/
def expression? (s : Store) (id : String) : Option Expression :=
  (s.get? id).map CompiledRule.expression

theorem map_holds_evaluate
    {id : String} {c : CompiledRule} {b : Bool} (hget : s.get? id = some c)
    (houtcome : c.expression.outcome r = .ok b) (traced : Bool) :
    (s.evaluate traced id r).map Report.holds = .ok b := by
  have hfind : s.find id = .ok c := by rw [find, hget]
  have hholds := c.holds_execute (r := r) traced
  rw [houtcome] at hholds
  rw [evaluate, hfind]
  change ((c.execute traced r).mapError RuleError.evaluation).map Report.holds = _
  cases hexecute : c.execute traced r with
  | error cause =>
      rw [hexecute] at hholds
      cases hholds
  | ok report =>
      rw [hexecute] at hholds
      exact congrArg Except.ok (Except.ok.inj hholds)

/-- What comes of combining stored rules: all of them are nested less deep than
is allowed, and where they can be compared, the rule under the new id has their
truth values, joined. -/
theorem IsConsistent.combine_joins_sources
    (h : s.IsConsistent) {id : String} {now : Instant}
    {request : CombinationRequest} {c : CompiledRule} {t : Store}
    (hcombine : s.combine id now request = .ok (c, t)) :
    (∀ source ∈ request.sources, ∃ e : Expression,
      s.expression? source = some e ∧ e.depth < maxDepth) ∧
    ∀ (r : Record) (traced : Bool),
      (∀ source ∈ request.sources, ∀ e : Expression,
        s.expression? source = some e → e.Compares r) →
      (t.evaluate traced id r).map Report.holds =
        .ok (request.connector.join
          ((request.sources.filterMap s.expression?).map
            (Expression.value r))) := by
  obtain ⟨ht, hget, ⟨sources, hmap, hcombines⟩, -⟩ := h.combine_eq_ok hcombine
  have hexpressions : request.sources.filterMap s.expression? =
      sources.map CompiledRule.expression := by
    rw [← filterMap_get?_eq hmap, List.map_filterMap]
    rfl
  constructor
  · intro source hsource
    have hmem : s.get? source ∈ sources.map some := by
      rw [← hmap]
      exact List.mem_map_of_mem hsource
    obtain ⟨d, hd, hsome⟩ := List.mem_map.mp hmem
    refine ⟨d.expression, by rw [expression?, ← hsome]; rfl, ?_⟩
    -- The combination is one level deeper, and it has been read back.
    have hread := (ht.isFaithful id c hget).ofText_eq
    have hdepth := (Expression.isWellFormed_of_ofText hread).2
    have hle : d.expression.depth ≤
        Expression.deepest (sources.map CompiledRule.expression) :=
      Expression.depth_le_deepest (List.mem_map_of_mem hd)
    rw [hcombines.depth_eq] at hdepth
    omega
  · intro r traced hcompares
    have hall : c.expression.Compares r := by
      apply hcombines.compares
      intro e he
      rw [← hexpressions] at he
      obtain ⟨source, hsource, hsome⟩ := List.mem_filterMap.mp he
      exact hcompares source hsource e hsome
    rw [hexpressions, ← hcombines.value_eq]
    exact map_holds_evaluate hget (c.expression.outcome_of_compares hall) traced

/-- Behind loads of rules that can be read, there is under an id what was loaded
there last. -/
theorem expression?_actAll_load
    (rules : List (Rule × Expression))
    (hrules : ∀ p ∈ rules, p.1.id ≠ "" ∧ ¬Text.AllBlank p.1.name ∧
      Expression.ofText p.1.text = .ok p.2)
    (s : Store) (id : String) :
    (s.actAll (rules.map fun p => .direct (.load p.1))).2.expression? id =
      ((rules.reverse.find? fun p => p.1.id == id).map Prod.snd).or
        (s.expression? id) := by
  induction rules generalizing s with
  | nil => rfl
  | cons p rest ih =>
      obtain ⟨hid, hname, hread⟩ := hrules p List.mem_cons_self
      obtain ⟨c, hload, hrule, hexpression, -⟩ :=
        s.exists_load_eq_ok hid hname hread
      have hfirst : (s.act (.direct (.load p.1))).2 = s.record c := by
        change (s.keep (s.load p.1)).2 = _
        rw [hload]
        rfl
      have hstored : (s.record c).expression? id =
          (([p].find? fun p => p.1.id == id).map Prod.snd).or
            (s.expression? id) := by
        rw [expression?, get?_record, hrule, List.find?_singleton]
        by_cases h : p.1.id = id
        · simp [h, hexpression]
        · simp [h, expression?]
      change (((s.act (.direct (.load p.1))).2).actAll _).2.expression? id = _
      rw [hfirst, ih (fun q hq => hrules q (List.mem_cons_of_mem p hq)), hstored,
        ← Option.or_assoc, ← Option.map_or, ← List.find?_append,
        List.reverse_cons]

/-- Two or more stored rules that are nested less deep than is allowed can be
combined under a new id. -/
theorem IsConsistent.exists_combine_eq_ok
    (h : s.IsConsistent) {id : String} (now : Instant)
    {request : CombinationRequest} (hid : id ≠ "")
    (hcount : 2 ≤ request.sources.length)
    (hname : ¬Text.AllBlank request.name)
    (hsources : ∀ source ∈ request.sources, ∃ e : Expression,
      s.expression? source = some e ∧ e.depth < maxDepth) :
    ∃ c t, s.combine id now request = .ok (c, t) := by
  have hknown : ∀ source ∈ request.sources, ∃ d, s.get? source = some d ∧
      d.expression.depth < maxDepth := by
    intro source hsource
    obtain ⟨e, he, hdepth⟩ := hsources source hsource
    obtain ⟨d, hd, rfl⟩ := Option.map_eq_some_iff.mp he
    exact ⟨d, hd, hdepth⟩
  have hrefusal : s.refusal? (.combine id now request) = none :=
    refusal?_combine_eq_none hcount hname hknown
  rcases h.author_cases (.combine id now request) with
    ⟨cause, hrefused, -⟩ | ⟨-, rule, e, hprepares⟩
  · rw [hrefusal] at hrefused
    cases hrefused
  · have hnew : ∀ given, (Authoring.combine id now request).newId? = some given →
        given ≠ "" := by
      intro given hgiven
      rw [← Option.some.inj hgiven]
      exact hid
    obtain ⟨c, hwritten, -⟩ := hprepares.exists_author_eq_ok hnew
    exact ⟨c, _, combine_eq_ok_of_author hwritten⟩

/-- An expression whose conditions can all be compared, reached or not,
evaluates to its truth value, and so it does when the terms of its levels are
put into another order or repeated. Where stored rules have been combined, they
can also be combined in another order, or with repetitions, in the same store or
in another one that keeps the same expressions for them. Where their conditions
can be compared, both combinations evaluate to what their truth values come to
when they are joined. -/
theorem order_of_terms_does_not_matter :
    (∀ (e : Expression) (r : Record), e.Compares r →
      e.verdict r = .ok (e.value r) ∧
      ∀ f, Relation.ReflTransGen Expression.Rearranges e f →
        f.verdict r = .ok (e.value r)) ∧
    ∀ (history history' : List Activity) (id id' : String) (now now' : Instant)
      (request request' : CombinationRequest) (c : CompiledRule) (t : Store),
      let s := (empty.actAll history).2
      let s' := (empty.actAll history').2
      s.combine id now request = .ok (c, t) →
      id' ≠ "" → 2 ≤ request'.sources.length → ¬Text.AllBlank request'.name →
      request'.connector = request.connector →
      (∀ source, source ∈ request'.sources ↔ source ∈ request.sources) →
      (∀ source ∈ request.sources,
        s'.expression? source = s.expression? source) →
      ∃ c' t', s'.combine id' now' request' = .ok (c', t') ∧
        ∀ (r : Record) (traced traced' : Bool),
          (∀ source ∈ request.sources, ∀ e : Expression,
            s.expression? source = some e → e.Compares r) →
          let values := (request.sources.filterMap s.expression?).map
            (Expression.value r)
          (t.evaluate traced id r).map Report.holds =
              .ok (request.connector.join values) ∧
            (t'.evaluate traced' id' r).map Report.holds =
              .ok (request.connector.join values) := by
  constructor
  · intro e r hcompares
    constructor
    · rw [e.verdict_eq_outcome, e.outcome_of_compares hcompares]
    · intro f hrearranges
      obtain ⟨hiff, hvalue⟩ := Expression.same_of_rearranges_all hrearranges
      rw [f.verdict_eq_outcome, f.outcome_of_compares (hiff.mpr hcompares),
        hvalue]
  · intro history history' id id' now now' request request' c t s s' hcombine
      hid hcount hname hconnector hsources hsame
    have hs : s.IsConsistent := isConsistent_empty.actAll history
    have hs' : s'.IsConsistent := isConsistent_empty.actAll history'
    obtain ⟨hknown, hjoins⟩ := hs.combine_joins_sources hcombine
    have hknown' : ∀ source ∈ request'.sources, ∃ e : Expression,
        s'.expression? source = some e ∧ e.depth < maxDepth := by
      intro source hsource
      have hmem := (hsources source).mp hsource
      rw [hsame source hmem]
      exact hknown source hmem
    obtain ⟨c', t', hcombine'⟩ :=
      hs'.exists_combine_eq_ok now' hid hcount hname hknown'
    refine ⟨c', t', hcombine', ?_⟩
    intro r traced traced' hcompares values
    refine ⟨hjoins r traced hcompares, ?_⟩
    have hcompares' : ∀ source ∈ request'.sources, ∀ e : Expression,
        s'.expression? source = some e → e.Compares r := by
      intro source hsource e he
      have hmem := (hsources source).mp hsource
      rw [hsame source hmem] at he
      exact hcompares source hmem e he
    have hmem (e : Expression) : e ∈ request'.sources.filterMap s'.expression? ↔
        e ∈ request.sources.filterMap s.expression? := by
      rw [List.mem_filterMap, List.mem_filterMap]
      constructor
      · rintro ⟨source, hsource, he⟩
        have hin := (hsources source).mp hsource
        exact ⟨source, hin, (hsame source hin).symm.trans he⟩
      · rintro ⟨source, hsource, he⟩
        exact ⟨source, (hsources source).mpr hsource,
          (hsame source hsource).trans he⟩
    rw [(hs'.combine_joins_sources hcombine').2 r traced' hcompares', hconnector]
    congr 1
    apply Connector.join_congr
    intro b
    simp only [values, List.mem_map, hmem]

theorem order_of_terms_does_not_matter_of_repeated_terms :
    let low : Condition := ⟨"v", .equal, .boolean true⟩
    let named : Condition := ⟨"m", .equal, .string "q"⟩
    let high : Condition := ⟨"v", .equal, .boolean false⟩
    let e : Expression := .chain .and (.pair
      (.group (.chain .or (.pair (.condition low) (.condition named))))
      (.condition high))
    let f : Expression := .chain .and (.cons (.condition high) (.pair
      (.group (.chain .or (.cons (.condition named) (.pair (.condition low)
        (.condition named))))) (.condition high)))
    let r := Record.ofList [("v", .boolean false), ("m", .string "q")]
    let a : Rule := ⟨"a", "first", "", "v = true", ⟨0, 0⟩, ⟨0, 0⟩, []⟩
    let b : Rule := ⟨"b", "second", "", "m='q' OR(v = false)", ⟨0, 0⟩, ⟨0, 0⟩, []⟩
    let s := (empty.actAll [.direct (.load a), .direct (.load b)]).2
    e.Compares r ∧ Relation.ReflTransGen Expression.Rearranges e f ∧
      f.verdict r = .ok true ∧
      ∃ c t c' t',
        s.combine "x" ⟨1, 0⟩ ⟨["a", "b"], "once", "", .or⟩ = .ok (c, t) ∧
        s.combine "y" ⟨2, 0⟩ ⟨["b", "a", "b"], "twice", "", .or⟩ = .ok (c', t') ∧
        (t.evaluate true "x" r).map Report.holds = .ok true ∧
        (t'.evaluate false "y" r).map Report.holds = .ok true := by
  intro low named high e f r a b s
  obtain ⟨hevaluates, hcombines⟩ := order_of_terms_does_not_matter
  have hlow : low.Compares r := ⟨.boolean false, false, by decide, by decide⟩
  have hnamed : named.Compares r := ⟨.string "q", true, by decide, by decide⟩
  have hhigh : high.Compares r := ⟨.boolean false, true, by decide, by decide⟩
  have he : e.Compares r := by
    simp [e, Expression.Compares, Expression.conditions, Terms.conditions,
      Term.conditions, hlow, hnamed, hhigh]
  have hrearranges : Relation.ReflTransGen Expression.Rearranges e f :=
    Expression.rearranges_all_of_pairs .and .or (.condition low)
      (.condition named) (.condition high)
  have hverdict := (hevaluates e r he).2 f hrearranges
  let ea : Expression := .single (.condition low)
  let eb : Expression := .chain .or (.pair (.condition named)
    (.group (.single (.condition high))))
  have hread : ∀ p ∈ [(a, ea), (b, eb)], p.1.id ≠ "" ∧ ¬Text.AllBlank p.1.name ∧
      Expression.ofText p.1.text = .ok p.2 := by
    rw [List.forall_mem_cons, List.forall_mem_singleton]
    exact ⟨⟨by decide, Text.not_allBlank_of_mem 'f' (by decide) (by decide),
        by cbv⟩,
      by decide, Text.not_allBlank_of_mem 's' (by decide) (by decide), by cbv⟩
  have hgeta : s.expression? "a" = some ea :=
    expression?_actAll_load [(a, ea), (b, eb)] hread empty "a"
  have hgetb : s.expression? "b" = some eb :=
    expression?_actAll_load [(a, ea), (b, eb)] hread empty "b"
  have hconsistent : s.IsConsistent :=
    isConsistent_empty.actAll [.direct (.load a), .direct (.load b)]
  have hcombine : ∃ c t,
      s.combine "x" ⟨1, 0⟩ ⟨["a", "b"], "once", "", .or⟩ = .ok (c, t) := by
    refine hconsistent.exists_combine_eq_ok _ (by decide) (by decide)
      (Text.not_allBlank_of_mem 'o' (by decide) (by decide)) ?_
    intro source hsource
    rcases List.mem_pair.mp hsource with rfl | rfl
    · exact ⟨_, hgeta, by decide⟩
    · exact ⟨_, hgetb, by decide⟩
  obtain ⟨c, t, hcombine⟩ := hcombine
  have hmem (source : String) :
      source ∈ ["b", "a", "b"] ↔ source ∈ ["a", "b"] := by
    simp only [List.mem_cons, List.not_mem_nil, or_false]
    rw [← or_assoc, or_comm, ← or_assoc, or_self, or_comm]
  obtain ⟨c', t', hcombine', hholds⟩ := hcombines
    [.direct (.load a), .direct (.load b)] [.direct (.load a), .direct (.load b)]
    "x" "y" ⟨1, 0⟩ ⟨2, 0⟩ ⟨["a", "b"], "once", "", .or⟩
    ⟨["b", "a", "b"], "twice", "", .or⟩ c t hcombine (by decide) (by decide)
    (Text.not_allBlank_of_mem 't' (by decide) (by decide)) rfl hmem
    (fun _ _ => rfl)
  have hea : ea.Compares r := by
    simp [ea, Expression.Compares, Expression.conditions, Term.conditions, hlow]
  have heb : eb.Compares r := by
    simp [eb, Expression.Compares, Expression.conditions, Terms.conditions,
      Term.conditions, hnamed, hhigh]
  have hcompares : ∀ source ∈ ["a", "b"], ∀ e : Expression,
      s.expression? source = some e → e.Compares r := by
    intro source hsource e he
    rcases List.mem_pair.mp hsource with rfl | rfl
    · obtain rfl := Option.some.inj (hgeta.symm.trans he)
      exact hea
    · obtain rfl := Option.some.inj (hgetb.symm.trans he)
      exact heb
  have hjoined : Connector.or.join
      ((["a", "b"].filterMap s.expression?).map (Expression.value r)) = true := by
    simp only [List.filterMap_cons, List.filterMap_nil, hgeta, hgetb]
    decide
  obtain ⟨honce, htwice⟩ := hholds r true false hcompares
  refine ⟨he, hrearranges, ?_, c, t, c', t', hcombine, hcombine', ?_, ?_⟩
  · rw [hverdict]
    decide
  · exact honce.trans (congrArg Except.ok hjoined)
  · exact htwice.trans (congrArg Except.ok hjoined)

end Store

end Rulebook
