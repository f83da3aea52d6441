import Mathlib
import Rulebook.Proofs.Authoring

/-!
# Combined rules are snapshots

A combined rule gives on every record what is gathered from its sources as they
were when it was made. What is written later does not matter, unless it is the
combined rule itself: whoever revises a source leaves the combinations alone.

First evaluations of stored rules are traced back to their expressions, then the
rule under an id is shown to stay as long as nothing is written there.
-/

namespace Rulebook

/-- What a report tells of a record: whether the rule holds, and the conditions
that were found true. -/
def Report.findings (p : Report) : Bool × List String := (p.holds, p.matched)

theorem CompiledRule.findings_execute
    (c : CompiledRule) (traced : Bool) (r : Record) :
    (c.execute traced r).map Report.findings = c.expression.findings r := by
  have hsummary := c.expression.summary_evaluate (r := r) []
  unfold execute Expression.findings
  rcases Findings.cases_of_map_summary_eq hsummary with
    ⟨cause, hevaluate, houtcome⟩ | ⟨f, hevaluate, houtcome, hmatched⟩
  · rw [hevaluate, houtcome]
    rfl
  · rw [hevaluate, houtcome, ← hmatched]
    rfl

namespace Store

/-- What the rule under an id gives on a record. -/
def findings (s : Store) (traced : Bool) (r : Record) (id : String) :
    Except RuleError (Bool × List String) :=
  (s.evaluate traced id r).map Report.findings

variable {s : Store}

theorem findings_of_get?_eq_some
    {id : String} {c : CompiledRule} (h : s.get? id = some c) (traced : Bool)
    (r : Record) :
    s.findings traced r id =
      (c.expression.findings r).mapError RuleError.evaluation := by
  have hfind : s.find id = .ok c := by rw [find, h]
  rw [findings, evaluate, hfind, ← c.findings_execute traced]
  change ((c.execute traced r).mapError RuleError.evaluation).map
    Report.findings = _
  cases c.execute traced r with
  | error cause => rfl
  | ok report => rfl

theorem map_findings_eq
    {ids : List String} {cs : List CompiledRule}
    (h : ids.map s.get? = cs.map some) (traced : Bool) (r : Record) :
    ids.map (s.findings traced r) =
      ((cs.map CompiledRule.expression).map (Expression.findings r)).map
        (Except.mapError RuleError.evaluation) := by
  induction ids generalizing cs with
  | nil =>
      have hnil : cs = [] := by simpa using h.symm
      rw [hnil]
      rfl
  | cons id ids ih =>
      cases cs with
      | nil => cases h
      | cons c cs =>
          rw [List.map_cons, List.map_cons, List.cons.injEq] at h
          obtain ⟨hget, hrest⟩ := h
          rw [List.map_cons, findings_of_get?_eq_some hget, ih hrest]
          rfl

/-! ## What stays under an id -/

theorem IsConsistent.get?_act_of_not_written
    (h : s.IsConsistent) {a : Activity} {id : String}
    (hkept : ∀ d, (s.act a).1 = .ok d → d.rule.id ≠ id) :
    (s.act a).2.get? id = s.get? id := by
  rcases h.act_cases a with ⟨cause, hfails⟩ | ⟨r, c, -, hrecords⟩
  · rw [hfails]
  · have hother : c.rule.id ≠ id := by
      apply hkept
      rw [hrecords]
    rw [hrecords]
    change (s.record c).get? id = s.get? id
    rw [get?_record, if_neg hother]

/-- A rule stays under its id as long as none is written there. -/
theorem IsConsistent.get?_actAll_of_not_written
    (h : s.IsConsistent) {history : List Activity} {id : String}
    (hkept : ∀ d, .ok d ∈ (s.actAll history).1 → d.rule.id ≠ id) :
    (s.actAll history).2.get? id = s.get? id := by
  induction history generalizing s with
  | nil => rfl
  | cons a history ih =>
      have hfirst : ∀ d, (s.act a).1 = .ok d → d.rule.id ≠ id := by
        intro d hd
        apply hkept
        rw [Store.actAll, hd]
        exact List.mem_cons_self
      have hrest : ∀ d, .ok d ∈ ((s.act a).2.actAll history).1 →
          d.rule.id ≠ id := by
        intro d hd
        apply hkept
        exact List.mem_cons_of_mem _ hd
      rw [Store.actAll, ih (h.act a) hrest]
      exact h.get?_act_of_not_written hfirst

/-! ## Combinations -/

theorem combine_eq_ok_of_author
    {id : String} {now : Instant} {request : CombinationRequest}
    {c : CompiledRule} {t : Store}
    (h : s.author (.combine id now request) = (.ok c, t)) :
    s.combine id now request = .ok (c, t) := by
  rw [author] at h
  cases hcombine : s.combine id now request with
  | error cause =>
      rw [hcombine] at h
      cases h
  | ok p =>
      rw [hcombine] at h
      cases h
      rfl

theorem IsConsistent.combine_eq_ok
    (h : s.IsConsistent) {id : String} {now : Instant}
    {request : CombinationRequest} {c : CompiledRule} {t : Store}
    (hcombine : s.combine id now request = .ok (c, t)) :
    t.IsConsistent ∧ t.get? id = some c ∧
      s.Writes c (.combine id now request) := by
  have hauthor : s.author (.combine id now request) = (.ok c, t) := by
    rw [author, hcombine]
    rfl
  obtain ⟨rfl, hwrites, -⟩ := h.author_eq_ok hauthor
  have hid : c.rule.id = id := by rw [hwrites.2]
  have hconsistent := h.act (.author (.combine id now request))
  rw [Store.act, hauthor] at hconsistent
  refine ⟨hconsistent, ?_, hwrites⟩
  rw [get?_record, if_pos hid]

/-- As long as a combined rule is not written again, whatever else is written,
it stays what it was, and on every record it gives what is gathered from its
sources in the store in which they were combined. Its text is made of their
canonical texts, and its conditions are theirs. -/
theorem combined_rule_is_snapshot
    (before later : List Activity) (id : String) (now : Instant)
    (request : CombinationRequest) (c : CompiledRule) (t : Store)
    (hcombine : (empty.actAll before).2.combine id now request = .ok (c, t))
    (hkept : ∀ d, .ok d ∈ (t.actAll later).1 → d.rule.id ≠ id) :
    (t.actAll later).2.get? id = some c ∧
    (∀ (r : Record) (traced traced' : Bool),
      (t.actAll later).2.findings traced r id =
        request.connector.gather
          (request.sources.map ((empty.actAll before).2.findings traced' r))) ∧
    ∃ sources : List CompiledRule,
      request.sources.map (empty.actAll before).2.get? = sources.map some ∧
      c.expression.Combines request.connector
        (sources.map CompiledRule.expression) ∧
      c.rule.text = (" " ++ request.connector.keyword ++ " ").intercalate
        (sources.map fun d => "(" ++ d.expression.canonical ++ ")") ∧
      c.expression.conditions =
        sources.flatMap fun d => d.expression.conditions := by
  have hs : (empty.actAll before).2.IsConsistent :=
    isConsistent_empty.actAll before
  obtain ⟨ht, hget, hwrites⟩ := hs.combine_eq_ok hcombine
  have htext := hwrites.text_eq
  obtain ⟨⟨sources, hmap, hcombines⟩, -⟩ := hwrites
  have hlater : (t.actAll later).2.get? id = some c := by
    rw [ht.get?_actAll_of_not_written hkept, hget]
  refine ⟨hlater, ?_, sources, hmap, hcombines, ?_, ?_⟩
  · intro r traced traced'
    rw [findings_of_get?_eq_some hlater, hcombines.findings_eq,
      map_findings_eq hmap, Connector.gather_map_error]
  · rw [htext, hcombines.canonical_eq, List.map_map]
    rfl
  · rw [hcombines.conditions_eq, List.flatMap_map]

theorem combined_rule_is_snapshot_of_revised_source :
    let r : Rule := ⟨"a", "first", "", "v=true OR(m='q')", ⟨0, 0⟩, ⟨0, 0⟩, []⟩
    let request : CombinationRequest := ⟨["a", "a"], "twice", "", .and⟩
    let revision : Authoring := .revise "a" ⟨2, 0⟩ ⟨"first", "", "v = false"⟩
    ∃ c t,
      (empty.actAll [.direct (.load r)]).2.combine "x" ⟨1, 0⟩ request =
        .ok (c, t) ∧
      (∀ d, .ok d ∈ (t.actAll [.author revision]).1 → d.rule.id ≠ "x") ∧
      (t.actAll [.author revision]).2.findings false
          (Record.empty.insert "v" (.boolean true)) "x" =
        .ok (true, ["v = true", "v = true"]) := by
  intro r request revision
  have hread : Expression.ofText r.text =
      .ok (.chain .or (.pair (.condition ⟨"v", .equal, .boolean true⟩)
        (.group (.single (.condition ⟨"m", .equal, .string "q"⟩))))) := by
    cbv
  obtain ⟨a, hload, hrule, hexpression, -⟩ := empty.exists_load_eq_ok
    (by decide) (Text.not_allBlank_of_mem 'f' (by decide) (by decide)) hread
  have hbefore : (empty.actAll [.direct (.load r)]).2 = empty.record a :=
    actAll_load hload
  have hget : (empty.record a).get? "a" = some a := by
    rw [get?_record, hrule, if_pos rfl]
  have hs : (empty.record a).IsConsistent := by
    rw [← hbefore]
    exact isConsistent_empty.actAll _
  have hrefusal :
      (empty.record a).refusal? (.combine "x" ⟨1, 0⟩ request) = none := by
    apply refusal?_combine_eq_none (by decide)
      (Text.not_allBlank_of_mem 't' (by decide) (by decide))
    intro source hsource
    obtain rfl : source = "a" := by simpa [request] using hsource
    refine ⟨a, hget, ?_⟩
    rw [hexpression]
    decide
  obtain ⟨c, hwritten⟩ : ∃ c,
      (empty.record a).author (.combine "x" ⟨1, 0⟩ request) =
        (.ok c, (empty.record a).record c) := by
    rcases hs.author_cases (.combine "x" ⟨1, 0⟩ request) with
      ⟨cause, hrefused, -⟩ | ⟨-, _, _, hprepares⟩
    · rw [hrefusal] at hrefused
      cases hrefused
    · obtain ⟨c, hwritten, -⟩ := hprepares.exists_author_eq_ok (by
        rintro id ⟨⟩
        decide)
      exact ⟨c, hwritten⟩
  have hcombine : (empty.actAll [.direct (.load r)]).2.combine "x" ⟨1, 0⟩
      request = .ok (c, (empty.record a).record c) := by
    rw [hbefore]
    exact combine_eq_ok_of_author hwritten
  have hkept : ∀ d, .ok d ∈
      (((empty.record a).record c).actAll [.author revision]).1 →
        d.rule.id ≠ "x" := by
    intro d hd
    have hanswer := List.mem_singleton.mp hd
    have hrevised : ((empty.record a).record c).author revision =
        (.ok d, (((empty.record a).record c).author revision).2) :=
      Prod.ext hanswer.symm rfl
    have hconsistent := hs.act (.author (.combine "x" ⟨1, 0⟩ request))
    rw [Store.act, hwritten] at hconsistent
    obtain ⟨-, ⟨-, old, -, hrule⟩, -⟩ := hconsistent.author_eq_ok hrevised
    rw [hrule]
    exact (by decide : "a" ≠ "x")
  refine ⟨c, _, hcombine, hkept, ?_⟩
  have hsnapshot := (combined_rule_is_snapshot _ _ _ _ _ _ _ hcombine hkept).2.1
    (Record.empty.insert "v" (.boolean true)) false false
  rw [hsnapshot, hbefore]
  change Connector.and.gather [findings _ _ _ "a", findings _ _ _ "a"] = _
  rw [findings_of_get?_eq_some hget, hexpression]
  decide

end Store

end Rulebook
