import Mathlib
import Rulebook.Proofs.Combining
import Rulebook.Proofs.Registry
import Rulebook.Store.Authoring

/-!
# When rules can be written

Creating, revising and combining rules is refused for reasons that can be read
off the request and the store: a blank name, a text that cannot be read, an id
that is unknown, too few sources, or sources nested too deep. The first of these
reasons in a fixed order is the error.

There is no other way to fail. The store compiles what it is given once more,
but a canonical text is always read back, and a trimmed name is not blank. This
holds in every store that has come about by such operations and by rules that
were written directly.
-/

namespace Rulebook

/-! ## Histories of a store -/

/-- An operation that writes a rule. The id of a new rule and the time are given
from outside. -/
inductive Authoring where
  | create (id : String) (now : Instant) (draft : RuleDraft)
  | revise (id : String) (now : Instant) (draft : RuleDraft)
  | combine (id : String) (now : Instant) (request : CombinationRequest)

/-- What happens to a store: an operation, or a rule that is written directly.
What only reads a store gives no store back, so it has no place in a history. -/
inductive Activity where
  | author (w : Authoring)
  | direct (call : StoreCall)

/-- The id that is given to a new rule. -/
def Authoring.newId? : Authoring → Option String
  | .create id _ _ | .combine id _ _ => some id
  | .revise _ _ _ => none

namespace Store

/-- The answer to an operation, and the store behind it. -/
def author (s : Store) : Authoring → Except RuleError CompiledRule × Store
  | .create id now draft => s.keep (s.create id now draft)
  | .revise id now draft => s.keep (s.revise id now draft)
  | .combine id now request => s.keep (s.combine id now request)

/-- The answer to an activity, and the store behind it. -/
def act (s : Store) : Activity → Except RuleError CompiledRule × Store
  | .author w => s.author w
  | .direct call => s.perform call

/-- The answers to all activities of a history, and the store behind them. -/
def actAll (s : Store) :
    List Activity → List (Except RuleError CompiledRule) × Store
  | [] => ([], s)
  | activity :: history =>
    let behind := (s.act activity).2.actAll history
    ((s.act activity).1 :: behind.1, behind.2)

end Store

/-! ## Reasons to refuse -/

/-- A text in which there are only blanks. -/
abbrev Text.AllBlank (s : String) : Prop := ∀ c ∈ s.toList, isBlank c = true

/-- The first reason not to accept a draft. -/
def RuleDraft.refusal? (draft : RuleDraft) : Option RuleError :=
  if Text.AllBlank draft.name then some (.invalid .blankName)
  else
    match Expression.ofText draft.text with
    | .error cause => some (.unreadable cause)
    | .ok _ => none

namespace Store

/-- The first of some ids under which there is no rule. -/
def firstUnknown? (s : Store) (ids : List String) : Option String :=
  ids.find? fun id => (s.get? id).isNone

/-- One more than the depth of the deepest expression under some ids. -/
def combinedDepth (s : Store) (ids : List String) : Nat :=
  Expression.deepest ((ids.filterMap s.get?).map CompiledRule.expression) + 1

/-- The first reason not to carry out an operation. -/
def refusal? (s : Store) : Authoring → Option RuleError
  | .create _ _ draft => draft.refusal?
  | .revise id _ draft =>
    if (s.get? id).isNone then some (.notFound id) else draft.refusal?
  | .combine _ _ request =>
    if request.sources.length < 2 then
      some (.combination (.tooFew request.sources.length))
    else if Text.AllBlank request.name then some (.invalid .blankName)
    else
      match s.firstUnknown? request.sources with
      | some id => some (.notFound id)
      | none =>
        if maxDepth < s.combinedDepth request.sources then
          some (.combination (.tooDeep (s.combinedDepth request.sources)))
        else none

/-- What an operation writes if it is not refused: the trimmed name, and the
canonical text of the expression that is kept with the rule. That expression is
what the draft spells, or the combination of the stored expressions. -/
def Writes (s : Store) (c : CompiledRule) : Authoring → Prop
  | .create id now draft =>
    Expression.ofText draft.text = .ok c.expression ∧
      c.rule = ⟨id, Text.trim draft.name, draft.description,
        c.expression.canonical, now, now, []⟩
  | .revise id now draft =>
    Expression.ofText draft.text = .ok c.expression ∧
      ∃ old, s.get? id = some old ∧
        c.rule = ⟨id, Text.trim draft.name, draft.description,
          c.expression.canonical, old.rule.createdAt, now, old.rule.parents⟩
  | .combine id now request =>
    (∃ sources : List CompiledRule,
      request.sources.map s.get? = sources.map some ∧
        c.expression.Combines request.connector
          (sources.map CompiledRule.expression)) ∧
      c.rule = ⟨id, Text.trim request.name, request.description,
        c.expression.canonical, now, now, request.sources⟩

end Store

theorem Store.Writes.text_eq
    {s : Store} {c : CompiledRule} {w : Authoring} (h : s.Writes c w) :
    c.rule.text = c.expression.canonical := by
  cases w with
  | create id now draft => rw [h.2]
  | revise id now draft =>
      obtain ⟨-, old, -, hrule⟩ := h
      rw [hrule]
  | combine id now request => rw [h.2]

/-! ## Names and texts -/

theorem Text.not_allBlank_of_mem
    {s : String} (c : Char) (hc : c ∈ s.toList) (hblank : isBlank c = false) :
    ¬AllBlank s := by
  intro hall
  rw [hall c hc] at hblank
  cases hblank

theorem Text.not_allBlank_trim {s : String} (h : ¬AllBlank s) :
    ¬AllBlank (trim s) := by
  intro hblank
  have hne : trim s ≠ "" := mt (trim_eq_empty_iff s).mp h
  have hlist : dropBlanks (dropBlanks s.toList).reverse ≠ [] := by
    intro hnil
    apply hne
    rw [trim, hnil]
    rfl
  -- What is left of the text ends with a character that is not blank.
  have hlast : isBlank ((dropBlanks (dropBlanks s.toList).reverse).head hlist) =
      false := List.head_dropWhile_not isBlank hlist
  have hmem : (dropBlanks (dropBlanks s.toList).reverse).head hlist ∈
      (trim s).toList := by
    rw [trim, String.toList_ofList, List.mem_reverse]
    exact List.head_mem hlist
  rw [hblank _ hmem] at hlast
  cases hlast

theorem trimmedName_of_allBlank {name : String} (h : Text.AllBlank name) :
    trimmedName name = .error (.invalid .blankName) := by
  rw [trimmedName, if_pos ((Text.trim_eq_empty_iff name).mpr h)]

theorem trimmedName_of_not_allBlank {name : String} (h : ¬Text.AllBlank name) :
    trimmedName name = .ok (Text.trim name) := by
  rw [trimmedName, if_neg (mt (Text.trim_eq_empty_iff name).mp h)]

theorem canonicalText_of_ok
    {text : String} {e : Expression} (h : Expression.ofText text = .ok e) :
    canonicalText text = .ok e.canonical := by
  rw [canonicalText, h]
  rfl

theorem canonicalText_of_error
    {text : String} {cause : SyntaxError}
    (h : Expression.ofText text = .error cause) :
    canonicalText text = .error (.unreadable cause) := by
  rw [canonicalText, h]
  rfl

/-- A draft is refused by its name or by its text, or it can be written. -/
theorem RuleDraft.refusal?_cases (draft : RuleDraft) :
    (Text.AllBlank draft.name ∧
      draft.refusal? = some (.invalid .blankName)) ∨
    (∃ cause, ¬Text.AllBlank draft.name ∧
      Expression.ofText draft.text = .error cause ∧
      draft.refusal? = some (.unreadable cause)) ∨
    ∃ e, ¬Text.AllBlank draft.name ∧ Expression.ofText draft.text = .ok e ∧
      draft.refusal? = none := by
  unfold refusal?
  by_cases hname : Text.AllBlank draft.name
  · exact .inl ⟨hname, if_pos hname⟩
  · rw [if_neg hname]
    cases htext : Expression.ofText draft.text with
    | error cause => exact .inr (.inl ⟨cause, hname, rfl, rfl⟩)
    | ok e => exact .inr (.inr ⟨e, hname, rfl, rfl⟩)

namespace Store

variable {s : Store}

theorem exists_load_eq_ok
    (s : Store) {r : Rule} {e : Expression} (hid : r.id ≠ "")
    (hname : ¬Text.AllBlank r.name) (hread : Expression.ofText r.text = .ok e) :
    ∃ c, s.load r = .ok (c, s.record c) ∧ c.rule = r ∧ c.expression = e ∧
      c.IsFaithful := by
  have hdefect : r.defect? = none := by
    rw [Rule.defect?, if_neg hid,
      if_neg (mt (Text.trim_eq_empty_iff r.name).mp hname)]
  have hcompile : r.compile (s.compilations + 1) =
      .ok ⟨r, e, e.fields, s.compilations + 1⟩ := by
    rw [Rule.compile, hdefect, hread]
  obtain ⟨-, -, hfaithful⟩ := Rule.compile_eq_ok hcompile
  refine ⟨⟨r, e, e.fields, s.compilations + 1⟩, ?_, rfl, rfl, hfaithful⟩
  rw [load_eq_map_compile, hcompile]
  rfl

theorem actAll_load {r : Rule} {c : CompiledRule} {t : Store}
    (h : s.load r = .ok (c, t)) : (s.actAll [.direct (.load r)]).2 = t := by
  change (s.keep (s.load r)).2 = t
  rw [h]
  rfl

theorem replace_eq_load
    {r : Rule} {old : CompiledRule} (h : s.get? r.id = some old) :
    s.replace r = s.load r := by
  have hcontains : s.rules.contains r.id = true := by
    have hget : s.rules.get? r.id = some old := h
    rw [Table.contains, hget]
    rfl
  rw [replace, if_pos hcontains]

/-! ## Sources of a combination -/

theorem findAll_of_firstUnknown?_eq_some
    {ids : List String} {id : String} (h : s.firstUnknown? ids = some id) :
    s.findAll ids = .error (.notFound id) := by
  unfold firstUnknown? at h
  unfold findAll
  induction ids with
  | nil => cases h
  | cons first rest ih =>
      rw [List.mapM_cons]
      cases hfirst : s.get? first with
      | none =>
          rw [List.find?_cons_of_pos (by simp [hfirst])] at h
          cases h
          rw [find, hfirst]
          rfl
      | some c =>
          rw [List.find?_cons_of_neg (by simp [hfirst])] at h
          rw [find, hfirst, ih h]
          rfl

theorem findAll_of_firstUnknown?_eq_none
    {ids : List String} (h : s.firstUnknown? ids = none) :
    ∃ cs : List CompiledRule,
      s.findAll ids = .ok cs ∧ ids.map s.get? = cs.map some := by
  unfold firstUnknown? at h
  unfold findAll
  induction ids with
  | nil => exact ⟨[], rfl, rfl⟩
  | cons first rest ih =>
      rw [List.find?_eq_none] at h
      have hrest := List.find?_eq_none.mpr fun id hid =>
        h id (List.mem_cons_of_mem first hid)
      obtain ⟨cs, hall, hmap⟩ := ih hrest
      have hfirst : ¬(s.get? first).isNone = true := h first List.mem_cons_self
      rw [Option.isNone_iff_eq_none] at hfirst
      obtain ⟨c, hc⟩ := Option.ne_none_iff_exists'.mp hfirst
      refine ⟨c :: cs, ?_, ?_⟩
      · rw [List.mapM_cons, hall, find, hc]
        rfl
      · rw [List.map_cons, List.map_cons, hc, hmap]

theorem filterMap_get?_eq
    {ids : List String} {cs : List CompiledRule}
    (h : ids.map s.get? = cs.map some) : ids.filterMap s.get? = cs := by
  have hfilter := congrArg (List.filterMap id) h
  simpa [List.filterMap_map, Function.comp_def] using hfilter

theorem IsConsistent.isFaithful_of_mem
    (h : s.IsConsistent) {ids : List String} {cs : List CompiledRule}
    (hmap : ids.map s.get? = cs.map some) :
    ∀ c ∈ cs, c.IsFaithful := by
  intro c hc
  have hmem : some c ∈ ids.map s.get? := by
    rw [hmap]
    exact List.mem_map_of_mem hc
  obtain ⟨id, -, hget⟩ := List.mem_map.mp hmem
  exact h.isFaithful id c hget

/-- Two or more rules are combined by combining their expressions. -/
theorem exists_combines_combineTexts_eq
    (k : Connector) {cs : List CompiledRule} (hcount : 2 ≤ cs.length)
    (hfaithful : ∀ c ∈ cs, c.IsFaithful) :
    ∃ e : Expression, e.Combines k (cs.map CompiledRule.expression) ∧
      Expression.combineTexts k (cs.map fun c => (c.rule.id, c.rule.text)) =
        if maxDepth <
            Expression.deepest (cs.map CompiledRule.expression) + 1 then
          .error (.tooDeep
            (Expression.deepest (cs.map CompiledRule.expression) + 1))
        else .ok e := by
  have hread : (cs.map fun c => (c.rule.id, c.rule.text)).mapM
      (fun source => (Expression.ofText source.2).mapError
        (CombinationError.unreadableSource source.1)) =
      .ok (cs.map CompiledRule.expression) := by
    clear hcount
    induction cs with
    | nil => rfl
    | cons c rest ih =>
        have hfirst := (hfaithful c List.mem_cons_self).ofText_eq
        have hrest := ih fun d hd => hfaithful d (List.mem_cons_of_mem c hd)
        rw [List.map_cons, List.mapM_cons, hfirst, hrest]
        rfl
  have hlength : ¬(cs.map fun c => (c.rule.id, c.rule.text)).length < 2 := by
    rw [List.length_map]
    omega
  obtain ⟨e, hcombines, hcombine⟩ := Expression.exists_combines_combine_eq k
    (cs.map CompiledRule.expression) (by rwa [List.length_map])
  refine ⟨e, hcombines, ?_⟩
  rw [Expression.combineTexts, if_neg hlength, hread]
  exact hcombine

/-! ## The answers to operations -/

/-- A rule that an operation hands over to be loaded: it has an id if the
operation was given one, and a name that is not blank, and its text is the
canonical text of an expression that is read back. -/
structure Prepares (s : Store) (w : Authoring) (r : Rule)
    (e : Expression) : Prop where
  author_eq : s.author w = s.keep (s.load r)
  id_ne_empty : (∀ id, w.newId? = some id → id ≠ "") → r.id ≠ ""
  name_not_blank : ¬Text.AllBlank r.name
  text_eq : r.text = e.canonical
  isWellFormed : e.IsWellFormed
  writes : ∀ c : CompiledRule, c.rule = r → c.expression = e → s.Writes c w

theorem create_cases
    (s : Store) (id : String) (now : Instant) (draft : RuleDraft) :
    (∃ cause, draft.refusal? = some cause ∧
      s.create id now draft = .error cause) ∨
    draft.refusal? = none ∧
      ∃ r e, s.Prepares (.create id now draft) r e := by
  rcases draft.refusal?_cases with
    ⟨hname, hrefusal⟩ | ⟨cause, hname, htext, hrefusal⟩ |
    ⟨e, hname, htext, hrefusal⟩
  · refine .inl ⟨_, hrefusal, ?_⟩
    rw [create, trimmedName_of_allBlank hname]
    rfl
  · refine .inl ⟨_, hrefusal, ?_⟩
    rw [create, trimmedName_of_not_allBlank hname, canonicalText_of_error htext]
    rfl
  · let r : Rule := ⟨id, Text.trim draft.name, draft.description, e.canonical,
      now, now, []⟩
    have hload : s.create id now draft = s.load r := by
      rw [create, trimmedName_of_not_allBlank hname, canonicalText_of_ok htext]
      rfl
    refine .inr ⟨hrefusal, r, e, ?_⟩
    constructor
    · exact congrArg s.keep hload
    · intro hid
      exact hid id rfl
    · exact Text.not_allBlank_trim hname
    · rfl
    · exact Expression.isWellFormed_of_ofText htext
    · rintro c hrule rfl
      exact ⟨htext, hrule⟩

theorem IsConsistent.revise_cases
    (h : s.IsConsistent) (id : String) (now : Instant) (draft : RuleDraft) :
    (∃ cause, s.refusal? (.revise id now draft) = some cause ∧
      s.revise id now draft = .error cause) ∨
    s.refusal? (.revise id now draft) = none ∧
      ∃ r e, s.Prepares (.revise id now draft) r e := by
  cases hold : s.get? id with
  | none =>
      refine .inl ⟨.notFound id, ?_, ?_⟩
      · simp [refusal?, hold]
      · rw [revise, find, hold]
        rfl
  | some old =>
      have hfind : s.find id = .ok old := by rw [find, hold]
      have hrefuse : s.refusal? (.revise id now draft) = draft.refusal? := by
        simp [refusal?, hold]
      rw [hrefuse]
      rcases draft.refusal?_cases with
        ⟨hname, hrefusal⟩ | ⟨cause, hname, htext, hrefusal⟩ |
        ⟨e, hname, htext, hrefusal⟩
      · refine .inl ⟨_, hrefusal, ?_⟩
        rw [revise, hfind, trimmedName_of_allBlank hname]
        rfl
      · refine .inl ⟨_, hrefusal, ?_⟩
        rw [revise, hfind, trimmedName_of_not_allBlank hname,
          canonicalText_of_error htext]
        rfl
      · let r : Rule := ⟨id, Text.trim draft.name, draft.description,
          e.canonical, old.rule.createdAt, now, old.rule.parents⟩
        -- The rule stands under its own id, so it keeps the id that was given.
        have holdId : old.rule.id = id := h.id_eq id old hold
        have hload : s.revise id now draft = s.load r := by
          rw [revise, hfind, trimmedName_of_not_allBlank hname,
            canonicalText_of_ok htext]
          change s.replace ⟨old.rule.id, _, _, _, _, _, _⟩ = s.load r
          rw [holdId]
          exact replace_eq_load (r := r) hold
        refine .inr ⟨hrefusal, r, e, ?_⟩
        constructor
        · exact congrArg s.keep hload
        · intro _
          have hne := (h.isFaithful id old hold).id_ne_empty
          rwa [holdId] at hne
        · exact Text.not_allBlank_trim hname
        · rfl
        · exact Expression.isWellFormed_of_ofText htext
        · rintro c hrule rfl
          exact ⟨htext, old, hold, hrule⟩

theorem IsConsistent.combine_cases
    (h : s.IsConsistent) (id : String) (now : Instant)
    (request : CombinationRequest) :
    (∃ cause, s.refusal? (.combine id now request) = some cause ∧
      s.combine id now request = .error cause) ∨
    s.refusal? (.combine id now request) = none ∧
      ∃ r e, s.Prepares (.combine id now request) r e := by
  by_cases hfew : request.sources.length < 2
  · refine .inl ⟨.combination (.tooFew request.sources.length), ?_, ?_⟩
    · rw [refusal?, if_pos hfew]
    · rw [combine, if_pos hfew]
      rfl
  by_cases hname : Text.AllBlank request.name
  · refine .inl ⟨.invalid .blankName, ?_, ?_⟩
    · rw [refusal?, if_neg hfew, if_pos hname]
    · rw [combine, if_neg hfew, trimmedName_of_allBlank hname]
      rfl
  cases hunknown : s.firstUnknown? request.sources with
  | some missing =>
      refine .inl ⟨.notFound missing, ?_, ?_⟩
      · rw [refusal?, if_neg hfew, if_neg hname, hunknown]
      · rw [combine, if_neg hfew, trimmedName_of_not_allBlank hname,
          findAll_of_firstUnknown?_eq_some hunknown]
        rfl
  | none =>
      obtain ⟨cs, hall, hmap⟩ := findAll_of_firstUnknown?_eq_none hunknown
      have hfaithful := h.isFaithful_of_mem hmap
      have hlength : cs.length = request.sources.length := by
        simpa using (congrArg List.length hmap).symm
      have hdepth : s.combinedDepth request.sources =
          Expression.deepest (cs.map CompiledRule.expression) + 1 := by
        rw [combinedDepth, filterMap_get?_eq hmap]
      have hrefuse : s.refusal? (.combine id now request) =
          if maxDepth < s.combinedDepth request.sources then
            some (.combination (.tooDeep (s.combinedDepth request.sources)))
          else none := by
        rw [refusal?, if_neg hfew, if_neg hname, hunknown]
      obtain ⟨e, hcombines, hcombine⟩ := exists_combines_combineTexts_eq
        request.connector (by omega) hfaithful
      rw [← hdepth] at hcombine
      by_cases hdeep : maxDepth < s.combinedDepth request.sources
      · rw [if_pos hdeep] at hcombine hrefuse
        refine .inl ⟨_, hrefuse, ?_⟩
        rw [combine, if_neg hfew, trimmedName_of_not_allBlank hname, hall]
        change (Except.mapError _ (Expression.combineTexts _ _) >>= _) = _
        rw [hcombine]
        rfl
      · rw [if_neg hdeep] at hcombine hrefuse
        let r : Rule := ⟨id, Text.trim request.name, request.description,
          e.canonical, now, now, request.sources⟩
        have hload : s.combine id now request = s.load r := by
          rw [combine, if_neg hfew, trimmedName_of_not_allBlank hname, hall]
          change (Except.mapError _ (Expression.combineTexts _ _) >>= _) = _
          rw [hcombine]
          rfl
        refine .inr ⟨hrefuse, r, e, ?_⟩
        constructor
        · exact congrArg s.keep hload
        · intro hid
          exact hid id rfl
        · exact Text.not_allBlank_trim hname
        · rfl
        · -- The combiner's limit on nesting is the parser's.
          apply hcombines.isWellFormed
          · rw [hcombines.depth_eq, ← hdepth]
            omega
          · intro source hsource
            obtain ⟨d, hd, rfl⟩ := List.mem_map.mp hsource
            exact Expression.isWellFormed_of_ofText (hfaithful d hd).ofText_eq
        · rintro c hrule rfl
          exact ⟨⟨cs, hmap, hcombines⟩, hrule⟩

/-- An operation is refused and keeps the store, or it prepares a rule. -/
theorem IsConsistent.author_cases (h : s.IsConsistent) (w : Authoring) :
    (∃ cause, s.refusal? w = some cause ∧ s.author w = (.error cause, s)) ∨
    s.refusal? w = none ∧ ∃ r e, s.Prepares w r e := by
  have hkeep {answer : Except RuleError (CompiledRule × Store)}
      {cause : RuleError} (hanswer : answer = .error cause) :
      s.keep answer = (.error cause, s) := by
    rw [hanswer]
    rfl
  cases w with
  | create id now draft =>
      rcases s.create_cases id now draft with ⟨cause, hrefusal, hanswer⟩ | haccept
      · exact .inl ⟨cause, hrefusal, hkeep hanswer⟩
      · exact .inr haccept
  | revise id now draft =>
      rcases h.revise_cases id now draft with ⟨cause, hrefusal, hanswer⟩ | haccept
      · exact .inl ⟨cause, hrefusal, hkeep hanswer⟩
      · exact .inr haccept
  | combine id now request =>
      rcases h.combine_cases id now request with
        ⟨cause, hrefusal, hanswer⟩ | haccept
      · exact .inl ⟨cause, hrefusal, hkeep hanswer⟩
      · exact .inr haccept

/-! ## Histories keep stores consistent -/

/-- An activity fails and keeps the store, or it compiles a rule with the next
number and records it. -/
theorem IsConsistent.act_cases (h : s.IsConsistent) (a : Activity) :
    (∃ cause, s.act a = (.error cause, s)) ∨
      ∃ (r : Rule) (c : CompiledRule), r.compile (s.compilations + 1) = .ok c ∧
        s.act a = (.ok c, s.record c) := by
  have hperform (call : StoreCall) :
      (∃ cause, s.perform call = (.error cause, s)) ∨
        ∃ (r : Rule) (c : CompiledRule), r.compile (s.compilations + 1) = .ok c ∧
          s.perform call = (.ok c, s.record c) := by
    rcases s.perform_cases call with hfails | ⟨c, hcompile, hrecords⟩
    · exact .inl hfails
    · exact .inr ⟨call.rule, c, hcompile, hrecords⟩
  cases a with
  | direct call => exact hperform call
  | author w =>
      rcases h.author_cases w with ⟨cause, -, hrefused⟩ | ⟨-, r, e, hprepares⟩
      · exact .inl ⟨cause, hrefused⟩
      · have hload := hperform (.load r)
        rw [show s.perform (.load r) = s.act (.author w) from
          hprepares.author_eq.symm] at hload
        exact hload

theorem IsConsistent.act
    (h : s.IsConsistent) (a : Activity) : (s.act a).2.IsConsistent := by
  rcases h.act_cases a with ⟨cause, hfails⟩ | ⟨r, c, hcompile, hrecords⟩
  · rw [hfails]
    exact h
  · obtain ⟨-, hversion, hfaithful⟩ := Rule.compile_eq_ok hcompile
    rw [hrecords]
    exact h.record hfaithful hversion

theorem IsConsistent.actAll
    (h : s.IsConsistent) (history : List Activity) :
    (s.actAll history).2.IsConsistent := by
  induction history generalizing s with
  | nil => exact h
  | cons a history ih => exact ih (h.act a)

/-- A prepared rule is written, whatever else is in the store. -/
theorem Prepares.exists_author_eq_ok
    {w : Authoring} {r : Rule} {e : Expression} (h : s.Prepares w r e)
    (hid : ∀ id, w.newId? = some id → id ≠ "") :
    ∃ c, s.author w = (.ok c, s.record c) ∧ s.Writes c w ∧ c.IsFaithful := by
  -- Compiling the canonical text gives the expression back.
  have hread : Expression.ofText r.text = .ok e := by
    rw [h.text_eq]
    exact Expression.ofText_canonical h.isWellFormed
  obtain ⟨c, hload, hrule, hexpression, hfaithful⟩ := s.exists_load_eq_ok
    (h.id_ne_empty hid) h.name_not_blank hread
  refine ⟨c, ?_, h.writes c hrule hexpression, hfaithful⟩
  rw [h.author_eq, hload]
  rfl

/-- An operation that succeeds records what it writes. -/
theorem IsConsistent.author_eq_ok
    (h : s.IsConsistent) {w : Authoring} {c : CompiledRule} {t : Store}
    (hw : s.author w = (.ok c, t)) :
    t = s.record c ∧ s.Writes c w ∧ c.IsFaithful := by
  rcases h.author_cases w with ⟨cause, -, hrefused⟩ | ⟨-, r, e, hprepares⟩
  · rw [hrefused] at hw
    cases hw
  · rw [hprepares.author_eq] at hw
    rcases s.perform_cases (.load r) with
      ⟨cause, hfails⟩ | ⟨d, hcompile, hrecords⟩
    · have hclash := hfails.symm.trans hw
      cases hclash
    · have hsame := hrecords.symm.trans hw
      cases hsame
      obtain ⟨hrule, -, hfaithful⟩ := Rule.compile_eq_ok hcompile
      have hrule' : c.rule = r := hrule
      -- The text is canonical, so what was compiled is what was prepared.
      have hread := hfaithful.ofText_eq
      rw [hrule', hprepares.text_eq,
        Expression.ofText_canonical hprepares.isWellFormed] at hread
      have hexpression : c.expression = e := (Except.ok.inj hread).symm
      exact ⟨rfl, hprepares.writes c hrule' hexpression, hfaithful⟩

/-- A combination is refused for one of four reasons. -/
theorem combination_refusal
    {id : String} {now : Instant} {request : CombinationRequest}
    {cause : RuleError}
    (h : s.refusal? (.combine id now request) = some cause) :
    cause = .combination (.tooFew request.sources.length) ∨
      cause = .invalid .blankName ∨ (∃ missing, cause = .notFound missing) ∨
      ∃ depth, cause = .combination (.tooDeep depth) := by
  rw [refusal?] at h
  by_cases hfew : request.sources.length < 2
  · rw [if_pos hfew] at h
    exact .inl (Option.some.inj h).symm
  by_cases hname : Text.AllBlank request.name
  · rw [if_neg hfew, if_pos hname] at h
    exact .inr (.inl (Option.some.inj h).symm)
  rw [if_neg hfew, if_neg hname] at h
  cases hunknown : s.firstUnknown? request.sources with
  | some missing =>
      simp only [hunknown] at h
      exact .inr (.inr (.inl ⟨missing, (Option.some.inj h).symm⟩))
  | none =>
      simp only [hunknown] at h
      split_ifs at h
      exact .inr (.inr (.inr ⟨_, (Option.some.inj h).symm⟩))

/-- Two or more stored rules can be combined if each is nested less deep than the
limit. -/
theorem refusal?_combine_eq_none
    {id : String} {now : Instant} {request : CombinationRequest}
    (hcount : 2 ≤ request.sources.length)
    (hname : ¬Text.AllBlank request.name)
    (hsources : ∀ source ∈ request.sources, ∃ c, s.get? source = some c ∧
      c.expression.depth < maxDepth) :
    s.refusal? (.combine id now request) = none := by
  have hunknown : s.firstUnknown? request.sources = none := by
    refine List.find?_eq_none.mpr fun source hsource => ?_
    obtain ⟨c, hget, -⟩ := hsources source hsource
    simp [hget]
  have hdepth : ¬maxDepth < s.combinedDepth request.sources := by
    rw [not_lt]
    apply Expression.deepest_lt (by decide)
    intro e he
    obtain ⟨c, hc, rfl⟩ := List.mem_map.mp he
    obtain ⟨source, hsource, hget⟩ := List.mem_filterMap.mp hc
    obtain ⟨d, hd, hlt⟩ := hsources source hsource
    rw [hget] at hd
    rwa [Option.some.inj hd]
  rw [refusal?, if_neg (not_lt.mpr hcount), if_neg hname, hunknown]
  exact if_neg hdepth

/-- In every store that has come about, an operation fails exactly for the first
reason to refuse it, and then the store is kept. Otherwise it records what it
writes, whose text is canonical and is read back as the expression kept with it.
So a combination never fails on the text of a source, or on its own. -/
theorem author_fails_iff_refused
    (history : List Activity) (w : Authoring)
    (hid : ∀ id, w.newId? = some id → id ≠ "") :
    let s := (empty.actAll history).2
    (∀ cause, (s.author w).1 = .error cause ↔ s.refusal? w = some cause) ∧
    (∀ cause, (s.author w).1 = .error cause → (s.author w).2 = s) ∧
    (s.refusal? w = none →
      ∃ c, s.author w = (.ok c, s.record c) ∧ s.Writes c w ∧
        c.rule.text = c.expression.canonical ∧
        Expression.ofText c.rule.text = .ok c.expression ∧ c.IsFaithful) ∧
    ∀ id now request, w = .combine id now request →
      (∀ source cause,
        (s.author w).1 ≠ .error (.combination (.unreadableSource source cause))) ∧
      ∀ cause, (s.author w).1 ≠ .error (.unreadable cause) := by
  intro s
  have hs : s.IsConsistent := isConsistent_empty.actAll history
  have hiff (cause : RuleError) :
      (s.author w).1 = .error cause ↔ s.refusal? w = some cause := by
    rcases hs.author_cases w with
      ⟨reason, hrefusal, hrefused⟩ | ⟨hrefusal, r, e, hprepares⟩
    · simp [hrefused, hrefusal]
    · obtain ⟨c, hwritten, -⟩ := hprepares.exists_author_eq_ok hid
      simp [hwritten, hrefusal]
  refine ⟨hiff, ?_, ?_, ?_⟩
  · intro cause hcause
    rcases hs.author_cases w with ⟨reason, -, hrefused⟩ | ⟨hrefusal, -⟩
    · rw [hrefused]
    · rw [hiff, hrefusal] at hcause
      cases hcause
  · intro hrefusal
    rcases hs.author_cases w with ⟨cause, hrefused, -⟩ | ⟨-, r, e, hprepares⟩
    · rw [hrefusal] at hrefused
      cases hrefused
    · obtain ⟨c, hwritten, hwrites, hfaithful⟩ :=
        hprepares.exists_author_eq_ok hid
      exact ⟨c, hwritten, hwrites, hwrites.text_eq, hfaithful.ofText_eq,
        hfaithful⟩
  · rintro id now request rfl
    constructor
    · intro source cause hcause
      rcases combination_refusal ((hiff _).mp hcause) with
        h | h | ⟨_, h⟩ | ⟨_, h⟩ <;> cases h
    · intro cause hcause
      rcases combination_refusal ((hiff _).mp hcause) with
        h | h | ⟨_, h⟩ | ⟨_, h⟩ <;> cases h

theorem author_fails_iff_refused_of_repeated_source :
    let r : Rule := ⟨"a", "first", "", "v=true AND(m='q')", ⟨0, 0⟩, ⟨0, 0⟩, []⟩
    let s := (empty.actAll [.direct (.load r)]).2
    let w := Authoring.combine "x" ⟨1, 0⟩ ⟨["a", "a"], " twice ", "", .or⟩
    (∀ id, w.newId? = some id → id ≠ "") ∧ s.refusal? w = none ∧
      ∃ c, s.author w = (.ok c, s.record c) ∧ s.Writes c w ∧
        Expression.ofText c.rule.text = .ok c.expression := by
  intro r s w
  have hid : ∀ id, w.newId? = some id → id ≠ "" := by
    rintro id ⟨⟩
    decide
  have hread : Expression.ofText r.text =
      .ok (.chain .and (.pair (.condition ⟨"v", .equal, .boolean true⟩)
        (.group (.single (.condition ⟨"m", .equal, .string "q"⟩))))) := by
    cbv
  obtain ⟨c, hload, hrule, hexpression, -⟩ := empty.exists_load_eq_ok
    (by decide) (Text.not_allBlank_of_mem 'f' (by decide) (by decide)) hread
  have hs : s = empty.record c := actAll_load hload
  have hget : s.get? "a" = some c := by
    rw [hs, get?_record, hrule, if_pos rfl]
  have hrefusal : s.refusal? w = none := by
    apply refusal?_combine_eq_none (by decide)
      (Text.not_allBlank_of_mem 't' (by decide) (by decide))
    intro source hsource
    obtain rfl : source = "a" := by simpa using hsource
    refine ⟨c, hget, ?_⟩
    rw [hexpression]
    decide
  obtain ⟨d, hanswer, hwrites, -, hback, -⟩ :=
    (author_fails_iff_refused _ w hid).2.2.1 hrefusal
  exact ⟨hid, hrefusal, d, hanswer, hwrites, hback⟩

end Store

end Rulebook
