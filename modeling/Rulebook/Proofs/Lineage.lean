import Mathlib
import Rulebook.Proofs.Authoring

/-!
# The lineage of rules

Users create, revise and combine rules, evaluate them and look at them. Whatever
they do to a new store, the rules in it are tidy: their texts are canonical,
their names are trimmed, and no rule was updated before it was created. Each of
them goes back to the one action that made it. That action settles the time of
creation and the parents for good, and it found the parents in the store, so
parents are always older than the rules that were combined from them.

Generated ids are different from each other, and the clock does not go back. An
action that fails needs no id and no time, so those it has do not matter.
-/

namespace Rulebook

/-! ## What users do -/

/-- What a user may do with the rules of a store. -/
inductive UserAction where
  | author (w : Authoring)
  | evaluate (id : String) (r : Record)
  | rule (id : String)
  | list (number limit : Nat)

/-- What a user is told. -/
inductive UserAnswer where
  | written (c : CompiledRule)
  | evaluated (r : Report)
  | rule (r : Rule)
  | page (p : Page)

/-- The time at which a rule is written. -/
def Authoring.now : Authoring → Instant
  | .create _ now _ | .revise _ now _ | .combine _ now _ => now

/-- Whether an operation makes a rule: one without parents, or one that is
combined from two or more of them. -/
def Authoring.Makes (r : Rule) : Authoring → Prop
  | .create id now _ => r.id = id ∧ r.createdAt = now ∧ r.parents = []
  | .revise _ _ _ => False
  | .combine id now request =>
    r.id = id ∧ r.createdAt = now ∧ r.parents = request.sources ∧
      2 ≤ r.parents.length

/-- The id that is generated for an action. -/
def UserAction.newId? : UserAction → Option String
  | .author w => w.newId?
  | _ => none

/-- The time that an action reads off the clock. -/
def UserAction.now? : UserAction → Option Instant
  | .author w => some w.now
  | _ => none

/-- Actions follow each other in order if the generated ids are different and
the clock does not go back. -/
structure UserAction.InOrder (actions : List UserAction) : Prop where
  nodup_newIds : (actions.filterMap newId?).Nodup
  pairwise_times :
    (actions.filterMap now?).Pairwise fun a b => a.atMost b = true

theorem UserAction.InOrder.of_isPrefix
    {actions actions' : List UserAction} (h : InOrder actions')
    (hinitial : actions <+: actions') : InOrder actions where
  nodup_newIds := h.nodup_newIds.sublist (hinitial.sublist.filterMap newId?)
  pairwise_times :=
    h.pairwise_times.sublist (hinitial.sublist.filterMap now?)

namespace Store

/-- The answer to an action, and the store behind it. -/
def serve (s : Store) (traced : Bool) :
    UserAction → Except RuleError UserAnswer × Store
  | .author w => ((s.author w).1.map .written, (s.author w).2)
  | .evaluate id r => ((s.evaluate traced id r).map .evaluated, s)
  | .rule id => ((s.find id).map fun c => .rule c.rule, s)
  | .list number limit => ((s.page number limit).map .page, s)

/-- The store behind actions on a new one. -/
def served (traced : Bool) (actions : List UserAction) : Store :=
  actions.foldl (fun s action => (s.serve traced action).2) empty

theorem served_append_singleton
    (traced : Bool) (actions : List UserAction) (action : UserAction) :
    served traced (actions ++ [action]) =
      ((served traced actions).serve traced action).2 := by
  rw [served, List.foldl_append]
  rfl

/-- A rule was created before another one if at some time it was in the store
and the other one was not. -/
def CreatedBefore
    (traced : Bool) (actions : List UserAction) (id other : String) : Prop :=
  ∃ earlier, earlier <+: actions ∧
    ((served traced earlier).get? id).isSome = true ∧
    (served traced earlier).get? other = none

/-- A rule is a parent of another one if that was combined from it. -/
def IsParent (s : Store) (parent id : String) : Prop :=
  ∃ c, s.get? id = some c ∧ parent ∈ c.rule.parents

end Store

/-! ## Tidy rules -/

namespace Text

/-- A trimmed text does not begin with a blank. -/
theorem isBlank_of_head?_trim
    {s : String} {c : Char} (h : (trim s).toList.head? = some c) :
    isBlank c = false := by
  rw [trim, String.toList_ofList] at h
  have hinitial : (dropBlanks (dropBlanks s.toList).reverse).reverse <+:
      dropBlanks s.toList := by
    rw [← List.reverse_suffix, List.reverse_reverse]
    exact List.dropWhile_suffix isBlank
  obtain ⟨behind, hbehind⟩ := hinitial
  refine @eq_false_of_head?_dropWhile isBlank s.toList c ?_
  rw [← dropBlanks, ← hbehind, List.head?_append, h, Option.some_or]

/-- A trimmed text does not end with a blank. -/
theorem isBlank_of_getLast?_trim
    {s : String} {c : Char} (h : (trim s).toList.getLast? = some c) :
    isBlank c = false := by
  rw [trim, String.toList_ofList, List.getLast?_reverse] at h
  exact eq_false_of_head?_dropWhile h

end Text

/-- A rule is tidy if its text is the canonical text of the expression kept with
it, which is what the text spells, if its name is not empty and has no blanks
around it, and if it was not updated before it was created. -/
structure CompiledRule.IsTidy (c : CompiledRule) : Prop where
  text_eq : c.rule.text = c.expression.canonical
  ofText_text : Expression.ofText c.rule.text = .ok c.expression
  name_ne_empty : c.rule.name ≠ ""
  not_blank_of_head? :
    ∀ d, c.rule.name.toList.head? = some d → Text.isBlank d = false
  not_blank_of_getLast? :
    ∀ d, c.rule.name.toList.getLast? = some d → Text.isBlank d = false
  created_atMost_updated :
    c.rule.createdAt.atMost c.rule.updatedAt = true

namespace Store

variable {s : Store} {c : CompiledRule} {w : Authoring}

theorem Writes.exists_name_eq_trim (h : s.Writes c w) :
    ∃ name, c.rule.name = Text.trim name := by
  cases w with
  | create id now draft => exact ⟨draft.name, by rw [h.2]⟩
  | revise id now draft =>
      obtain ⟨-, old, -, hrule⟩ := h
      exact ⟨draft.name, by rw [hrule]⟩
  | combine id now request => exact ⟨request.name, by rw [h.2]⟩

theorem Writes.updatedAt_eq (h : s.Writes c w) :
    c.rule.updatedAt = w.now := by
  cases w with
  | create id now draft => rw [h.2]; rfl
  | revise id now draft =>
      obtain ⟨-, old, -, hrule⟩ := h
      rw [hrule]
      rfl
  | combine id now request => rw [h.2]; rfl

theorem Writes.isTidy
    (h : s.Writes c w) (hfaithful : c.IsFaithful)
    (htime : c.rule.createdAt.atMost w.now = true) : c.IsTidy := by
  obtain ⟨name, hname⟩ := h.exists_name_eq_trim
  refine ⟨h.text_eq, hfaithful.ofText_eq, ?_, ?_, ?_, ?_⟩
  · intro hempty
    apply hfaithful.name_not_blank
    rw [hempty]
    simp
  · intro d hd
    rw [hname] at hd
    exact Text.isBlank_of_head?_trim hd
  · intro d hd
    rw [hname] at hd
    exact Text.isBlank_of_getLast?_trim hd
  · rw [h.updatedAt_eq]
    exact htime

end Store

/-! ## Where rules come from -/

/-- Two versions of a rule have the same origin if they agree in what is settled
when a rule is made. -/
structure Rule.SameOrigin (r r' : Rule) : Prop where
  id_eq : r.id = r'.id
  createdAt_eq : r.createdAt = r'.createdAt
  parents_eq : r.parents = r'.parents

theorem Rule.SameOrigin.trans
    {r r' r'' : Rule} (h : r.SameOrigin r') (h' : r'.SameOrigin r'') :
    r.SameOrigin r'' where
  id_eq := h.id_eq.trans h'.id_eq
  createdAt_eq := h.createdAt_eq.trans h'.createdAt_eq
  parents_eq := h.parents_eq.trans h'.parents_eq

namespace Authoring

variable {w : Authoring} {r r' : Rule}

theorem Makes.newId?_eq (h : w.Makes r) : w.newId? = some r.id := by
  cases w with
  | create id now draft => rw [h.1]; rfl
  | revise id now draft => exact h.elim
  | combine id now request => rw [h.1]; rfl

theorem Makes.now_eq (h : w.Makes r) : w.now = r.createdAt := by
  cases w with
  | create id now draft => exact h.2.1.symm
  | revise id now draft => exact h.elim
  | combine id now request => exact h.2.1.symm

theorem Makes.parents (h : w.Makes r) : r.parents = [] ∨ 2 ≤ r.parents.length := by
  cases w with
  | create id now draft => exact .inl h.2.2
  | revise id now draft => exact h.elim
  | combine id now request => exact .inr h.2.2.2

theorem Makes.of_sameOrigin (h : w.Makes r) (hsame : r.SameOrigin r') :
    w.Makes r' := by
  obtain ⟨hid, htime, hparents⟩ := hsame
  cases w with
  | create id now draft =>
      rw [Makes, hid, htime, hparents] at h
      exact h
  | revise id now draft => exact h.elim
  | combine id now request =>
      rw [Makes, hid, htime, hparents] at h
      exact h

end Authoring

namespace Store

variable {s : Store} {c : CompiledRule} {w : Authoring}

/-- An operation that writes a rule makes it from rules that are in the store,
or it needs no new id and replaces a rule of the same origin. -/
theorem IsConsistent.makes_or_replaces
    (hs : s.IsConsistent) (h : s.Writes c w) :
    (w.Makes c.rule ∧
      ∀ parent ∈ c.rule.parents, (s.get? parent).isSome = true) ∨
    w.newId? = none ∧
      ∃ old, s.get? c.rule.id = some old ∧ old.rule.SameOrigin c.rule := by
  cases w with
  | create id now draft =>
      obtain ⟨-, hrule⟩ := h
      rw [hrule]
      exact .inl ⟨⟨rfl, rfl, rfl⟩, by simp⟩
  | revise id now draft =>
      obtain ⟨-, old, hold, hrule⟩ := h
      have hid := hs.id_eq id old hold
      rw [hrule]
      exact .inr ⟨rfl, old, hold, ⟨hid, rfl, rfl⟩⟩
  | combine id now request =>
      obtain ⟨⟨sources, hmap, hcombines⟩, hrule⟩ := h
      have hcount : 2 ≤ request.sources.length := by
        obtain ⟨ts, -, hts⟩ := hcombines.exists_eq_chain
        have hsize := ts.two_le_size
        have hlength := congrArg List.length hmap
        simp only [Terms.size, hts, List.length_map] at hsize hlength
        omega
      have hpresent : ∀ parent ∈ request.sources,
          (s.get? parent).isSome = true := by
        intro parent hparent
        have hmem := List.mem_map_of_mem (f := s.get?) hparent
        rw [hmap] at hmem
        obtain ⟨d, -, hd⟩ := List.mem_map.mp hmem
        rw [← hd]
        rfl
      rw [hrule]
      exact .inl ⟨⟨rfl, rfl, rfl, hcount⟩, hpresent⟩

/-- An action keeps the store, or it is an operation that records what it
writes. -/
theorem IsConsistent.serve_cases
    (hs : s.IsConsistent) (traced : Bool) (action : UserAction) :
    (s.serve traced action).2 = s ∨
      ∃ w c, action = .author w ∧ (s.serve traced action).2 = s.record c ∧
        s.Writes c w ∧ c.IsFaithful := by
  match action with
  | .evaluate _ _ | .rule _ | .list _ _ => exact .inl rfl
  | .author w =>
      rcases hs.act_cases (.author w) with
        ⟨cause, hfails⟩ | ⟨r, c, -, hrecords⟩
      · exact .inl (congrArg Prod.snd hfails)
      · obtain ⟨-, hwrites, hfaithful⟩ := hs.author_eq_ok hrecords
        exact .inr ⟨w, c, rfl, congrArg Prod.snd hrecords, hwrites, hfaithful⟩

/-- A rule goes back to an operation that made it, when its id was not in use
and its parents were in the store. -/
def HasOrigin (traced : Bool) (actions : List UserAction) (r : Rule) : Prop :=
  ∃ earlier w, earlier ++ [.author w] <+: actions ∧ w.Makes r ∧
    (served traced earlier).get? r.id = none ∧
    ∀ parent ∈ r.parents, ((served traced earlier).get? parent).isSome = true

variable {traced : Bool} {actions actions' : List UserAction} {r r' : Rule}

theorem HasOrigin.of_isPrefix
    (h : HasOrigin traced actions r) (hinitial : actions <+: actions') :
    HasOrigin traced actions' r := by
  obtain ⟨earlier, w, hearlier, horigin⟩ := h
  exact ⟨earlier, w, hearlier.trans hinitial, horigin⟩

theorem HasOrigin.of_sameOrigin
    (h : HasOrigin traced actions r) (hsame : r.SameOrigin r') :
    HasOrigin traced actions r' := by
  obtain ⟨earlier, w, hearlier, hmakes, hnone, hpresent⟩ := h
  rw [hsame.id_eq] at hnone
  rw [hsame.parents_eq] at hpresent
  exact ⟨earlier, w, hearlier, hmakes.of_sameOrigin hsame, hnone, hpresent⟩

theorem HasOrigin.exists_mem_makes (h : HasOrigin traced actions r) :
    ∃ w, .author w ∈ actions ∧ w.Makes r := by
  obtain ⟨earlier, w, hearlier, hmakes, -⟩ := h
  exact ⟨w, hearlier.subset (by simp), hmakes⟩

/-! ## Runs -/

/-- What holds behind actions in order. -/
structure IsOrderly (traced : Bool) (actions : List UserAction) : Prop where
  isConsistent : (served traced actions).IsConsistent
  isTidy : ∀ id c, (served traced actions).get? id = some c → c.IsTidy
  hasOrigin : ∀ id c, (served traced actions).get? id = some c →
    HasOrigin traced actions c.rule

theorem isOrderly_nil (traced : Bool) : IsOrderly traced [] where
  isConsistent := isConsistent_empty
  isTidy id c h := by cases h
  hasOrigin id c h := by cases h

/-- A generated id is not in use. -/
theorem IsOrderly.get?_newId
    {action : UserAction} {id : String} (h : IsOrderly traced actions)
    (horder : UserAction.InOrder (actions ++ [action]))
    (hid : action.newId? = some id) :
    (served traced actions).get? id = none := by
  by_contra hne
  obtain ⟨c, hc⟩ := Option.ne_none_iff_exists'.mp hne
  obtain ⟨w, hw, hmakes⟩ := (h.hasOrigin id c hc).exists_mem_makes
  have hgiven : id ∈ actions.filterMap UserAction.newId? := by
    refine List.mem_filterMap.mpr ⟨.author w, hw, ?_⟩
    rw [← h.isConsistent.id_eq id c hc]
    exact hmakes.newId?_eq
  have hnodup := horder.nodup_newIds
  rw [List.filterMap_append, List.nodup_append] at hnodup
  refine hnodup.2.2 id hgiven id ?_ rfl
  simp [hid]

/-- No rule was created after the time of the next action. -/
theorem IsOrderly.createdAt_atMost
    {action : UserAction} {now : Instant} {id : String} {c : CompiledRule}
    (h : IsOrderly traced actions)
    (horder : UserAction.InOrder (actions ++ [action]))
    (hnow : action.now? = some now)
    (hc : (served traced actions).get? id = some c) :
    c.rule.createdAt.atMost now = true := by
  obtain ⟨w, hw, hmakes⟩ := (h.hasOrigin id c hc).exists_mem_makes
  have hread : c.rule.createdAt ∈ actions.filterMap UserAction.now? := by
    refine List.mem_filterMap.mpr ⟨.author w, hw, ?_⟩
    rw [← hmakes.now_eq]
    rfl
  have htimes := horder.pairwise_times
  rw [List.filterMap_append, List.pairwise_append] at htimes
  exact htimes.2.2 _ hread _ (by simp [hnow])

/-- What one more action does to a rule that is in the store: it stays, or it is
replaced by one of the same origin. -/
theorem IsOrderly.exists_sameOrigin_of_step
    {action : UserAction} {id : String} {c : CompiledRule}
    (h : IsOrderly traced actions)
    (horder : UserAction.InOrder (actions ++ [action]))
    (hc : (served traced actions).get? id = some c) :
    ∃ d, (served traced (actions ++ [action])).get? id = some d ∧
      c.rule.SameOrigin d.rule := by
  rw [served_append_singleton]
  rcases h.isConsistent.serve_cases traced action with
    hkept | ⟨w, d, rfl, hrecords, hwrites, -⟩
  · rw [hkept]
    exact ⟨c, hc, ⟨rfl, rfl, rfl⟩⟩
  · rw [hrecords]
    by_cases hid : d.rule.id = id
    · refine ⟨d, by rw [get?_record, if_pos hid], ?_⟩
      rcases h.isConsistent.makes_or_replaces hwrites with
        ⟨hmakes, -⟩ | ⟨-, old, hold, hsame⟩
      · -- A new rule would have a fresh id.
        have hfresh := h.get?_newId horder hmakes.newId?_eq
        rw [hid, hc] at hfresh
        cases hfresh
      · rw [hid, hc] at hold
        rwa [Option.some.inj hold]
    · exact ⟨c, by rw [get?_record, if_neg hid, hc], ⟨rfl, rfl, rfl⟩⟩

theorem IsOrderly.step
    {action : UserAction} (h : IsOrderly traced actions)
    (horder : UserAction.InOrder (actions ++ [action])) :
    IsOrderly traced (actions ++ [action]) := by
  have hlonger : actions <+: actions ++ [action] := List.prefix_append _ _
  have hbehind := served_append_singleton traced actions action
  rcases h.isConsistent.serve_cases traced action with
    hkept | ⟨w, d, rfl, hrecords, hwrites, hfaithful⟩
  · rw [hkept] at hbehind
    constructor
    case isConsistent =>
      rw [hbehind]
      exact h.isConsistent
    case isTidy =>
      rw [hbehind]
      exact h.isTidy
    case hasOrigin =>
      rw [hbehind]
      intro id c hc
      exact (h.hasOrigin id c hc).of_isPrefix hlonger
  · rw [hrecords] at hbehind
    have hnew : d.IsTidy ∧ HasOrigin traced (actions ++ [.author w]) d.rule := by
      rcases h.isConsistent.makes_or_replaces hwrites with
        ⟨hmakes, hpresent⟩ | ⟨-, old, hold, hsame⟩
      · refine ⟨hwrites.isTidy hfaithful ?_, ?_⟩
        · rw [hmakes.now_eq]
          exact Instant.atMost_refl _
        · exact ⟨actions, w, List.prefix_rfl, hmakes,
            h.get?_newId horder hmakes.newId?_eq, hpresent⟩
      · refine ⟨hwrites.isTidy hfaithful ?_, ?_⟩
        · rw [← hsame.createdAt_eq]
          exact h.createdAt_atMost horder rfl hold
        · exact ((h.hasOrigin _ old hold).of_isPrefix hlonger).of_sameOrigin hsame
    have hcases (id : String) (c : CompiledRule)
        (hc : (served traced (actions ++ [.author w])).get? id = some c) :
        c = d ∨ (served traced actions).get? id = some c := by
      rw [hbehind, get?_record] at hc
      split at hc
      · exact .inl (Option.some.inj hc).symm
      · exact .inr hc
    constructor
    case isConsistent =>
      have hact := h.isConsistent.act (.author w)
      rwa [hbehind, ← hrecords]
    case isTidy =>
      intro id c hc
      rcases hcases id c hc with rfl | hold
      · exact hnew.1
      · exact h.isTidy id c hold
    case hasOrigin =>
      intro id c hc
      rcases hcases id c hc with rfl | hold
      · exact hnew.2
      · exact (h.hasOrigin id c hold).of_isPrefix hlonger

theorem isOrderly_of_inOrder
    (traced : Bool) (horder : UserAction.InOrder actions) :
    IsOrderly traced actions := by
  induction actions using List.reverseRecOn with
  | nil => exact isOrderly_nil traced
  | append_singleton actions action ih =>
      exact (ih (horder.of_isPrefix (List.prefix_append _ _))).step horder

/-- A rule stays in the store, and keeps its origin. -/
theorem exists_sameOrigin_of_isPrefix
    {id : String} {c : CompiledRule} (horder : UserAction.InOrder actions')
    (hinitial : actions <+: actions')
    (hc : (served traced actions).get? id = some c) :
    ∃ d, (served traced actions').get? id = some d ∧
      c.rule.SameOrigin d.rule := by
  obtain ⟨later, rfl⟩ := hinitial
  induction later using List.reverseRecOn with
  | nil =>
      rw [List.append_nil]
      exact ⟨c, hc, ⟨rfl, rfl, rfl⟩⟩
  | append_singleton later action ih =>
      rw [← List.append_assoc] at horder ⊢
      have hbefore := horder.of_isPrefix (List.prefix_append _ _)
      obtain ⟨d, hd, hsame⟩ := ih hbefore
      obtain ⟨e, he, hsame'⟩ :=
        (isOrderly_of_inOrder traced hbefore).exists_sameOrigin_of_step horder hd
      exact ⟨e, he, hsame.trans hsame'⟩

theorem isSome_get?_of_isPrefix
    {id : String} (horder : UserAction.InOrder actions')
    (hinitial : actions <+: actions')
    (hid : ((served traced actions).get? id).isSome = true) :
    ((served traced actions').get? id).isSome = true := by
  obtain ⟨c, hc⟩ := Option.isSome_iff_exists.mp hid
  obtain ⟨d, hd, -⟩ := exists_sameOrigin_of_isPrefix horder hinitial hc
  rw [hd]
  rfl

/-! ## Parents -/

theorem CreatedBefore.trans
    {id id' id'' : String} (horder : UserAction.InOrder actions)
    (h : CreatedBefore traced actions id id')
    (h' : CreatedBefore traced actions id' id'') :
    CreatedBefore traced actions id id'' := by
  obtain ⟨earlier, hearlier, hpresent, habsent⟩ := h
  obtain ⟨later, hlater, hpresent', habsent'⟩ := h'
  refine ⟨later, hlater, ?_, habsent'⟩
  rcases List.prefix_or_prefix_of_prefix hearlier hlater with hle | hle
  · exact isSome_get?_of_isPrefix (horder.of_isPrefix hlater) hle hpresent
  · -- The rule in the middle would have disappeared.
    have hstill := isSome_get?_of_isPrefix (horder.of_isPrefix hearlier) hle hpresent'
    rw [habsent] at hstill
    cases hstill

theorem not_createdBefore_self (id : String) :
    ¬CreatedBefore traced actions id id := by
  rintro ⟨earlier, -, hpresent, habsent⟩
  rw [habsent] at hpresent
  cases hpresent

theorem HasOrigin.createdBefore
    {parent : String} (h : HasOrigin traced actions r)
    (hparent : parent ∈ r.parents) :
    CreatedBefore traced actions parent r.id := by
  obtain ⟨earlier, w, hearlier, -, habsent, hpresent⟩ := h
  exact ⟨earlier, (List.prefix_append _ _).trans hearlier,
    hpresent parent hparent, habsent⟩

theorem IsParent.createdBefore
    {parent id : String} (h : IsOrderly traced actions)
    (hparent : (served traced actions).IsParent parent id) :
    CreatedBefore traced actions parent id := by
  obtain ⟨c, hc, hmem⟩ := hparent
  have hbefore := (h.hasOrigin id c hc).createdBefore hmem
  rwa [h.isConsistent.id_eq id c hc] at hbefore

/-- Whoever is reached through parents was created before. -/
theorem createdBefore_of_transGen
    {ancestor id : String} (horder : UserAction.InOrder actions)
    (h : Relation.TransGen (served traced actions).IsParent ancestor id) :
    CreatedBefore traced actions ancestor id := by
  have horderly := isOrderly_of_inOrder traced horder
  induction h with
  | single hparent => exact hparent.createdBefore horderly
  | tail _ hparent ih => exact ih.trans horder (hparent.createdBefore horderly)

/-- Behind any actions on a new store, every rule is tidy and stands under its
id. It goes back to one of the actions: creating it without parents, or
combining it from two or more rules that were in the store when it was not. So
no rule is among its own ancestors, and every parent is still there. Whatever
was in the store before has kept its time of creation and its parents. -/
theorem served_keeps_lineage
    (traced : Bool) (actions : List UserAction)
    (horder : UserAction.InOrder actions) :
    (∀ id c, (served traced actions).get? id = some c →
      c.rule.id = id ∧ c.IsTidy ∧ HasOrigin traced actions c.rule ∧
      (c.rule.parents = [] ∨ 2 ≤ c.rule.parents.length) ∧
      ∀ parent ∈ c.rule.parents,
        ((served traced actions).get? parent).isSome = true ∧
        CreatedBefore traced actions parent id) ∧
    (∀ id, ¬Relation.TransGen (served traced actions).IsParent id id) ∧
    ∀ earlier, earlier <+: actions →
      ∀ id c, (served traced earlier).get? id = some c →
        ∃ d, (served traced actions).get? id = some d ∧
          d.rule.createdAt = c.rule.createdAt ∧
          d.rule.parents = c.rule.parents := by
  have horderly := isOrderly_of_inOrder traced horder
  refine ⟨?_, ?_, ?_⟩
  · intro id c hc
    have hid := horderly.isConsistent.id_eq id c hc
    have horigin := horderly.hasOrigin id c hc
    obtain ⟨w, -, hmakes⟩ := horigin.exists_mem_makes
    refine ⟨hid, horderly.isTidy id c hc, horigin, hmakes.parents, ?_⟩
    intro parent hparent
    have hbefore := horigin.createdBefore hparent
    rw [hid] at hbefore
    refine ⟨?_, hbefore⟩
    obtain ⟨earlier, hearlier, hpresent, -⟩ := hbefore
    exact isSome_get?_of_isPrefix horder hearlier hpresent
  · intro id hcycle
    exact not_createdBefore_self id (createdBefore_of_transGen horder hcycle)
  · intro earlier hearlier id c hc
    obtain ⟨d, hd, hsame⟩ := exists_sameOrigin_of_isPrefix horder hearlier hc
    exact ⟨d, hd, hsame.createdAt_eq.symm, hsame.parents_eq.symm⟩

theorem served_keeps_lineage_of_revised_combination :
    let actions : List UserAction :=
      [.author (.create "a" ⟨0, 0⟩ ⟨" first ", "", "v=true OR(m='q')"⟩),
        .author (.combine "x" ⟨1, 0⟩ ⟨["a", "a"], "twice", "", .and⟩),
        .list 1 10, .author (.revise "x" ⟨2, 0⟩ ⟨"thrice ", "", "v = false"⟩)]
    UserAction.InOrder actions ∧
      ∃ c, (served true actions).get? "x" = some c ∧ c.IsTidy ∧
        c.rule.createdAt = ⟨1, 0⟩ ∧ c.rule.parents = ["a", "a"] ∧
        CreatedBefore true actions "a" "x" := by
  intro actions
  have horder : UserAction.InOrder actions := by
    constructor
    · decide
    · decide
  have hget : ((served true actions).get? "x").map
      (fun c => (c.rule.createdAt, c.rule.parents)) =
        some (⟨1, 0⟩, ["a", "a"]) := by
    cbv
  obtain ⟨c, hc, horigin⟩ := Option.map_eq_some_iff.mp hget
  obtain ⟨htime, hparents⟩ := Prod.mk.inj horigin
  obtain ⟨-, htidy, -, -, hparent⟩ :=
    (served_keeps_lineage true actions horder).1 "x" c hc
  have hbefore := (hparent "a" (by simp [hparents])).2
  exact ⟨horder, c, hc, htidy, htime, hparents, hbefore⟩

end Store

end Rulebook
