import Mathlib
import Rulebook.Proofs.Registry

/-!
# Calls that overlap

Several calls may write rules into one store at the same time. Each of them is
done in steps, and between two steps of one call there may be steps of others: a
rule that is to be replaced is looked for, then a rule is compiled, and at last
the compiled rule, which was in flight in the meantime, is put under its id.

Versions tell in which order rules were compiled, but they are put under their
ids in any order. So of two rules that were in flight together, the older one may
be put in the place of the newer one. Of rules that were not, it never is.
-/

namespace Rulebook

/-! ## Steps -/

/-- How far a call has come. -/
inductive Stage where
  | called
  | admitted
  | inFlight (c : CompiledRule)
  | done (answer : Except RuleError CompiledRule)

namespace Stage

/-- The rule that is in flight. -/
def inFlight? : Stage → Option CompiledRule
  | .inFlight c => some c
  | _ => none

/-- The rule that has been put under its id. -/
def placed? : Stage → Option CompiledRule
  | .done (.ok c) => some c
  | _ => none

end Stage

/-- A store, and how far the calls on it have come. -/
structure Overlap (ι : Type) where
  store : Store
  stage : ι → Stage

namespace Overlap

variable {ι : Type}

/-- The rules that the calls have in flight. -/
def inFlight? (o : Overlap ι) : ι → Option CompiledRule :=
  Stage.inFlight? ∘ o.stage

/-- The rules that the calls have put under their ids. -/
def placed? (o : Overlap ι) : ι → Option CompiledRule :=
  Stage.placed? ∘ o.stage

/-- A call has compiled a rule. -/
def Compiled (o : Overlap ι) (i : ι) (c : CompiledRule) : Prop :=
  o.inFlight? i = some c ∨ o.placed? i = some c

theorem placed?_eq_none {o : Overlap ι} {i : ι} {c : CompiledRule}
    (h : o.inFlight? i = some c) : o.placed? i = none := by
  change (o.stage i).inFlight? = some c at h
  change (o.stage i).placed? = none
  cases hstage : o.stage i with
  | inFlight d => rfl
  | _ =>
      rw [hstage] at h
      cases h

/-- No call has made a step yet, and the store is empty. -/
def start : Overlap ι := ⟨.empty, fun _ => .called⟩

variable [DecidableEq ι]

/-- A call comes to a stage. -/
def reach (o : Overlap ι) (i : ι) (stage : Stage) : Overlap ι :=
  { o with stage := Function.update o.stage i stage }

/-- A call compiles a rule, which is in flight then. -/
def compile (o : Overlap ι) (i : ι) (r : Rule) : Overlap ι :=
  match o.store.compile r with
  | .error cause => o.reach i (.done (.error cause))
  | .ok (c, store) => { o.reach i (.inFlight c) with store := store }

/-- A call makes its next step. -/
def advance (calls : ι → StoreCall) (o : Overlap ι) (i : ι) : Overlap ι :=
  match o.stage i with
  | .called =>
    match calls i with
    | .load r | .insert r => o.compile i r
    | .update r | .replace r =>
      if o.store.rules.contains r.id then o.reach i .admitted
      else o.reach i (.done (.error (.notFound r.id)))
  | .admitted => o.compile i (calls i).rule
  | .inFlight c => { o.reach i (.done (.ok c)) with store := o.store.put c }
  | .done _ => o

/-- The calls make their steps in the given order. -/
def run (calls : ι → StoreCall) (schedule : List ι) : Overlap ι :=
  schedule.foldl (advance calls) start

/-- At some time, two rules were in flight together. -/
def FlewTogether (calls : ι → StoreCall) (schedule : List ι)
    (c d : CompiledRule) : Prop :=
  ∃ before, before <+: schedule ∧ ∃ i j,
    (run calls before).inFlight? i = some c ∧
      (run calls before).inFlight? j = some d

variable {calls : ι → StoreCall} {o : Overlap ι} {i j : ι}
  {c d : CompiledRule} {schedule before : List ι}

/-! ## Calls that are not interrupted -/

/-- A call is answered, and leaves a store behind. -/
def finish (o : Overlap ι) (i : ι)
    (result : Except RuleError CompiledRule × Store) : Overlap ι :=
  { o.reach i (.done result.1) with store := result.2 }

theorem reach_reach (o : Overlap ι) (i : ι) (first second : Stage) :
    (o.reach i first).reach i second = o.reach i second := by
  simp [reach]

theorem advance_finish (o : Overlap ι) (i : ι)
    (result : Except RuleError CompiledRule × Store) :
    (o.finish i result).advance calls i = o.finish i result := by
  simp [advance, finish, reach]

theorem advance_compile (o : Overlap ι) (i : ι) (r : Rule) :
    (o.compile i r).advance calls i =
      o.finish i (o.store.keep (o.store.load r)) := by
  unfold compile Store.load
  cases o.store.compile r with
  | error cause => exact o.advance_finish i (.error cause, o.store)
  | ok compiled => simp [advance, finish, reach, Store.keep, Except.map]

/-- The steps of a call, none between them of another one, are the call. -/
theorem advance_uninterrupted (h : o.stage i = .called) :
    [i, i, i].foldl (advance calls) o =
      o.finish i (o.store.perform (calls i)) := by
  change ((o.advance calls i).advance calls i).advance calls i = _
  have hload (r : Rule) (hfirst : o.advance calls i = o.compile i r) :
      ((o.advance calls i).advance calls i).advance calls i =
        o.finish i (o.store.keep (o.store.load r)) := by
    rw [hfirst, advance_compile, advance_finish]
  have hreplace (r : Rule) (hrule : (calls i).rule = r)
      (hfirst : o.advance calls i =
        if o.store.rules.contains r.id then o.reach i .admitted
        else o.finish i (.error (.notFound r.id), o.store)) :
      ((o.advance calls i).advance calls i).advance calls i =
        o.finish i (o.store.keep (o.store.replace r)) := by
    unfold Store.replace
    split at hfirst
    · next hpresent =>
      have hsecond : (o.reach i .admitted).advance calls i =
          (o.reach i .admitted).compile i r := by
        simp [advance, reach, hrule]
      rw [if_pos hpresent, hfirst, hsecond, advance_compile, finish,
        reach_reach]
      rfl
    · next habsent =>
      rw [if_neg habsent, hfirst, advance_finish, advance_finish]
      rfl
  cases hcall : calls i with
  | load r | insert r => exact hload r (by simp [advance, h, hcall])
  | update r | replace r =>
      refine hreplace r (by rw [hcall]; rfl) ?_
      simp only [advance, h, hcall]
      rfl

/-! ## What a step does -/

/-- A step leaves all rules where they are, or a rule is compiled, or a rule in
flight is put under its id. -/
inductive Moves (o : Overlap ι) (i : ι) (u : Overlap ι) : Prop where
  | idle (store_eq : u.store = o.store)
      (inFlight?_eq : u.inFlight? = o.inFlight?)
      (placed?_eq : u.placed? = o.placed?)
  | compiles (c : CompiledRule)
      (version_eq : c.version = o.store.compilations + 1)
      (store_eq : u.store =
        { o.store with compilations := o.store.compilations + 1 })
      (inFlight?_eq : u.inFlight? = Function.update o.inFlight? i (some c))
      (placed?_eq : u.placed? = o.placed?)
      (before : ∀ d, ¬o.Compiled i d)
  | places (c : CompiledRule) (before : o.inFlight? i = some c)
      (store_eq : u.store = o.store.put c)
      (inFlight?_eq : u.inFlight? = Function.update o.inFlight? i none)
      (placed?_eq : u.placed? = Function.update o.placed? i (some c))

theorem inFlight?_reach (o : Overlap ι) (i : ι) (stage : Stage) :
    (o.reach i stage).inFlight? =
      Function.update o.inFlight? i stage.inFlight? := Function.comp_update ..

theorem placed?_reach (o : Overlap ι) (i : ι) (stage : Stage) :
    (o.reach i stage).placed? =
      Function.update o.placed? i stage.placed? := Function.comp_update ..

/-- A call with no rule stays without one. -/
theorem moves_reach {stage : Stage}
    (hflight : o.inFlight? i = stage.inFlight?)
    (hplaced : o.placed? i = stage.placed?) : o.Moves i (o.reach i stage) := by
  refine .idle rfl ?_ ?_
  · rw [inFlight?_reach, ← hflight, Function.update_eq_self]
  · rw [placed?_reach, ← hplaced, Function.update_eq_self]

theorem moves_compile (hflight : o.inFlight? i = none)
    (hplaced : o.placed? i = none) (r : Rule) :
    o.Moves i (o.compile i r) := by
  unfold compile
  cases hcompile : o.store.compile r with
  | error cause => exact moves_reach hflight hplaced
  | ok compiled =>
      obtain ⟨c, store⟩ := compiled
      obtain ⟨hcompiled, rfl⟩ := Store.compile_eq_ok_iff.mp hcompile
      refine .compiles c (Rule.compile_eq_ok hcompiled).2.1 rfl
        (o.inFlight?_reach i _) ?_ ?_
      · have hnone : o.placed? i = (Stage.inFlight c).placed? := hplaced
        have hreach := o.placed?_reach i (.inFlight c)
        rwa [← hnone, Function.update_eq_self] at hreach
      · rintro d (hd | hd)
        · rw [hflight] at hd
          cases hd
        · rw [hplaced] at hd
          cases hd

theorem moves_advance (calls : ι → StoreCall) (o : Overlap ι) (i : ι) :
    o.Moves i (o.advance calls i) := by
  unfold advance
  cases hstage : o.stage i with
  | called =>
      have hflight : o.inFlight? i = none := congrArg Stage.inFlight? hstage
      have hplaced : o.placed? i = none := congrArg Stage.placed? hstage
      cases calls i with
      | load r | insert r => exact moves_compile hflight hplaced r
      | update r | replace r =>
          dsimp only
          split
          · exact moves_reach hflight hplaced
          · exact moves_reach hflight hplaced
  | admitted =>
      have hflight : o.inFlight? i = none := congrArg Stage.inFlight? hstage
      have hplaced : o.placed? i = none := congrArg Stage.placed? hstage
      exact moves_compile hflight hplaced _
  | inFlight c =>
      have hflight : o.inFlight? i = some c := congrArg Stage.inFlight? hstage
      exact .places c hflight rfl (o.inFlight?_reach i _) (o.placed?_reach i _)
  | done answer => exact .idle rfl rfl rfl

namespace Moves

variable {u : Overlap ι}

theorem compilations_le (h : o.Moves i u) :
    o.store.compilations ≤ u.store.compilations := by
  cases h with
  | idle hstore => rw [hstore]
  | compiles c _ hstore =>
      rw [hstore]
      exact Nat.le_succ _
  | places c _ hstore => rw [hstore, Store.compilations_put]

/-- What was put under its id once was put there for good. -/
theorem placed? (h : o.Moves i u) (hc : o.placed? j = some c) :
    u.placed? j = some c := by
  cases h with
  | idle _ _ hplaced => rwa [hplaced]
  | compiles _ _ _ _ hplaced => rwa [hplaced]
  | places d hd _ _ hplaced =>
      rw [hplaced, Function.update_of_ne, hc]
      rintro rfl
      rw [placed?_eq_none hd] at hc
      cases hc

/-- A rule that is compiled by now was so before, or this is the next
compilation. -/
theorem compiled_cases (h : o.Moves i u) (hc : u.Compiled j c) :
    o.Compiled j c ∨ j = i ∧ c.version = o.store.compilations + 1 ∧
      u.store.compilations = o.store.compilations + 1 := by
  cases h with
  | idle _ hflight hplaced =>
      rw [Compiled, hflight, hplaced] at hc
      exact .inl hc
  | compiles d hversion hstore hflight hplaced =>
      rw [Compiled, hflight, hplaced] at hc
      by_cases hj : j = i
      · subst hj
        rcases hc with hc | hc
        · rw [Function.update_self] at hc
          cases hc
          exact .inr ⟨rfl, hversion, by rw [hstore]⟩
        · exact .inl (.inr hc)
      · rw [Function.update_of_ne hj] at hc
        exact .inl hc
  | places d hd _ hflight hplaced =>
      rw [Compiled, hflight, hplaced] at hc
      by_cases hj : j = i
      · subst hj
        rw [Function.update_self, Function.update_self] at hc
        rcases hc with hc | hc
        · cases hc
        · cases hc
          exact .inl (.inl hd)
      · rw [Function.update_of_ne hj, Function.update_of_ne hj] at hc
        exact .inl hc

end Moves

/-! ## What a run keeps -/

theorem run_append_singleton
    (calls : ι → StoreCall) (schedule : List ι) (i : ι) :
    run calls (schedule ++ [i]) = (run calls schedule).advance calls i := by
  rw [run, List.foldl_append]
  rfl

theorem moves_run (calls : ι → StoreCall) (schedule : List ι) (i : ι) :
    (run calls schedule).Moves i (run calls (schedule ++ [i])) := by
  rw [run_append_singleton]
  exact moves_advance calls _ i

theorem FlewTogether.of_isPrefix
    (h : FlewTogether calls before c d) (hinitial : before <+: schedule) :
    FlewTogether calls schedule c d := by
  obtain ⟨earlier, hearlier, htogether⟩ := h
  exact ⟨earlier, hearlier.trans hinitial, htogether⟩

theorem FlewTogether.of_inFlight?
    (hc : (run calls schedule).inFlight? i = some c)
    (hd : (run calls schedule).inFlight? j = some d) :
    FlewTogether calls schedule c d :=
  ⟨schedule, List.prefix_rfl, i, j, hc, hd⟩

/-- Versions are counted and tell calls apart, and a rule that was put under its
id is there or was replaced. What takes its place is newer, or was in flight
together with it. -/
structure IsTraced (calls : ι → StoreCall) (schedule : List ι) : Prop where
  version_le : ∀ i c, (run calls schedule).Compiled i c →
    c.version ≤ (run calls schedule).store.compilations
  injective : ∀ i j c d, (run calls schedule).Compiled i c →
    (run calls schedule).Compiled j d → c.version = d.version → i = j
  held : ∀ id c, (run calls schedule).store.get? id = some c →
    c.rule.id = id ∧ ∃ i, (run calls schedule).placed? i = some c
  kept : ∀ i c, (run calls schedule).placed? i = some c →
    ∃ d, (run calls schedule).store.get? c.rule.id = some d ∧
      (c.version ≤ d.version ∨ FlewTogether calls schedule c d)
  overtaken : ∀ i j c d, (run calls schedule).placed? i = some c →
    (run calls schedule).inFlight? j = some d → c.rule.id = d.rule.id →
      c.version < d.version ∨ FlewTogether calls schedule c d

theorem isTraced_nil (calls : ι → StoreCall) : IsTraced calls [] where
  version_le i c h := by rcases h with h | h <;> cases h
  injective i j c d h := by rcases h with h | h <;> cases h
  held id c h := by cases h
  kept i c h := by cases h
  overtaken i j c d h := by cases h

namespace IsTraced

variable (h : IsTraced calls schedule)

include h

theorem injective_step (k : ι) :
    ∀ i j c d, (run calls (schedule ++ [k])).Compiled i c →
      (run calls (schedule ++ [k])).Compiled j d →
        c.version = d.version → i = j := by
  intro i j c d hc hd heq
  have hmoves := moves_run calls schedule k
  rcases hmoves.compiled_cases hc with hold | ⟨hi, hversion, -⟩
  · rcases hmoves.compiled_cases hd with hold' | ⟨-, hversion, -⟩
    · exact h.injective i j c d hold hold' heq
    · have := h.version_le i c hold
      omega
  · rcases hmoves.compiled_cases hd with hold' | ⟨hj, -, -⟩
    · have := h.version_le j d hold'
      omega
    · rw [hi, hj]

theorem held_step (k : ι) :
    ∀ id c, (run calls (schedule ++ [k])).store.get? id = some c →
      c.rule.id = id ∧ ∃ i, (run calls (schedule ++ [k])).placed? i = some c := by
  intro id c hc
  have hmoves := moves_run calls schedule k
  have hold (hget : (run calls schedule).store.get? id = some c) :
      c.rule.id = id ∧
        ∃ i, (run calls (schedule ++ [k])).placed? i = some c := by
    obtain ⟨hid, i, hi⟩ := h.held id c hget
    exact ⟨hid, i, hmoves.placed? hi⟩
  cases hmoves with
  | idle hstore =>
      rw [hstore] at hc
      exact hold hc
  | compiles d _ hstore =>
      rw [hstore] at hc
      exact hold hc
  | places d hd hstore _ hplaced =>
      rw [hstore, Store.get?_put] at hc
      split at hc
      · next hid =>
        cases hc
        exact ⟨hid, k, by rw [hplaced, Function.update_self]⟩
      · exact hold hc

theorem kept_step (k : ι) :
    ∀ i c, (run calls (schedule ++ [k])).placed? i = some c →
      ∃ d, (run calls (schedule ++ [k])).store.get? c.rule.id = some d ∧
        (c.version ≤ d.version ∨
          FlewTogether calls (schedule ++ [k]) c d) := by
  intro i c hc
  have hinitial : schedule <+: schedule ++ [k] := List.prefix_append ..
  have hold (hplaced : (run calls schedule).placed? i = some c) :
      ∃ d, (run calls schedule).store.get? c.rule.id = some d ∧
        (c.version ≤ d.version ∨
          FlewTogether calls (schedule ++ [k]) c d) := by
    obtain ⟨d, hd, hnewer⟩ := h.kept i c hplaced
    exact ⟨d, hd, hnewer.imp_right fun hflew => hflew.of_isPrefix hinitial⟩
  cases moves_run calls schedule k with
  | idle hstore _ hplaced =>
      rw [hplaced] at hc
      rw [hstore]
      exact hold hc
  | compiles d _ hstore _ hplaced =>
      rw [hplaced] at hc
      rw [hstore]
      exact hold hc
  | places d hd hstore _ hplaced =>
      rw [hstore]
      simp only [Store.get?_put]
      by_cases hi : i = k
      · subst hi
        rw [hplaced, Function.update_self] at hc
        cases hc
        exact ⟨c, if_pos rfl, .inl le_rfl⟩
      · rw [hplaced, Function.update_of_ne hi] at hc
        by_cases hid : d.rule.id = c.rule.id
        · refine ⟨d, if_pos hid, ?_⟩
          exact (h.overtaken i k c d hc hd hid.symm).imp le_of_lt
            fun hflew => hflew.of_isPrefix hinitial
        · rw [if_neg hid]
          exact hold hc

theorem overtaken_step (k : ι) :
    ∀ i j c d, (run calls (schedule ++ [k])).placed? i = some c →
      (run calls (schedule ++ [k])).inFlight? j = some d →
        c.rule.id = d.rule.id → c.version < d.version ∨
          FlewTogether calls (schedule ++ [k]) c d := by
  intro i j c d hc hd hid
  have hinitial : schedule <+: schedule ++ [k] := List.prefix_append ..
  have hold (hplaced : (run calls schedule).placed? i = some c)
      (hflight : (run calls schedule).inFlight? j = some d) :
      c.version < d.version ∨ FlewTogether calls (schedule ++ [k]) c d :=
    (h.overtaken i j c d hplaced hflight hid).imp_right
      fun hflew => hflew.of_isPrefix hinitial
  cases moves_run calls schedule k with
  | idle _ hflight hplaced =>
      rw [hplaced] at hc
      rw [hflight] at hd
      exact hold hc hd
  | compiles e hversion _ hflight hplaced =>
      rw [hplaced] at hc
      by_cases hj : j = k
      · subst hj
        rw [hflight, Function.update_self] at hd
        cases hd
        have := h.version_le i c (.inr hc)
        exact .inl (by omega)
      · rw [hflight, Function.update_of_ne hj] at hd
        exact hold hc hd
  | places e he _ hflight hplaced =>
      have hj : j ≠ k := by
        rintro rfl
        rw [hflight, Function.update_self] at hd
        cases hd
      rw [hflight, Function.update_of_ne hj] at hd
      by_cases hi : i = k
      · subst hi
        rw [hplaced, Function.update_self] at hc
        cases hc
        -- In front of this step both rules were in flight.
        exact .inr ((FlewTogether.of_inFlight? he hd).of_isPrefix hinitial)
      · rw [hplaced, Function.update_of_ne hi] at hc
        exact hold hc hd

theorem step (k : ι) : IsTraced calls (schedule ++ [k]) where
  version_le i c hc := by
    have hmoves := moves_run calls schedule k
    rcases hmoves.compiled_cases hc with hold | ⟨-, hversion, hcount⟩
    · exact (h.version_le i c hold).trans hmoves.compilations_le
    · rw [hversion, hcount]
  injective := h.injective_step k
  held := h.held_step k
  kept := h.kept_step k
  overtaken := h.overtaken_step k

end IsTraced

theorem isTraced (calls : ι → StoreCall) (schedule : List ι) :
    IsTraced calls schedule := by
  induction schedule using List.reverseRecOn with
  | nil => exact isTraced_nil calls
  | append_singleton schedule i ih => exact ih.step i

/-! ## Parts of a run -/

theorem placed?_of_isPrefix (hinitial : before <+: schedule)
    (hc : (run calls before).placed? i = some c) :
    (run calls schedule).placed? i = some c := by
  obtain ⟨rest, rfl⟩ := hinitial
  induction rest using List.reverseRecOn with
  | nil => rwa [List.append_nil]
  | append_singleton rest k ih =>
      rw [← List.append_assoc]
      exact (moves_run calls _ k).placed? ih

theorem compilations_le_of_isPrefix (hinitial : before <+: schedule) :
    (run calls before).store.compilations ≤
      (run calls schedule).store.compilations := by
  obtain ⟨rest, rfl⟩ := hinitial
  induction rest using List.reverseRecOn with
  | nil => rw [List.append_nil]
  | append_singleton rest k ih =>
      rw [← List.append_assoc]
      exact ih.trans (moves_run calls _ k).compilations_le

/-- A rule that was not compiled earlier has a version that was not given out
earlier. -/
theorem compiled_or_lt_version_of_isPrefix (hinitial : before <+: schedule)
    (hc : (run calls schedule).Compiled i c) :
    (run calls before).Compiled i c ∨
      (run calls before).store.compilations < c.version := by
  obtain ⟨rest, rfl⟩ := hinitial
  induction rest using List.reverseRecOn with
  | nil =>
      rw [List.append_nil] at hc
      exact .inl hc
  | append_singleton rest k ih =>
      rw [← List.append_assoc] at hc
      rcases (moves_run calls _ k).compiled_cases hc with
        hold | ⟨-, hversion, -⟩
      · exact ih hold
      · have hle : (run calls before).store.compilations ≤
            (run calls (before ++ rest)).store.compilations :=
          compilations_le_of_isPrefix (List.prefix_append before rest)
        exact .inr (by omega)

/-- What is under an id later is no older, unless it was in flight together with
what was there. -/
theorem exists_get?_of_isPrefix (hinitial : before <+: schedule) {id : String}
    (hc : (run calls before).store.get? id = some c) :
    ∃ d, (run calls schedule).store.get? id = some d ∧ d.rule.id = id ∧
      c.rule.id = id ∧
        (c.version ≤ d.version ∨ FlewTogether calls schedule c d) := by
  obtain ⟨rfl, i, hplaced⟩ := (isTraced calls before).held id c hc
  obtain ⟨d, hd, hnewer⟩ :=
    (isTraced calls schedule).kept i c (placed?_of_isPrefix hinitial hplaced)
  exact ⟨d, hd, ((isTraced calls schedule).held _ d hd).1, rfl, hnewer⟩

/-- If no rule with an id is in flight and one was compiled, there is one under
the id, which is no older unless both were in flight together. -/
theorem exists_get?_of_compiled
    (hflight : ∀ j d, (run calls schedule).inFlight? j = some d →
      d.rule.id ≠ c.rule.id)
    (hc : (run calls schedule).Compiled i c) :
    ∃ d, (run calls schedule).store.get? c.rule.id = some d ∧
      d.rule.id = c.rule.id ∧
        (c.version ≤ d.version ∨ FlewTogether calls schedule c d) := by
  rcases hc with hc | hplaced
  · exact absurd rfl (hflight i c hc)
  · obtain ⟨d, hd, hnewer⟩ := (isTraced calls schedule).kept i c hplaced
    exact ⟨d, hd, ((isTraced calls schedule).held _ d hd).1, hnewer⟩

/-- At no time, two calls had rules with one id in flight. -/
def OneAtATime (calls : ι → StoreCall) (schedule : List ι) (id : String) : Prop :=
  ∀ before, before <+: schedule → ∀ i j c d,
    (run calls before).inFlight? i = some c →
      (run calls before).inFlight? j = some d →
        c.rule.id = id → d.rule.id = id → i = j

theorem OneAtATime.version_le {id : String}
    (h : OneAtATime calls schedule id) (hc : c.rule.id = id) (hd : d.rule.id = id)
    (hnewer : c.version ≤ d.version ∨ FlewTogether calls schedule c d) :
    c.version ≤ d.version := by
  rcases hnewer with hle | ⟨before, hinitial, i, j, hi, hj⟩
  · exact hle
  · obtain rfl := h before hinitial i j c d hi hj hc hd
    cases hi.symm.trans hj
    exact le_rfl

/-- Versions tell calls apart, and a rule that is compiled later has a higher
version. When no rule with an id is in flight, there is one under the id if one
was ever compiled, and no other one has a higher version, unless it was in flight
together with the one that is there. What is under an id is replaced by a rule
with a lower version only if the two were in flight together.

So if rules with an id are in flight one at a time, there is the one with the
highest version whenever none is in flight, and the versions under the id never
decrease. -/
theorem newer_compilation_stays (calls : ι → StoreCall) (schedule : List ι) :
    let o := run calls schedule
    (∀ i j c d, o.Compiled i c → o.Compiled j d →
      c.version = d.version → i = j) ∧
    (∀ before, before <+: schedule → ∀ i j c d,
      (run calls before).Compiled i c → o.Compiled j d →
        ¬(run calls before).Compiled j d → c.version < d.version) ∧
    ∀ id,
      (∀ c, o.store.get? id = some c → c.rule.id = id ∧ ∃ i, o.Compiled i c) ∧
      ((∀ i c, o.inFlight? i = some c → c.rule.id ≠ id) →
        ∀ i c, o.Compiled i c → c.rule.id = id →
          ∃ d, o.store.get? id = some d ∧
            (c.version ≤ d.version ∨ FlewTogether calls schedule c d) ∧
            (OneAtATime calls schedule id → c.version ≤ d.version)) ∧
      ∀ before, before <+: schedule →
        ∀ c, (run calls before).store.get? id = some c →
          ∃ d, o.store.get? id = some d ∧
            (c.version ≤ d.version ∨ FlewTogether calls schedule c d) ∧
            (OneAtATime calls schedule id → c.version ≤ d.version) := by
  intro o
  have htraced := isTraced calls schedule
  refine ⟨htraced.injective, ?_, fun id => ⟨?_, ?_, ?_⟩⟩
  · intro before hinitial i j c d hc hd hnew
    have hle := (isTraced calls before).version_le i c hc
    have hlt := (compiled_or_lt_version_of_isPrefix hinitial hd).resolve_left hnew
    exact hle.trans_lt hlt
  · intro c hc
    obtain ⟨hid, i, hplaced⟩ := htraced.held id c hc
    exact ⟨hid, i, .inr hplaced⟩
  · rintro hflight i c hc rfl
    obtain ⟨d, hd, hid, hnewer⟩ := exists_get?_of_compiled hflight hc
    exact ⟨d, hd, hnewer, fun hone => hone.version_le rfl hid hnewer⟩
  · intro before hinitial c hc
    obtain ⟨d, hd, hid, hid', hnewer⟩ := exists_get?_of_isPrefix hinitial hc
    exact ⟨d, hd, hnewer, fun hone => hone.version_le hid' hid hnewer⟩

/-- A rule is loaded and replaced, and all the while another one is in flight. -/
theorem newer_compilation_stays_of_two_in_flight :
    let rule (id text : String) : Rule := ⟨id, "n", "", text, ⟨0, 0⟩, ⟨0, 0⟩, []⟩
    let calls : Fin 3 → StoreCall := fun i =>
      if i = 0 then .load (rule "r" "v = false")
      else if i = 1 then .load (rule "s" "w = true")
      else .update (rule "r" "v = true")
    let schedule : List (Fin 3) := [0, 1, 0, 2, 2, 1, 2]
    OneAtATime calls schedule "r" ∧
      (∀ i c, (run calls schedule).inFlight? i = some c → c.rule.id ≠ "r") ∧
      ∃ c d e f, FlewTogether calls schedule c f ∧
        FlewTogether calls schedule e f ∧
        (run calls [0, 1, 0]).Compiled 0 c ∧ (run calls schedule).Compiled 2 e ∧
        ¬(run calls [0, 1, 0]).Compiled 2 e ∧
        (run calls [0, 1, 0]).store.get? "r" = some c ∧
        (run calls schedule).store.get? "r" = some d ∧
        c.version < e.version ∧ c.version ≤ d.version ∧
        e.version ≤ d.version := by
  intro rule calls schedule
  let c : CompiledRule := ⟨rule "r" "v = false",
    .single (.condition ⟨"v", .equal, .boolean false⟩), ["v"], 1⟩
  let e : CompiledRule := ⟨rule "r" "v = true",
    .single (.condition ⟨"v", .equal, .boolean true⟩), ["v"], 3⟩
  let f : CompiledRule := ⟨rule "s" "w = true",
    .single (.condition ⟨"w", .equal, .boolean true⟩), ["w"], 2⟩
  have hfew : (schedule.inits.all fun before =>
      (((run calls before).inFlight? 1).all fun f => f.rule.id != "r") &&
        (((run calls before).inFlight? 0).isNone ||
          ((run calls before).inFlight? 2).isNone)) = true := by cbv
  have hone : OneAtATime calls schedule "r" := by
    intro before hinitial i j c d hi hj hc hd
    have hall := List.all_eq_true.mp hfew before
      ((List.mem_inits before schedule).mpr hinitial)
    rw [Bool.and_eq_true, Bool.or_eq_true, Option.isNone_iff_eq_none,
      Option.isNone_iff_eq_none] at hall
    obtain ⟨hother, hnone⟩ := hall
    have hne (k : Fin 3) (u : CompiledRule) (hu : u.rule.id = "r")
        (hk : (run calls before).inFlight? k = some u) : k ≠ 1 := by
      rintro rfl
      rw [hk] at hother
      simp [hu] at hother
    have hi' := hne i c hc hi
    have hj' := hne j d hd hj
    rcases hnone with hnone | hnone
    · grind
    · grind
  have hflight (i : Fin 3) (c : CompiledRule)
      (hc : (run calls schedule).inFlight? i = some c) : c.rule.id ≠ "r" := by
    have hnone : ∀ i, (run calls schedule).inFlight? i = none := by
      rw [Fin.forall_fin_succ, Fin.forall_fin_two]
      refine ⟨?_, ?_, ?_⟩ <;> cbv
    rw [hnone] at hc
    cases hc
  have hloaded : FlewTogether calls schedule c f := by
    refine ⟨[0, 1], by decide, 0, 1, ?_, ?_⟩ <;> cbv
  have hreplaced : FlewTogether calls schedule e f := by
    refine ⟨[0, 1, 0, 2, 2], by decide, 2, 1, ?_, ?_⟩ <;> cbv
  have hfirst : (run calls [0, 1, 0]).Compiled 0 c := .inr (by cbv)
  have hlast : (run calls schedule).Compiled 2 e := .inr (by cbv)
  have hget : (run calls [0, 1, 0]).store.get? "r" = some c := by cbv
  have hnew : ¬(run calls [0, 1, 0]).Compiled 2 e := by
    have hnone : (run calls [0, 1, 0]).inFlight? 2 = none ∧
        (run calls [0, 1, 0]).placed? 2 = none := by
      constructor <;> cbv
    rw [Compiled, hnone.1, hnone.2]
    simp
  have hinitial : [0, 1, 0] <+: schedule := by decide
  obtain ⟨-, horder, hheld⟩ := newer_compilation_stays calls schedule
  obtain ⟨-, hhighest, hlater⟩ := hheld "r"
  obtain ⟨d, hd, -, hle⟩ := hlater _ hinitial c hget
  obtain ⟨d', hd', -, hle'⟩ := hhighest hflight 2 e hlast rfl
  cases hd.symm.trans hd'
  exact ⟨hone, hflight, c, d, e, f, hloaded, hreplaced, hfirst, hlast, hnew, hget,
    hd, horder _ hinitial _ _ _ _ hfirst hlast hnew, hle hone, hle' hone⟩

/-- Two calls load rules with one id. The second one compiles its rule later and
puts it under the id first, and then the first one puts its own there. -/
theorem older_compilation_replaces_newer :
    let rule (text : String) : Rule := ⟨"r", "n", "", text, ⟨0, 0⟩, ⟨0, 0⟩, []⟩
    let calls : Bool → StoreCall := fun second =>
      .load (rule (if second then "v = true" else "v = false"))
    let version? (schedule : List Bool) : Option Nat :=
      ((run calls schedule).store.get? "r").map CompiledRule.version
    (∀ i, (run calls [false, true, true, false]).inFlight? i = none) ∧
      (∃ d, (run calls [false, true, true, false]).Compiled true d ∧
        d.rule.id = "r" ∧ d.version = 2) ∧
      version? [false, true, true] = some 2 ∧
      version? [false, true, true, false] = some 1 := by
  intro rule calls version?
  have hplaced : ((run calls [false, true, true, false]).placed? true).map
      (fun d => (d.rule.id, d.version)) = some ("r", 2) := by cbv
  obtain ⟨d, hd, heq⟩ := Option.map_eq_some_iff.mp hplaced
  refine ⟨?_, ⟨d, .inr hd, congrArg Prod.fst heq, congrArg Prod.snd heq⟩, ?_, ?_⟩
  · rw [Bool.forall_bool]
    constructor <;> cbv
  · change ((run calls _).store.get? "r").map CompiledRule.version = _
    cbv
  · change ((run calls _).store.get? "r").map CompiledRule.version = _
    cbv

end Overlap

end Rulebook
