import Mathlib
import Rulebook.Proofs.Places
import Rulebook.Proofs.Walks

/-!
# What a trace tells

The trace of an evaluation shows the events of its log, one in each line. If the
evaluation succeeds, the log accounts for the whole expression. Every condition
in it was compared exactly once, and there is a line at its place that tells the
verdict, or it stands in exactly one term that a line declares to be skipped.
Every level that was evaluated and has more than one term begins with a line that
tells how many there are, and it ends with a line that tells what is skipped, if
anything is.

A level is walked through from its first term to the last one that is evaluated.
What happens in a term is the same as if the term were evaluated on its own, only
that its places are in the term. So the log is built from the logs of terms, and
all that holds of it is proved along this walk, and by induction on terms.
-/

namespace Rulebook

variable {r : Record}

/-! ## What a log has to tell -/

/-- A path from a term to another one that is reached when the first one is
evaluated: on no level that the path goes through is there a term in front of it
that settles the level or fails. -/
inductive Term.Reaches (r : Record) : Term → TermPath → Term → Prop where
  | here (t : Term) : Reaches r t [] t
  | inside {e : Expression} {i : Nat} {t u : Term} {path : TermPath}
      (hterm : e.terms[i]? = some t)
      (hpasses : ∀ v ∈ e.terms.take i, e.connector.passes (v.outcome r) = true)
      (hrest : Reaches r t path u) : Reaches r (.group e) (i :: path) u

namespace Connector

/-- The number of the first term that settles a level. -/
def stop? (r : Record) (k : Connector) (ts : List Term) : Option Nat :=
  ts.findIdx? fun t => decide (t.outcome r = .ok k.settledBy)

/-- The event at the end of a level if some of its last terms are skipped. The
first one of them all has the given number. -/
def closing (r : Record) (k : Connector) (level : TermPath) (index : Nat)
    (ts : List Term) : List Event :=
  match k.stop? r ts with
  | some i =>
    if i + 1 < ts.length then
      [.settled level k (index + i) (ts.length - i - 1)]
    else []
  | none => []

end Connector

/-- The event at the end of a level in which terms are skipped. -/
def Expression.closing (r : Record) (e : Expression) (level : TermPath) :
    List Event :=
  e.connector.closing r level 0 e.terms

/-- The findings account for an expression. The conditions that were compared are
where the log says, and compare as it says, each later than those to the left of
it. On every level that was evaluated, the first event tells the number of terms
if there is more than one, the last event tells what is skipped if anything is,
and between them are events in the terms; there are no such events on other
levels. Every condition was compared once and not skipped, or skipped once and
not compared. -/
structure Findings.AccountsFor (f : Findings) (r : Record) (e : Expression) :
    Prop where
  compared_at : ∀ place c holds, .compared place c holds ∈ f.events →
    e.at? place = some (.condition c) ∧ c.outcome r = .ok holds
  increasing : f.places.Pairwise (· < ·)
  levels : ∀ level body, (Term.group e).Reaches r level (.group body) →
    ∃ inner, Event.inside level f.events =
        body.opening level ++ inner ++ body.closing r level ∧
      ∀ event ∈ inner, level <+: event.path ∧ event.path ≠ level
  on_levels : ∀ event ∈ f.events, event.place? = none →
    ∃ body, (Term.group e).Reaches r event.path (.group body)
  once : ∀ place c, (place, c) ∈ e.places →
    f.places.count place + f.skips.countP (·.isPrefixOf place) = 1

/-! ## Conditions are compared where the log says -/

theorem Term.at?_of_compared (t : Term) :
    ∀ f, t.evaluate r [] = .ok f → ∀ place c holds,
      .compared place c holds ∈ f.events →
        t.at? place = some (.condition c) ∧ c.outcome r = .ok holds := by
  induction t using Term.induction with
  | condition c =>
      intro f hf place d holds hmem
      obtain ⟨value, houtcome, rfl⟩ := Condition.exists_of_evaluate_eq_ok hf
      obtain ⟨rfl, rfl, rfl⟩ := Event.compared.inj (List.mem_singleton.mp hmem)
      exact ⟨rfl, houtcome⟩
  | group e ih =>
      intro f hf place c holds hmem
      rcases e.exists_of_mem_events hf hmem with
        ⟨i, t, g, hterm, -, hg, inner, hinner, heq⟩ | ⟨-, hplace⟩
      · cases inner with
        | compared path d value =>
            obtain ⟨rfl, rfl, rfl⟩ := Event.compared.inj heq
            obtain ⟨hat, houtcome⟩ :=
              ih t (List.mem_of_getElem? hterm) g hg path c holds hinner
            refine ⟨?_, houtcome⟩
            rw [List.singleton_append, at?, hterm, Option.bind_some, hat]
        | opened level k count => cases heq
        | settled level k index skipped => cases heq
      · cases hplace

theorem Term.reaches_of_mem_events (t : Term) :
    ∀ f, t.evaluate r [] = .ok f → ∀ event ∈ f.events, event.place? = none →
      ∃ body, t.Reaches r event.path (.group body) := by
  induction t using Term.induction with
  | condition c =>
      intro f hf event hevent hplace
      obtain ⟨value, -, rfl⟩ := Condition.exists_of_evaluate_eq_ok hf
      rw [List.mem_singleton.mp hevent] at hplace
      cases hplace
  | group e ih =>
      intro f hf event hevent hplace
      rcases e.exists_of_mem_events hf hevent with
        ⟨i, t, g, hterm, hpasses, hg, inner, hinner, rfl⟩ | ⟨hpath, -⟩
      · rw [Event.place?_within, Option.map_eq_none_iff] at hplace
        obtain ⟨body, hreaches⟩ :=
          ih t (List.mem_of_getElem? hterm) g hg inner hinner hplace
        rw [Event.path_within]
        exact ⟨body, .inside hterm hpasses hreaches⟩
      · rw [hpath]
        exact ⟨e, .here _⟩

/-! ## Conditions are compared in order -/

theorem Event.places_within (i : Nat) (events : List Event) :
    (events.map (within [i])).filterMap place? =
      (events.filterMap place?).map (i :: ·) := by
  rw [List.filterMap_map, List.map_filterMap]
  congr 1
  funext event
  rw [Function.comp_apply, place?_within]
  rfl

theorem Walk.increasing
    {k : Connector} {index : Nat} {ts : List Term} {events : List Event}
    (h : Walk r k index ts events)
    (hterms : ∀ t ∈ ts, ∀ f, t.evaluate r [] = .ok f →
      f.places.Pairwise (· < ·)) :
    (events.filterMap Event.place?).Pairwise (· < ·) ∧
      ∀ place ∈ events.filterMap Event.place?,
        ∃ i path, place = i :: path ∧ index ≤ i := by
  have in_first {index : Nat} {f : Findings} {place : TermPath}
      (hplace : place ∈ f.places.map (index :: ·)) :
      ∃ i path, place = i :: path ∧ index ≤ i := by
    obtain ⟨path, -, rfl⟩ := List.mem_map.mp hplace
    exact ⟨index, path, rfl, le_rfl⟩
  induction h with
  | last hterm =>
      rw [Event.places_within]
      exact ⟨TermPath.pairwise_lt_map_cons
        (hterms _ List.mem_cons_self _ hterm) _, fun _ => in_first⟩
  | settled hterm hsettles hrest =>
      rw [List.filterMap_append, Event.places_within]
      simp only [List.filterMap_cons, Event.place?, List.filterMap_nil,
        List.append_nil]
      exact ⟨TermPath.pairwise_lt_map_cons
        (hterms _ List.mem_cons_self _ hterm) _, fun _ => in_first⟩
  | @passed index t rest f events hterm hgoes hrest ih =>
      obtain ⟨hlater, hbehind⟩ :=
        ih fun u hu => hterms u (List.mem_cons_of_mem t hu)
      rw [List.filterMap_append, Event.places_within]
      refine ⟨TermPath.pairwise_lt_append
        (hterms t List.mem_cons_self f hterm) hlater hbehind, ?_⟩
      intro place hplace
      rcases List.mem_append.mp hplace with hfirst | hin
      · exact in_first hfirst
      · obtain ⟨i, path, heq, hlt⟩ := hbehind place hin
        exact ⟨i, path, heq, Nat.le_of_succ_le hlt⟩

theorem Term.increasing_of_evaluate (t : Term) :
    ∀ f, t.evaluate r [] = .ok f → f.places.Pairwise (· < ·) := by
  induction t using Term.induction with
  | condition c =>
      intro f hf
      obtain ⟨value, -, rfl⟩ := Condition.exists_of_evaluate_eq_ok hf
      exact List.pairwise_singleton _ _
  | group e ih =>
      intro f hf
      obtain ⟨events, hevents, hwalk⟩ := e.exists_walk hf
      have hopening : (e.opening []).filterMap Event.place? = [] := by
        unfold Expression.opening
        split <;> rfl
      rw [Findings.places, hevents, List.filterMap_append, hopening,
        List.nil_append]
      exact (hwalk.increasing ih).1

/-! ## Levels are opened and closed -/

namespace Event

theorem inside_within (i : Nat) (path : TermPath) (events : List Event) :
    inside (i :: path) (events.map (within [i])) =
      (inside path events).map (within [i]) := by
  rw [inside, List.filter_map]
  congr 2
  funext event
  simp [path_within]

theorem inside_within_of_ne
    {i j : Nat} (h : i ≠ j) (path : TermPath) (events : List Event) :
    inside (i :: path) (events.map (within [j])) = [] := by
  refine List.filter_eq_nil_iff.mpr ?_
  intro event hevent
  obtain ⟨inner, -, rfl⟩ := List.mem_map.mp hevent
  simp [path_within, h]

theorem inside_append (path : TermPath) (events later : List Event) :
    inside path (events ++ later) = inside path events ++ inside path later :=
  List.filter_append ..

end Event

theorem Walk.inside_eq_nil
    {k : Connector} {index : Nat} {ts : List Term} {events : List Event}
    (h : Walk r k index ts events) {i : Nat} (hlt : i < index)
    (path : TermPath) : Event.inside (i :: path) events = [] := by
  refine List.filter_eq_nil_iff.mpr ?_
  intro event hevent
  rcases h.exists_of_mem hevent with
    ⟨j, t, f, -, -, -, inner, -, rfl⟩ | ⟨j, skipped, rfl⟩
  · have hne : i ≠ index + j := by omega
    simp [Event.path_within, hne]
  · simp [Event.path]

/-- What happens in a term that is walked through is all that its own log
tells. -/
theorem Walk.exists_inside
    {k : Connector} {index : Nat} {ts : List Term} {events : List Event}
    (h : Walk r k index ts events) {i : Nat} {t : Term} (hterm : ts[i]? = some t)
    (hpasses : ∀ v ∈ ts.take i, k.passes (v.outcome r) = true) :
    ∃ f, t.evaluate r [] = .ok f ∧ ∀ path,
      Event.inside ((index + i) :: path) events =
        (Event.inside path f.events).map (Event.within [index + i]) := by
  induction h generalizing i with
  | @last index u f hu =>
      cases i with
      | zero =>
          obtain rfl := Option.some.inj hterm
          exact ⟨f, hu, fun path => Event.inside_within index path f.events⟩
      | succ i => cases hterm
  | @settled index u rest f hu hsettles hrest =>
      cases i with
      | zero =>
          obtain rfl := Option.some.inj hterm
          refine ⟨f, hu, ?_⟩
          intro path
          rw [Nat.add_zero, Event.inside_append, Event.inside_within]
          exact List.append_nil _
      | succ i =>
          have hpass := hpasses u List.mem_cons_self
          rw [u.outcome_of_evaluate hu, hsettles] at hpass
          simp [Connector.passes] at hpass
  | @passed index u rest f events hu hgoes hrest ih =>
      cases i with
      | zero =>
          obtain rfl := Option.some.inj hterm
          refine ⟨f, hu, ?_⟩
          intro path
          rw [Nat.add_zero, Event.inside_append, Event.inside_within,
            hrest.inside_eq_nil (Nat.lt_succ_self index), List.append_nil]
      | succ i =>
          obtain ⟨g, hg, hinside⟩ :=
            ih hterm fun v hv => hpasses v (List.mem_cons_of_mem u hv)
          refine ⟨g, hg, ?_⟩
          intro path
          have hne : index + (i + 1) ≠ index := by omega
          have hindex : index + 1 + i = index + (i + 1) := by omega
          rw [Event.inside_append, Event.inside_within_of_ne hne,
            List.nil_append, ← hindex, hinside path]

namespace Connector

variable {k : Connector} {level : TermPath} {index : Nat} {t : Term}

theorem closing_singleton : k.closing r level index [t] = [] := by
  unfold closing stop?
  rw [List.findIdx?_singleton]
  by_cases hsettles : t.outcome r = .ok k.settledBy
  · simp [hsettles]
  · simp [hsettles]

theorem closing_cons_of_settles
    {rest : List Term} (hsettles : t.outcome r = .ok k.settledBy)
    (hrest : rest ≠ []) :
    k.closing r level index (t :: rest) =
      [.settled level k index rest.length] := by
  have hlength : 0 < rest.length := List.length_pos_iff.mpr hrest
  simp [closing, stop?, List.findIdx?_cons, hsettles, hlength]

theorem closing_cons_of_goes
    {rest : List Term} (hgoes : t.outcome r ≠ .ok k.settledBy) :
    k.closing r level index (t :: rest) =
      k.closing r level (index + 1) rest := by
  have hstop : k.stop? r (t :: rest) = (k.stop? r rest).map (· + 1) := by
    unfold stop?
    rw [List.findIdx?_cons, if_neg (by simpa using hgoes)]
  rw [closing, closing, hstop]
  cases k.stop? r rest with
  | none => rfl
  | some i =>
      have hnumber : index + (i + 1) = index + 1 + i := by omega
      have hskipped : rest.length + 1 - (i + 1) - 1 = rest.length - i - 1 := by
        omega
      simp only [Option.map_some, List.length_cons, Nat.add_lt_add_iff_right,
        hnumber, hskipped]

end Connector

/-- A walk ends with an event that tells what is skipped, if anything is; all
other events are in terms. -/
theorem Walk.exists_inner
    {k : Connector} {index : Nat} {ts : List Term} {events : List Event}
    (h : Walk r k index ts events) :
    ∃ inner, events = inner ++ k.closing r [] index ts ∧
      ∀ event ∈ inner, event.path ≠ [] := by
  have path_ne_nil (index : Nat) (f : Findings) :
      ∀ event ∈ f.events.map (Event.within [index]), event.path ≠ [] := by
    intro event hevent
    obtain ⟨inner, -, rfl⟩ := List.mem_map.mp hevent
    simp [Event.path_within]
  induction h with
  | @last index t f hterm =>
      refine ⟨_, ?_, path_ne_nil index f⟩
      rw [Connector.closing_singleton, List.append_nil]
  | @settled index t rest f hterm hsettles hrest =>
      refine ⟨_, ?_, path_ne_nil index f⟩
      have houtcome : t.outcome r = .ok k.settledBy := by
        rw [t.outcome_of_evaluate hterm, hsettles]
      rw [Connector.closing_cons_of_settles houtcome hrest]
  | @passed index t rest f events hterm hgoes hrest ih =>
      obtain ⟨inner, heq, hpath⟩ := ih
      refine ⟨f.events.map (Event.within [index]) ++ inner, ?_, ?_⟩
      · have houtcome : t.outcome r ≠ .ok k.settledBy := by
          rw [t.outcome_of_evaluate hterm]
          exact fun heq => hgoes (Except.ok.inj heq)
        rw [Connector.closing_cons_of_goes houtcome, List.append_assoc, ← heq]
      · intro event hevent
        rcases List.mem_append.mp hevent with hfirst | hin
        · exact path_ne_nil index f event hfirst
        · exact hpath event hin

namespace Expression

theorem opening_within (i : Nat) (e : Expression) (level : TermPath) :
    (e.opening level).map (Event.within [i]) = e.opening (i :: level) := by
  unfold opening
  split <;> rfl

theorem closing_within (i : Nat) (e : Expression) (level : TermPath) :
    (e.closing r level).map (Event.within [i]) = e.closing r (i :: level) := by
  unfold closing Connector.closing
  split
  · split <;> rfl
  · rfl

theorem inside_opening (e : Expression) (i : Nat) (path : TermPath) :
    Event.inside (i :: path) (e.opening []) = [] := by
  unfold opening
  split <;> rfl

end Expression

/-- All that happens in a level that is reached is between its opening and its
closing. -/
theorem Term.Reaches.exists_inner
    {t u : Term} {level : TermPath} {body : Expression}
    (h : t.Reaches r level u) (hu : u = .group body) :
    ∀ f, t.evaluate r [] = .ok f →
      ∃ inner, Event.inside level f.events =
          body.opening level ++ inner ++ body.closing r level ∧
        ∀ event ∈ inner, level <+: event.path ∧ event.path ≠ level := by
  induction h with
  | here t =>
      intro f hf
      rw [hu] at hf
      obtain ⟨events, hevents, hwalk⟩ := body.exists_walk hf
      obtain ⟨inner, hinner, hpath⟩ := hwalk.exists_inner
      refine ⟨inner, ?_, fun event hevent => ⟨List.nil_prefix, hpath event hevent⟩⟩
      have hall : Event.inside [] f.events = f.events :=
        List.filter_eq_self.mpr fun _ _ => rfl
      rw [hall, hevents, hinner, List.append_assoc]
      rfl
  | @inside e i t u path hterm hpasses hrest ih =>
      intro f hf
      obtain ⟨events, hevents, hwalk⟩ := e.exists_walk hf
      obtain ⟨g, hg, hinside⟩ := hwalk.exists_inside hterm hpasses
      obtain ⟨inner, hinner, hpath⟩ := ih hu g hg
      refine ⟨inner.map (Event.within [i]), ?_, ?_⟩
      · rw [Nat.zero_add] at hinside
        rw [hevents, Event.inside_append, e.inside_opening, List.nil_append,
          hinside path, hinner, List.map_append, List.map_append,
          body.opening_within, body.closing_within]
      · intro event hevent
        obtain ⟨own, hown, rfl⟩ := List.mem_map.mp hevent
        obtain ⟨hbelow, hne⟩ := hpath own hown
        rw [Event.path_within, List.singleton_append]
        exact ⟨List.cons_prefix_cons.mpr ⟨rfl, hbelow⟩,
          fun heq => hne (List.cons.inj heq).2⟩

/-! ## Every condition is compared or skipped -/

namespace Event

/-- How often the condition at a place is compared, and how many of the terms
that are skipped it stands in. -/
def tally (place : TermPath) (events : List Event) : Nat :=
  (events.filterMap place?).count place +
    (events.flatMap skips).countP (·.isPrefixOf place)

theorem tally_append (place : TermPath) (events later : List Event) :
    tally place (events ++ later) = tally place events + tally place later := by
  simp only [tally, List.filterMap_append, List.count_append,
    List.flatMap_append, List.countP_append]
  omega

theorem skips_map_within (i : Nat) (events : List Event) :
    (events.map (within [i])).flatMap skips =
      (events.flatMap skips).map (i :: ·) := by
  rw [List.flatMap_map, List.map_flatMap]
  congr 1
  funext event
  exact event.skips_within [i]

theorem tally_within (i : Nat) (path : TermPath) (events : List Event) :
    tally (i :: path) (events.map (within [i])) = tally path events := by
  have hcount : ((events.filterMap place?).map (i :: ·)).count (i :: path) =
      (events.filterMap place?).count path :=
    List.count_map_of_injective _ _ (List.cons_injective) _
  rw [tally, places_within, skips_map_within, hcount, List.countP_map, tally]
  congr 2
  funext skip
  simp

theorem tally_within_of_ne
    {i j : Nat} (h : i ≠ j) (path : TermPath) (events : List Event) :
    tally (i :: path) (events.map (within [j])) = 0 := by
  have hcount : ((events.filterMap place?).map (j :: ·)).count (i :: path) = 0 := by
    refine List.count_eq_zero.mpr ?_
    intro hmem
    obtain ⟨path', -, heq⟩ := List.mem_map.mp hmem
    exact h (List.cons.inj heq).1.symm
  rw [tally, places_within, skips_map_within, hcount, Nat.zero_add,
    List.countP_eq_zero]
  intro skip hskip
  obtain ⟨path', -, rfl⟩ := List.mem_map.mp hskip
  simp [h.symm]

theorem tally_settled (k : Connector) (index skipped i : Nat) (path : TermPath) :
    tally (i :: path) [.settled [] k index skipped] =
      if index < i ∧ i ≤ index + skipped then 1 else 0 := by
  have hterms : tally (i :: path) [.settled [] k index skipped] =
      (List.range' (index + 1) skipped).count i := by
    have hnone : List.filterMap place? [.settled [] k index skipped] = [] := rfl
    rw [tally, hnone, List.count_nil, Nat.zero_add, List.flatMap_singleton, skips,
      List.countP_map, List.count]
    congr 1
    funext j
    simp [List.isPrefixOf]
  rw [hterms]
  split
  · next hbetween =>
    refine List.count_eq_one_of_mem List.nodup_range' ?_
    rw [List.mem_range'_1]
    omega
  · next hout =>
    refine List.count_eq_zero.mpr ?_
    rw [List.mem_range'_1]
    omega

end Event

theorem Walk.tally_eq_zero
    {k : Connector} {index : Nat} {ts : List Term} {events : List Event}
    (h : Walk r k index ts events) {i : Nat} (hlt : i < index)
    (path : TermPath) : Event.tally (i :: path) events = 0 := by
  induction h with
  | last hterm => exact Event.tally_within_of_ne (Nat.ne_of_lt hlt) ..
  | settled hterm hsettles hrest =>
      rw [Event.tally_append, Event.tally_within_of_ne (Nat.ne_of_lt hlt),
        Event.tally_settled, if_neg (by omega)]
  | passed hterm hgoes hrest ih =>
      rw [Event.tally_append, Event.tally_within_of_ne (Nat.ne_of_lt hlt),
        ih (Nat.lt_succ_of_lt hlt)]

theorem Walk.tally_eq_one
    {k : Connector} {index : Nat} {ts : List Term} {events : List Event}
    (h : Walk r k index ts events) {path : TermPath} {i : Nat} {t : Term}
    (hterm : ts[i]? = some t)
    (hevaluates : ∀ f, t.evaluate r [] = .ok f → Event.tally path f.events = 1) :
    Event.tally ((index + i) :: path) events = 1 := by
  induction h generalizing i with
  | @last index u f hu =>
      cases i with
      | zero =>
          obtain rfl := Option.some.inj hterm
          rw [Nat.add_zero, Event.tally_within, hevaluates f hu]
      | succ i => cases hterm
  | @settled index u rest f hu hsettles hrest =>
      rw [Event.tally_append, Event.tally_settled]
      cases i with
      | zero =>
          obtain rfl := Option.some.inj hterm
          rw [Nat.add_zero, Event.tally_within, hevaluates f hu,
            if_neg (by omega)]
      | succ i =>
          have hlt : i + 1 < rest.length + 1 :=
            (List.getElem?_eq_some_iff.mp hterm).1
          have hne : index + (i + 1) ≠ index := by omega
          rw [Event.tally_within_of_ne hne, if_pos (by omega)]
  | @passed index u rest f events hu hgoes hrest ih =>
      rw [Event.tally_append]
      cases i with
      | zero =>
          obtain rfl := Option.some.inj hterm
          rw [Nat.add_zero, Event.tally_within, hevaluates f hu,
            hrest.tally_eq_zero (Nat.lt_succ_self index)]
      | succ i =>
          have hne : index + (i + 1) ≠ index := by omega
          have hindex : index + 1 + i = index + (i + 1) := by omega
          rw [Event.tally_within_of_ne hne, ← hindex, ih hterm]

theorem Term.tally_of_at?_eq_condition (t : Term) :
    ∀ place c, t.at? place = some (.condition c) →
      ∀ f, t.evaluate r [] = .ok f → Event.tally place f.events = 1 := by
  induction t using Term.induction with
  | condition d =>
      intro place c hat f hf
      obtain ⟨value, -, rfl⟩ := Condition.exists_of_evaluate_eq_ok hf
      cases place with
      | nil => rfl
      | cons i path => cases hat
  | group e ih =>
      intro place c hat f hf
      cases place with
      | nil => cases hat
      | cons i path =>
          obtain ⟨t, hterm, hat⟩ := Option.bind_eq_some_iff.mp hat
          obtain ⟨events, hevents, hwalk⟩ := e.exists_walk hf
          have hopening : Event.tally (i :: path) (e.opening []) = 0 := by
            unfold Expression.opening
            split <;> rfl
          have hone := hwalk.tally_eq_one hterm
            (ih t (List.mem_of_getElem? hterm) path c hat)
          rw [Nat.zero_add] at hone
          rw [hevents, Event.tally_append, hopening, hone]

/-! ## The account -/

theorem Expression.accountsFor_of_evaluate
    {e : Expression} {f : Findings} (h : e.evaluate r [] = .ok f) :
    f.AccountsFor r e where
  compared_at place c holds hcompared :=
    (Term.group e).at?_of_compared f h place c holds hcompared
  increasing := (Term.group e).increasing_of_evaluate f h
  levels _ _ hreaches := hreaches.exists_inner rfl f h
  on_levels event hevent hplace :=
    (Term.group e).reaches_of_mem_events f h event hevent hplace
  once place c hplace :=
    (Term.group e).tally_of_at?_eq_condition place c
      ((e.mem_places_iff_at? place c).mp hplace) f h

/-! ## Traces -/

namespace CompiledRule

theorem exists_of_execute_eq_ok
    {c : CompiledRule} {traced : Bool} {report : Report}
    (h : c.execute traced r = .ok report) :
    ∃ f, c.expression.evaluate r [] = .ok f ∧
      report.matched = f.matched.map Condition.canonical ∧
      report.trace = if traced then f.events.map Event.text else [] := by
  unfold execute at h
  cases hf : c.expression.evaluate r [] with
  | error cause =>
      rw [hf] at h
      cases h
  | ok f =>
      rw [hf] at h
      obtain rfl := Except.ok.inj h
      exact ⟨f, rfl, rfl, rfl⟩

/-- The lines of a trace tell the events of a log that accounts for the whole
expression, and what a report lists as found true are the conditions that the log
says matched. The conditions of an expression stand at different places, to which
the paths in the trace lead. Without tracing there are no lines. -/
theorem trace_accounts_for_conditions (c : CompiledRule) (r : Record) :
    (∀ report, c.execute true r = .ok report →
      ∃ f, c.expression.evaluate r [] = .ok f ∧ f.AccountsFor r c.expression ∧
        report.trace = f.events.map Event.text ∧
        report.matched =
          (f.events.filterMap Event.match?).map Condition.canonical) ∧
    (∀ report, c.execute false r = .ok report → report.trace = []) ∧
    c.expression.places.map Prod.snd = c.expression.conditions ∧
    (c.expression.places.map Prod.fst).Pairwise (· < ·) ∧
    (∀ place d, (place, d) ∈ c.expression.places ↔
      c.expression.at? place = some (.condition d)) ∧
    Function.Injective TermPath.text := by
  refine ⟨?_, ?_, c.expression.map_snd_places,
    (Term.group c.expression).increasing_places,
    c.expression.mem_places_iff_at?, TermPath.text_injective⟩
  · intro report hreport
    obtain ⟨f, hf, hmatched, htrace⟩ := exists_of_execute_eq_ok hreport
    exact ⟨f, hf, Expression.accountsFor_of_evaluate hf, htrace, hmatched⟩
  · intro report hreport
    obtain ⟨f, -, -, htrace⟩ := exists_of_execute_eq_ok hreport
    exact htrace

theorem trace_accounts_for_conditions_of_nested_groups :
    let a : Condition := ⟨"a", .equal, .boolean true⟩
    let b : Condition := ⟨"b", .equal, .boolean true⟩
    let inner : Expression := .chain .and
      (.cons (.condition a) (.pair (.condition b) (.condition a)))
    let e : Expression := .chain .or
      (.cons (.group inner) (.pair (.condition b) (.group inner)))
    let r := Record.ofList [("a", .boolean false), ("b", .boolean true)]
    let c : CompiledRule :=
      ⟨⟨"x", "first", "", "", ⟨0, 0⟩, ⟨0, 0⟩, []⟩, e, e.fields, 1⟩
    ∃ (report : Report) (f : Findings), c.execute true r = .ok report ∧
      f.AccountsFor r e ∧ f.places = [[0, 0], [1]] ∧ f.skips = [[0, 1], [0, 2], [2]] ∧
      report.matched = ["b = true"] ∧
      report.trace =
        ["root: 开始评估 OR 组 (共 3 项)",
          "root.terms[0]: 开始评估 AND 组 (共 3 项)",
          "root.terms[0].terms[0]: a = true => NOT_MATCHED",
          "root.terms[0]: AND 短路 - 第 0 项不匹配, 跳过剩余 2 项",
          "root.terms[1]: b = true => MATCHED",
          "root: OR 短路 - 第 1 项匹配, 跳过剩余 1 项"] := by
  intro a b inner e r c
  obtain ⟨haccounts, -⟩ := trace_accounts_for_conditions c r
  let events : List Event :=
    [.opened [] .or 3, .opened [0] .and 3, .compared [0, 0] a false,
      .settled [0] .and 0 2, .compared [1] b true, .settled [] .or 1 1]
  have hevaluate : e.evaluate r [] = .ok ⟨true, events⟩ := by decide
  obtain ⟨report, hreport⟩ : ∃ report, c.execute true r = .ok report :=
    ⟨_, by rw [execute, show c.expression.evaluate r [] = _ from hevaluate]; rfl⟩
  obtain ⟨f, hf, haccount, htrace, hmatched⟩ := haccounts report hreport
  obtain rfl := Except.ok.inj (hevaluate.symm.trans hf)
  refine ⟨report, _, hreport, haccount, rfl, rfl, ?_, ?_⟩
  · rw [hmatched]
    decide
  · rw [htrace]
    decide

end CompiledRule

end Rulebook
