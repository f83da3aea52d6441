import Mathlib
import Rulebook.Proofs.Visits

/-!
# Walks through a level

When a level is evaluated, its terms are walked through, from the first one to
the last one that is evaluated. What happens in a term is the same as if the term
were evaluated on its own, only that its places are in the term. So the log of an
expression is built from the logs of its terms.
-/

namespace Rulebook

variable {r : Record}

/-! ## What events tell -/

namespace Event

/-- Where something happens: at a condition, or on a level. -/
def path : Event → TermPath
  | .opened level _ _ => level
  | .compared place _ _ => place
  | .settled level _ _ _ => level

/-- The place of the condition that is compared. -/
def place? : Event → Option TermPath
  | .compared place _ _ => some place
  | _ => none

/-- The places of the terms that are skipped when a level is settled. -/
def skips : Event → List TermPath
  | .settled level _ index skipped =>
    (List.range' (index + 1) skipped).map fun i => level ++ [i]
  | _ => []

/-- The same event in the term to which a path leads. -/
def within (path : TermPath) : Event → Event
  | .opened level k count => .opened (path ++ level) k count
  | .compared place c holds => .compared (path ++ place) c holds
  | .settled level k index skipped => .settled (path ++ level) k index skipped

theorem path_within (path : TermPath) (event : Event) :
    (event.within path).path = path ++ event.path := by
  cases event <;> rfl

theorem place?_within (path : TermPath) (event : Event) :
    (event.within path).place? = event.place?.map (path ++ ·) := by
  cases event <;> rfl

theorem skips_within (path : TermPath) (event : Event) :
    (event.within path).skips = event.skips.map (path ++ ·) := by
  cases event <;> simp [within, skips]

/-- The events in the part of an expression to which a path leads. -/
def inside (path : TermPath) (events : List Event) : List Event :=
  events.filter fun event => path.isPrefixOf event.path

end Event

namespace Findings

/-- The same findings in the term to which a path leads. -/
def within (path : TermPath) (f : Findings) : Findings :=
  { f with events := f.events.map (Event.within path) }

/-- The places of the conditions that were compared, in the order of the log. -/
def places (f : Findings) : List TermPath := f.events.filterMap Event.place?

/-- The places of the terms that were skipped. -/
def skips (f : Findings) : List TermPath := f.events.flatMap Event.skips

end Findings

/-- The connector under which the terms of a level are evaluated; a single term
makes a conjunction. -/
def Expression.connector (e : Expression) : Connector := e.connector?.getD .and

namespace Expression

/-- The event at the start of a level with more than one term. -/
def opening (e : Expression) (level : TermPath) : List Event :=
  if 1 < e.terms.length then [.opened level e.connector e.terms.length] else []

end Expression

/-! ## Evaluating a term on its own -/

theorem Condition.evaluate_within (path place : TermPath) (c : Condition) :
    c.evaluate r (path ++ place) =
      (c.evaluate r place).map (Findings.within path) := by
  unfold evaluate
  cases r.get? c.field with
  | none => rfl
  | some value =>
      dsimp only
      cases c.operator.holds value c.value with
      | error cause => rfl
      | ok holds => rfl

theorem Findings.proceed_within
    {first first' : Except EvaluationError Findings}
    {next next' : Unit → Except EvaluationError Findings} {path : TermPath}
    (hfirst : first' = first.map (within path))
    (hnext : next' () = (next ()).map (within path))
    (k : Connector) (level : TermPath) (index skipped : Nat) :
    (first' >>= fun f =>
      f.proceed k (.settled (path ++ level) k index skipped) next') =
      (first >>= fun f =>
        f.proceed k (.settled level k index skipped) next).map
          (within path) := by
  rw [hfirst]
  cases first with
  | error cause => rfl
  | ok f =>
      change (f.within path).proceed k _ next' =
        (f.proceed k _ next).map (within path)
      unfold proceed
      by_cases hsettles : f.holds = k.settledBy
      · have hsettles' : (f.within path).holds = k.settledBy := hsettles
        rw [if_pos hsettles', if_pos hsettles]
        simp [within, Except.map, Event.within]
      · have hgoes : ¬(f.within path).holds = k.settledBy := hsettles
        rw [if_neg hgoes, if_neg hsettles, hnext]
        cases next () with
        | error cause => rfl
        | ok rest => simp [within, Except.map, after]

mutual

theorem Term.evaluate_within (path place : TermPath) :
    (t : Term) → t.evaluate r (path ++ place) =
      (t.evaluate r place).map (Findings.within path)
  | .condition c => c.evaluate_within path place
  | .group e => e.evaluate_within path place

/-- In a term of some level, the same happens as if the term stood alone. -/
theorem Expression.evaluate_within (path place : TermPath) :
    (e : Expression) → e.evaluate r (path ++ place) =
      (e.evaluate r place).map (Findings.within path)
  | .single t => by
      rw [Expression.evaluate, Expression.evaluate, List.append_assoc]
      exact t.evaluate_within path (place ++ [0])
  | .chain k ts => by
      rw [Expression.evaluate, Expression.evaluate,
        ts.evaluate_within path place k 0]
      cases ts.evaluate r place k 0 with
      | error cause => rfl
      | ok f => rfl

theorem Terms.evaluate_within (path level : TermPath) (k : Connector)
    (index : Nat) :
    (ts : Terms) → ts.evaluate r (path ++ level) k index =
      (ts.evaluate r level k index).map (Findings.within path)
  | .pair a b => by
      rw [Terms.evaluate, Terms.evaluate, List.append_assoc, List.append_assoc]
      exact Findings.proceed_within (a.evaluate_within path (level ++ [index]))
        (b.evaluate_within path (level ++ [index + 1])) k level index 1
  | .cons a rest => by
      rw [Terms.evaluate, Terms.evaluate, List.append_assoc]
      exact Findings.proceed_within (a.evaluate_within path (level ++ [index]))
        (rest.evaluate_within path level k (index + 1)) k level index rest.size

end

theorem Term.exists_of_evaluate_eq_ok
    {t : Term} {i : Nat} {f : Findings} (h : t.evaluate r [i] = .ok f) :
    ∃ g, t.evaluate r [] = .ok g ∧ f.holds = g.holds ∧
      f.events = g.events.map (Event.within [i]) := by
  have hwithin := t.evaluate_within (r := r) [i] []
  rw [List.append_nil, h] at hwithin
  cases hg : t.evaluate r [] with
  | error cause =>
      rw [hg] at hwithin
      cases hwithin
  | ok g =>
      rw [hg] at hwithin
      obtain rfl := Except.ok.inj hwithin
      exact ⟨g, rfl, rfl, rfl⟩

theorem Condition.exists_of_evaluate_eq_ok
    {c : Condition} {place : TermPath} {f : Findings}
    (h : c.evaluate r place = .ok f) :
    ∃ holds, c.outcome r = .ok holds ∧ f = ⟨holds, [.compared place c holds]⟩ := by
  unfold evaluate at h
  unfold outcome
  cases hvalue : r.get? c.field with
  | none =>
      rw [hvalue] at h
      cases h
  | some value =>
      rw [hvalue] at h
      dsimp only at h ⊢
      cases hholds : c.operator.holds value c.value with
      | error cause =>
          rw [hholds] at h
          cases h
      | ok holds =>
          rw [hholds] at h
          exact ⟨holds, rfl, (Except.ok.inj h).symm⟩

/-! ## Walks through a level -/

/-- A walk through the last terms of a level, with the events on it. The first
one of these terms has the given number. The walk ends at the last term, or at
one that settles the level. -/
inductive Walk (r : Record) (k : Connector) :
    Nat → List Term → List Event → Prop where
  | last {index : Nat} {t : Term} {f : Findings}
      (hterm : t.evaluate r [] = .ok f) :
      Walk r k index [t] (f.events.map (Event.within [index]))
  | settled {index : Nat} {t : Term} {rest : List Term} {f : Findings}
      (hterm : t.evaluate r [] = .ok f) (hsettles : f.holds = k.settledBy)
      (hrest : rest ≠ []) :
      Walk r k index (t :: rest)
        (f.events.map (Event.within [index]) ++
          [.settled [] k index rest.length])
  | passed {index : Nat} {t : Term} {rest : List Term} {f : Findings}
      {events : List Event} (hterm : t.evaluate r [] = .ok f)
      (hgoes : f.holds ≠ k.settledBy)
      (hrest : Walk r k (index + 1) rest events) :
      Walk r k index (t :: rest)
        (f.events.map (Event.within [index]) ++ events)

theorem Findings.exists_of_proceed
    {first : Except EvaluationError Findings}
    {next : Unit → Except EvaluationError Findings} {k : Connector}
    {settled : Event} {g : Findings}
    (h : (first >>= fun f => f.proceed k settled next) = .ok g) :
    ∃ f, first = .ok f ∧
      (f.holds = k.settledBy ∧ g.events = f.events ++ [settled] ∨
        f.holds ≠ k.settledBy ∧ ∃ rest, next () = .ok rest ∧
          g.events = f.events ++ rest.events) := by
  cases first with
  | error cause => cases h
  | ok f =>
      refine ⟨f, rfl, ?_⟩
      change f.proceed k settled next = _ at h
      unfold proceed at h
      by_cases hsettles : f.holds = k.settledBy
      · rw [if_pos hsettles] at h
        obtain rfl := Except.ok.inj h
        exact .inl ⟨hsettles, rfl⟩
      · rw [if_neg hsettles] at h
        cases hrest : next () with
        | error cause =>
            rw [hrest] at h
            cases h
        | ok rest =>
            rw [hrest] at h
            obtain rfl := Except.ok.inj h
            exact .inr ⟨hsettles, rest, rfl, rfl⟩

theorem Terms.walk_of_evaluate
    (ts : Terms) {k : Connector} {index : Nat} {f : Findings}
    (h : ts.evaluate r [] k index = .ok f) :
    Walk r k index ts.toList f.events := by
  cases ts with
  | pair a b =>
      rw [evaluate] at h
      obtain ⟨first, hfirst, hcases⟩ := Findings.exists_of_proceed h
      obtain ⟨g, hg, hholds, hevents⟩ := Term.exists_of_evaluate_eq_ok hfirst
      rw [hholds, hevents] at hcases
      rcases hcases with ⟨hsettles, heq⟩ | ⟨hgoes, rest, hrest, heq⟩
      · rw [heq]
        exact .settled hg hsettles (List.cons_ne_nil b [])
      · obtain ⟨g', hg', -, hevents'⟩ := Term.exists_of_evaluate_eq_ok hrest
        rw [heq, hevents']
        exact .passed hg hgoes (.last hg')
  | cons a rest =>
      rw [evaluate] at h
      obtain ⟨first, hfirst, hcases⟩ := Findings.exists_of_proceed h
      obtain ⟨g, hg, hholds, hevents⟩ := Term.exists_of_evaluate_eq_ok hfirst
      rw [hholds, hevents] at hcases
      rcases hcases with ⟨hsettles, heq⟩ | ⟨hgoes, behind, hbehind, heq⟩
      · have hsize := rest.two_le_size
        have hne : rest.toList ≠ [] := by
          intro hnil
          rw [size, hnil] at hsize
          exact absurd hsize (by decide)
        rw [heq]
        exact .settled hg hsettles hne
      · rw [heq]
        exact .passed hg hgoes (rest.walk_of_evaluate hbehind)

/-- What happens when an expression is evaluated: its level is opened, and then
walked through. -/
theorem Expression.exists_walk
    {e : Expression} {f : Findings} (h : e.evaluate r [] = .ok f) :
    ∃ events, f.events = e.opening [] ++ events ∧
      Walk r e.connector 0 e.terms events := by
  cases e with
  | single t =>
      obtain ⟨g, hg, -, hevents⟩ := Term.exists_of_evaluate_eq_ok h
      exact ⟨_, hevents, .last hg⟩
  | chain k ts =>
      rw [evaluate] at h
      cases hts : ts.evaluate r [] k 0 with
      | error cause =>
          rw [hts] at h
          cases h
      | ok g =>
          rw [hts] at h
          obtain rfl := Except.ok.inj h
          refine ⟨g.events, ?_, ts.walk_of_evaluate hts⟩
          have hsize : 1 < (chain k ts).terms.length := ts.two_le_size
          rw [opening, if_pos hsize]
          rfl

/-- Every event on a walk is in one of the terms that are walked through, and
there it is an event of that term's own log, or it tells that the level is
settled. -/
theorem Walk.exists_of_mem
    {k : Connector} {index : Nat} {ts : List Term} {events : List Event}
    (h : Walk r k index ts events) {event : Event} (hevent : event ∈ events) :
    (∃ i t f, ts[i]? = some t ∧
        (∀ v ∈ ts.take i, k.passes (v.outcome r) = true) ∧
        t.evaluate r [] = .ok f ∧
        ∃ inner ∈ f.events, event = inner.within [index + i]) ∨
      ∃ i skipped, event = .settled [] k i skipped := by
  have in_first {index : Nat} {t : Term} {rest : List Term} {f : Findings}
      (hterm : t.evaluate r [] = .ok f)
      (hfirst : event ∈ f.events.map (Event.within [index])) :
      ∃ i u g, (t :: rest)[i]? = some u ∧
        (∀ v ∈ (t :: rest).take i, k.passes (v.outcome r) = true) ∧
        u.evaluate r [] = .ok g ∧
        ∃ inner ∈ g.events, event = inner.within [index + i] := by
    obtain ⟨inner, hinner, heq⟩ := List.mem_map.mp hfirst
    refine ⟨0, t, f, rfl, ?_, hterm, inner, hinner, heq.symm⟩
    intro v hv
    exact absurd hv (List.not_mem_nil)
  induction h with
  | last hterm => exact .inl (in_first hterm hevent)
  | settled hterm hsettles hrest =>
      rcases List.mem_append.mp hevent with hfirst | hend
      · exact .inl (in_first hterm hfirst)
      · exact .inr ⟨_, _, List.mem_singleton.mp hend⟩
  | @passed index t rest f events hterm hgoes hrest ih =>
      rcases List.mem_append.mp hevent with hfirst | hbehind
      · exact .inl (in_first hterm hfirst)
      · rcases ih hbehind with ⟨i, u, g, hu, hpasses, hg, inner, hinner, heq⟩ | hend
        · refine .inl ⟨i + 1, u, g, hu, ?_, hg, inner, hinner, ?_⟩
          · intro v hv
            rcases List.mem_cons.mp hv with rfl | hv
            · rw [v.outcome_of_evaluate hterm]
              simpa [Connector.passes] using hgoes
            · exact hpasses v hv
          · rw [heq, Nat.add_assoc, Nat.add_comm 1 i]
        · exact .inr hend

theorem Expression.exists_of_mem_events
    {e : Expression} {f : Findings} (h : e.evaluate r [] = .ok f) {event : Event}
    (hevent : event ∈ f.events) :
    (∃ i t g, e.terms[i]? = some t ∧
        (∀ v ∈ e.terms.take i, e.connector.passes (v.outcome r) = true) ∧
        t.evaluate r [] = .ok g ∧
        ∃ inner ∈ g.events, event = inner.within [i]) ∨
      event.path = [] ∧ event.place? = none := by
  obtain ⟨events, hevents, hwalk⟩ := e.exists_walk h
  rw [hevents] at hevent
  rcases List.mem_append.mp hevent with hopening | hin
  · unfold opening at hopening
    split at hopening
    · rw [List.mem_singleton.mp hopening]
      exact .inr ⟨rfl, rfl⟩
    · exact absurd hopening List.not_mem_nil
  · rcases hwalk.exists_of_mem hin with ⟨i, t, g, hterm⟩ | ⟨i, skipped, rfl⟩
    · rw [Nat.zero_add] at hterm
      exact .inl ⟨i, t, g, hterm⟩
    · exact .inr ⟨rfl, rfl⟩

end Rulebook
