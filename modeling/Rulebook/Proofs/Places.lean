import Mathlib
import Rulebook.Evaluation

/-!
# Places in expressions

A condition stands at a place in an expression, to which a path leads: the number
of a term on the outermost level, then of one on the level in it, and so on. The
places of all conditions are different, and they come in the same order as the
conditions. As texts they are different, too.
-/

namespace Rulebook

/-! ## Paths -/

/-- What holds of all conditions, and of a group if it holds of its terms, holds
of all terms. -/
@[elab_as_elim]
theorem Term.induction
    {motive : Term → Prop} (condition : ∀ c, motive (.condition c))
    (group : ∀ e : Expression, (∀ t ∈ e.terms, motive t) → motive (.group e))
    (t : Term) : motive t := by
  refine @Term.rec motive (fun e => ∀ t ∈ e.terms, motive t)
    (fun ts => ∀ t ∈ ts.toList, motive t) condition group ?_ ?_ ?_ ?_ t
  · intro t ht u hu
    rw [List.mem_singleton.mp hu]
    exact ht
  · intro k ts hts
    exact hts
  · intro a b ha hb u hu
    rcases List.mem_pair.mp hu with rfl | rfl
    · exact ha
    · exact hb
  · intro a rest ha hrest u hu
    rcases List.mem_cons.mp hu with rfl | hu
    · exact ha
    · exact hrest u hu

/-- The term to which a path leads from another one, through groups. -/
def Term.at? : Term → TermPath → Option Term
  | t, [] => some t
  | .condition _, _ :: _ => none
  | .group e, i :: path => e.terms[i]?.bind fun t => t.at? path

/-- What a path leads to from the outermost level of an expression. -/
def Expression.at? (e : Expression) (path : TermPath) : Option Term :=
  (Term.group e).at? path

/-- A place in the term of the given number, with what stands there. -/
def inTerm {α : Type} (i : Nat) (entry : TermPath × α) : TermPath × α :=
  (i :: entry.1, entry.2)

mutual

/-- The conditions of a term with their places. -/
def Term.places : Term → List (TermPath × Condition)
  | .condition c => [([], c)]
  | .group e => e.places

/-- The conditions of an expression with their places, from left to right. -/
def Expression.places : Expression → List (TermPath × Condition)
  | .single t => t.places.map (inTerm 0)
  | .chain _ ts => ts.places 0

/-- The conditions of the last terms of a level with their places. The first one
of the terms has the given number. -/
def Terms.places (index : Nat) : Terms → List (TermPath × Condition)
  | .pair a b =>
    a.places.map (inTerm index) ++ b.places.map (inTerm (index + 1))
  | .cons a rest => a.places.map (inTerm index) ++ rest.places (index + 1)

end

/-! ## The places of all conditions -/

theorem map_snd_inTerm (i : Nat) (places : List (TermPath × Condition)) :
    (places.map (inTerm i)).map Prod.snd = places.map Prod.snd := by
  rw [List.map_map]
  rfl

theorem map_fst_inTerm (i : Nat) (places : List (TermPath × Condition)) :
    (places.map (inTerm i)).map Prod.fst = (places.map Prod.fst).map (i :: ·) := by
  rw [List.map_map, List.map_map]
  rfl

theorem Terms.map_snd_places
    {index : Nat} (ts : Terms)
    (hterms : ∀ t ∈ ts.toList, t.places.map Prod.snd = t.conditions) :
    (ts.places index).map Prod.snd = ts.conditions := by
  cases ts with
  | pair a b =>
      rw [places, conditions, List.map_append, map_snd_inTerm, map_snd_inTerm,
        hterms a List.mem_cons_self,
        hterms b (List.mem_cons_of_mem a List.mem_cons_self)]
  | cons a rest =>
      rw [places, conditions, List.map_append, map_snd_inTerm,
        hterms a List.mem_cons_self,
        rest.map_snd_places fun t ht => hterms t (List.mem_cons_of_mem a ht)]

theorem Term.map_snd_places (t : Term) :
    t.places.map Prod.snd = t.conditions := by
  induction t using Term.induction with
  | condition c => rfl
  | group e ih =>
      cases e with
      | single t =>
          exact (map_snd_inTerm 0 t.places).trans (ih t List.mem_cons_self)
      | chain k ts => exact ts.map_snd_places ih

/-- What stands at the places of an expression are its conditions. -/
theorem Expression.map_snd_places (e : Expression) :
    e.places.map Prod.snd = e.conditions :=
  (Term.group e).map_snd_places

theorem Terms.mem_places_iff
    {index : Nat} {entry : TermPath × Condition} (ts : Terms) :
    entry ∈ ts.places index ↔
      ∃ i t, ts.toList[i]? = some t ∧
        ∃ own ∈ t.places, entry = inTerm (index + i) own := by
  have in_first (a : Term) (behind : List Term) :
      entry ∈ a.places.map (inTerm index) ↔
        ∃ t, (a :: behind)[0]? = some t ∧
          ∃ own ∈ t.places, entry = inTerm (index + 0) own := by
    simp [eq_comm]
  cases ts with
  | pair a b =>
      rw [places, List.mem_append, in_first a [b]]
      constructor
      · rintro (hfirst | hsecond)
        · exact ⟨0, hfirst⟩
        · obtain ⟨own, hown, heq⟩ := List.mem_map.mp hsecond
          exact ⟨1, b, rfl, own, hown, heq.symm⟩
      · rintro ⟨i, t, hterm, own, hown, heq⟩
        match i with
        | 0 => exact .inl ⟨t, hterm, own, hown, heq⟩
        | 1 =>
            obtain rfl := Option.some.inj hterm
            exact .inr (List.mem_map.mpr ⟨own, hown, heq.symm⟩)
        | i + 2 => cases hterm
  | cons a rest =>
      rw [places, List.mem_append, in_first a rest.toList, rest.mem_places_iff]
      constructor
      · rintro (hfirst | ⟨i, t, hterm, own, hown, heq⟩)
        · exact ⟨0, hfirst⟩
        · rw [Nat.add_assoc, Nat.add_comm 1 i] at heq
          exact ⟨i + 1, t, hterm, own, hown, heq⟩
      · rintro ⟨i, t, hterm, own, hown, heq⟩
        cases i with
        | zero => exact .inl ⟨t, hterm, own, hown, heq⟩
        | succ i =>
            rw [Nat.add_comm i 1, ← Nat.add_assoc] at heq
            exact .inr ⟨i, t, hterm, own, hown, heq⟩

theorem Expression.mem_places_iff
    {entry : TermPath × Condition} (e : Expression) :
    entry ∈ e.places ↔
      ∃ i t, e.terms[i]? = some t ∧
        ∃ own ∈ t.places, entry = inTerm i own := by
  cases e with
  | single t =>
      rw [places, List.mem_map]
      constructor
      · rintro ⟨own, hown, heq⟩
        exact ⟨0, t, rfl, own, hown, heq.symm⟩
      · rintro ⟨i, u, hterm, own, hown, heq⟩
        cases i with
        | zero =>
            obtain rfl := Option.some.inj hterm
            exact ⟨own, hown, heq.symm⟩
        | succ i => cases hterm
  | chain k ts =>
      simp only [places, ts.mem_places_iff, Nat.zero_add]
      rfl

theorem Term.mem_places_iff_at? (t : Term) :
    ∀ place c, (place, c) ∈ t.places ↔ t.at? place = some (.condition c) := by
  induction t using Term.induction with
  | condition d =>
      intro place c
      rw [places, List.mem_singleton]
      cases place with
      | nil => simp [at?, eq_comm]
      | cons i path => simp [at?]
  | group e ih =>
      intro place c
      rw [places, e.mem_places_iff]
      constructor
      · rintro ⟨i, t, hterm, ⟨path, d⟩, hown, heq⟩
        obtain ⟨rfl, rfl⟩ := Prod.mk.inj heq
        rw [at?, hterm, Option.bind_some]
        exact (ih t (List.mem_of_getElem? hterm) path c).mp hown
      · intro hat
        cases place with
        | nil => cases hat
        | cons i path =>
            obtain ⟨t, hterm, hat⟩ := Option.bind_eq_some_iff.mp hat
            exact ⟨i, t, hterm, (path, c),
              (ih t (List.mem_of_getElem? hterm) path c).mpr hat, rfl⟩

/-- A condition has a place exactly if a path leads to it. -/
theorem Expression.mem_places_iff_at? (e : Expression) (place : TermPath)
    (c : Condition) :
    (place, c) ∈ e.places ↔ e.at? place = some (.condition c) :=
  (Term.group e).mem_places_iff_at? place c

theorem TermPath.pairwise_lt_map_cons
    {paths : List TermPath} (h : paths.Pairwise (· < ·)) (i : Nat) :
    (paths.map (i :: ·)).Pairwise (· < ·) := by
  rw [List.pairwise_map]
  exact h.imp fun hlt => List.cons_lt_cons_self.mpr hlt

/-- Places in a later term are later. -/
theorem TermPath.pairwise_lt_append
    {paths later : List TermPath} {index : Nat} (hpaths : paths.Pairwise (· < ·))
    (hlater : later.Pairwise (· < ·))
    (hbehind : ∀ place ∈ later, ∃ i path, place = i :: path ∧ index < i) :
    (paths.map (index :: ·) ++ later).Pairwise (· < ·) := by
  refine List.pairwise_append.mpr
    ⟨pairwise_lt_map_cons hpaths index, hlater, ?_⟩
  intro place hplace place' hplace'
  obtain ⟨path, -, rfl⟩ := List.mem_map.mp hplace
  obtain ⟨i, path', rfl, hlt⟩ := hbehind place' hplace'
  exact List.cons_lt_cons_iff.mpr (.inl hlt)

theorem Terms.increasing_places
    {index : Nat} (ts : Terms)
    (hterms : ∀ t ∈ ts.toList, (t.places.map Prod.fst).Pairwise (· < ·)) :
    ((ts.places index).map Prod.fst).Pairwise (· < ·) := by
  cases ts with
  | pair a b =>
      rw [places, List.map_append, map_fst_inTerm, map_fst_inTerm]
      refine TermPath.pairwise_lt_append (hterms a List.mem_cons_self)
        (TermPath.pairwise_lt_map_cons
          (hterms b (List.mem_cons_of_mem a List.mem_cons_self)) _) ?_
      intro place hplace
      obtain ⟨path, -, rfl⟩ := List.mem_map.mp hplace
      exact ⟨_, path, rfl, Nat.lt_succ_self index⟩
  | cons a rest =>
      rw [places, List.map_append, map_fst_inTerm]
      refine TermPath.pairwise_lt_append (hterms a List.mem_cons_self)
        (rest.increasing_places fun t ht => hterms t (List.mem_cons_of_mem a ht)) ?_
      intro place hplace
      obtain ⟨entry, hentry, rfl⟩ := List.mem_map.mp hplace
      obtain ⟨i, t, -, own, -, rfl⟩ := rest.mem_places_iff.mp hentry
      exact ⟨_, own.1, rfl, by omega⟩

theorem Term.increasing_places (t : Term) :
    (t.places.map Prod.fst).Pairwise (· < ·) := by
  induction t using Term.induction with
  | condition c => exact List.pairwise_singleton _ _
  | group e ih =>
      rw [places]
      cases e with
      | single t =>
          rw [Expression.places, map_fst_inTerm]
          exact TermPath.pairwise_lt_map_cons (ih t List.mem_cons_self) 0
      | chain k ts => exact ts.increasing_places ih

/-! ## Places in words -/

theorem TermPath.toList_text (path : TermPath) :
    path.text.toList = "root".toList ++ path.flatMap fun i =>
      ".terms[".toList ++ Nat.toDigits 10 i ++ [']'] := by
  have htext (text : String) :
      (path.foldl (fun text i => s!"{text}.terms[{i}]") text).toList =
        text.toList ++ path.flatMap fun i =>
          ".terms[".toList ++ Nat.toDigits 10 i ++ [']'] := by
    induction path generalizing text with
    | nil => simp
    | cons i path ih =>
        rw [List.foldl_cons, ih, List.flatMap_cons, ← List.append_assoc]
        simp [toString]
  exact htext "root"

/-- What a number in brackets begins with can be told. -/
theorem TermPath.number_inj
    {i j : Nat} {rest rest' : List Char}
    (h : Nat.toDigits 10 i ++ ']' :: rest = Nat.toDigits 10 j ++ ']' :: rest') :
    i = j ∧ rest = rest' := by
  have hdigits (n : Nat) (rest : List Char) :
      (Nat.toDigits 10 n ++ ']' :: rest).takeWhile Char.isDigit =
        Nat.toDigits 10 n := by
    rw [List.takeWhile_append_of_pos fun c hc =>
      Nat.isDigit_of_mem_toDigits (by decide) (by decide) hc]
    simp
  have heq : Nat.toDigits 10 i = Nat.toDigits 10 j := by
    rw [← hdigits i rest, h, hdigits]
  rw [heq, List.append_cancel_left_eq] at h
  refine ⟨?_, (List.cons.inj h).2⟩
  rw [← @Nat.ofDigitChars_ten_toDigits i, heq, Nat.ofDigitChars_ten_toDigits]

/-- Different places have different texts. -/
theorem TermPath.text_injective : Function.Injective TermPath.text := by
  intro path path' h
  have hlist := congrArg String.toList h
  rw [toList_text, toList_text, List.append_cancel_left_eq] at hlist
  clear h
  induction path generalizing path' with
  | nil =>
      cases path' with
      | nil => rfl
      | cons j path' => simp at hlist
  | cons i path ih =>
      cases path' with
      | nil => simp at hlist
      | cons j path' =>
          simp only [List.flatMap_cons, List.append_assoc,
            List.append_cancel_left_eq, List.singleton_append] at hlist
          obtain ⟨rfl, hrest⟩ := number_inj hlist
          rw [ih hrest]

end Rulebook
