/-!
# Tables

A table assigns values to finitely many names. Its entries are kept in the order
of their names, so two tables with the same values for all names are the same
table, and to go through a table is to go through its names in order.

Names are ordered by their characters, which is also the order of the bytes of
their UTF-8 encodings.
-/

namespace Rulebook

/-- A finite assignment of values to names. -/
structure Table (α : Type) where
  entries : List (String × α)
  sorted : entries.Pairwise fun a b => a.1 < b.1

namespace Table

variable {α β : Type}

/-- The value of a name in a list of entries. -/
def find? (name : String) : List (String × α) → Option α
  | [] => none
  | (key, value) :: rest =>
    if key = name then some value else find? name rest

/-- A list of entries, sorted by their names, with a value put under a name. -/
def put (name : String) (value : α) :
    List (String × α) → List (String × α)
  | [] => [(name, value)]
  | (key, old) :: rest =>
    if name < key then (name, value) :: (key, old) :: rest
    else if name = key then (name, value) :: rest
    else (key, old) :: put name value rest

theorem find?_put (name other : String) (value : α)
    (entries : List (String × α)) :
    find? other (put name value entries) =
      if name = other then some value else find? other entries := by
  induction entries with
  | nil => simp [put, find?]
  | cons entry rest ih =>
    obtain ⟨key, old⟩ := entry
    by_cases hlt : name < key
    · simp [put, find?, hlt]
    · by_cases heq : name = key
      · subst heq
        simp only [put, hlt, if_false, if_true, find?]
        split <;> rfl
      · by_cases hother : name = other
        · subst hother
          simp [put, find?, hlt, heq, Ne.symm heq, ih]
        · simp [put, find?, hlt, heq, ih, hother]

theorem mem_put {name : String} {value : α} {entries : List (String × α)}
    {entry : String × α} (h : entry ∈ put name value entries) :
    entry = (name, value) ∨ entry ∈ entries := by
  induction entries with
  | nil => exact .inl (by simpa [put] using h)
  | cons first rest ih =>
    obtain ⟨key, old⟩ := first
    unfold put at h
    split at h
    · simpa using h
    · split at h
      · rcases List.mem_cons.mp h with h | h
        · exact .inl h
        · exact .inr (List.mem_cons_of_mem _ h)
      · rcases List.mem_cons.mp h with h | h
        · exact .inr (h ▸ List.mem_cons_self)
        · exact (ih h).imp_right (List.mem_cons_of_mem _)

theorem pairwise_put {name : String} {value : α}
    {entries : List (String × α)}
    (h : entries.Pairwise fun a b => a.1 < b.1) :
    (put name value entries).Pairwise fun a b => a.1 < b.1 := by
  induction entries with
  | nil => simp [put]
  | cons first rest ih =>
    obtain ⟨key, old⟩ := first
    have ⟨hfirst, hrest⟩ := List.pairwise_cons.mp h
    unfold put
    split
    · next hlt =>
      refine List.pairwise_cons.mpr ⟨fun entry hentry => ?_, h⟩
      rcases List.mem_cons.mp hentry with rfl | hentry
      · exact hlt
      · exact String.lt_trans hlt (hfirst entry hentry)
    · next hlt =>
      split
      · next heq =>
        subst heq
        exact List.pairwise_cons.mpr ⟨hfirst, hrest⟩
      · next hne =>
        refine List.pairwise_cons.mpr ⟨fun entry hentry => ?_, ih hrest⟩
        rcases mem_put hentry with rfl | hentry
        · refine String.not_le.mp fun hle => ?_
          exact hne (String.le_antisymm hle (String.not_lt.mp hlt))
        · exact hfirst entry hentry

theorem find?_eq_none {name : String} {entries : List (String × α)}
    (h : ∀ entry ∈ entries, name < entry.1) : find? name entries = none := by
  induction entries with
  | nil => rfl
  | cons first rest ih =>
    obtain ⟨key, value⟩ := first
    have hkey : key ≠ name := by
      rintro rfl
      exact String.lt_irrefl _ (h _ List.mem_cons_self)
    simp only [find?, hkey, if_false]
    exact ih fun entry hentry => h entry (List.mem_cons_of_mem _ hentry)

/-- The values of the names determine a sorted list of entries. -/
theorem eq_of_find? {xs ys : List (String × α)}
    (hxs : xs.Pairwise fun a b => a.1 < b.1)
    (hys : ys.Pairwise fun a b => a.1 < b.1)
    (h : ∀ name, find? name xs = find? name ys) : xs = ys := by
  induction xs generalizing ys with
  | nil =>
    cases ys with
    | nil => rfl
    | cons y ys => simpa [find?] using h y.1
  | cons x xs ih =>
    cases ys with
    | nil => simpa [find?] using h x.1
    | cons y ys =>
      obtain ⟨k, v⟩ := x
      obtain ⟨l, w⟩ := y
      have ⟨hk, hxs⟩ := List.pairwise_cons.mp hxs
      have ⟨hl, hys'⟩ := List.pairwise_cons.mp hys
      have hnotlt : ¬k < l := fun hlt => by
        have hnone : find? k ((l, w) :: ys) = none :=
          find?_eq_none fun entry hentry => by
            rcases List.mem_cons.mp hentry with rfl | hentry
            · exact hlt
            · exact String.lt_trans hlt (hl entry hentry)
        have := h k
        rw [hnone] at this
        simp [find?] at this
      have hnotgt : ¬l < k := fun hlt => by
        have hnone : find? l ((k, v) :: xs) = none :=
          find?_eq_none fun entry hentry => by
            rcases List.mem_cons.mp hentry with rfl | hentry
            · exact hlt
            · exact String.lt_trans hlt (hk entry hentry)
        have := h l
        rw [hnone] at this
        simp [find?] at this
      have hkl : k = l :=
        String.le_antisymm (String.not_lt.mp hnotgt) (String.not_lt.mp hnotlt)
      subst hkl
      have hv : v = w := by simpa [find?] using h k
      subst hv
      congr 1
      refine ih hxs hys' fun name => ?_
      by_cases hname : k = name
      · subst hname
        rw [find?_eq_none hk, find?_eq_none hl]
      · simpa [find?, hname] using h name

/-- The table without entries. -/
def empty : Table α := ⟨[], .nil⟩

/-- The value of a name. -/
def get? (t : Table α) (name : String) : Option α := find? name t.entries

/-- The table in which a name has the given value and all others keep theirs. -/
def insert (t : Table α) (name : String) (value : α) : Table α :=
  ⟨put name value t.entries, pairwise_put t.sorted⟩

/-- The number of names that have a value. -/
def size (t : Table α) : Nat := t.entries.length

/-- Whether a name has a value. -/
def contains (t : Table α) (name : String) : Bool := (t.get? name).isSome

/-- The names that have a value, in order. -/
def names (t : Table α) : List String := t.entries.map Prod.fst

/-- The values, in the order of their names. -/
def values (t : Table α) : List α := t.entries.map Prod.snd

/-- The table of a list of entries; of two entries with one name the later one
counts. -/
def ofList (entries : List (String × α)) : Table α :=
  entries.foldl (fun t entry => t.insert entry.1 entry.2) empty

@[simp] theorem get?_empty (name : String) :
    (empty : Table α).get? name = none := rfl

@[simp] theorem get?_insert (t : Table α) (name other : String) (value : α) :
    (t.insert name value).get? other =
      if name = other then some value else t.get? other :=
  find?_put name other value t.entries

/-- Tables with the same values for all names are equal. -/
theorem eq_of_get? {t u : Table α} (h : ∀ name, t.get? name = u.get? name) :
    t = u := by
  obtain ⟨xs, hxs⟩ := t
  obtain ⟨ys, hys⟩ := u
  have := eq_of_find? hxs hys h
  subst this
  rfl

theorem ofList_append_singleton (entries : List (String × α))
    (name : String) (value : α) :
    ofList (entries ++ [(name, value)]) = (ofList entries).insert name value := by
  simp [ofList]

end Table

end Rulebook
