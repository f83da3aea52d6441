import Mathlib
import Rulebook.Table

/-!
# Entries of tables

A table has one entry for each name with a value. Going through its entries is
therefore going through a finite set of names, in whatever order.
-/

namespace Rulebook

namespace Table

variable {α : Type}

theorem find?_eq_some_iff
    {entries : List (String × α)}
    (h : entries.Pairwise fun a b => a.1 < b.1) (name : String) (value : α) :
    find? name entries = some value ↔ (name, value) ∈ entries := by
  induction entries with
  | nil => simp [find?]
  | cons entry rest ih =>
      obtain ⟨key, first⟩ := entry
      obtain ⟨hfirst, hrest⟩ := List.pairwise_cons.mp h
      by_cases hkey : key = name
      · subst hkey
        have hbehind : (key, value) ∉ rest := by
          intro hmem
          exact String.lt_irrefl key (hfirst _ hmem)
        simp [find?, hbehind, eq_comm]
      · simp [find?, hkey, Ne.symm hkey, ih hrest]

theorem get?_eq_some_iff (t : Table α) (name : String) (value : α) :
    t.get? name = some value ↔ (name, value) ∈ t.entries :=
  find?_eq_some_iff t.sorted name value

theorem mem_names_iff (t : Table α) (name : String) :
    name ∈ t.names ↔ (t.get? name).isSome = true := by
  rw [Option.isSome_iff_exists, names, List.mem_map]
  constructor
  · rintro ⟨⟨key, value⟩, hmem, rfl⟩
    exact ⟨value, (t.get?_eq_some_iff key value).mpr hmem⟩
  · rintro ⟨value, hvalue⟩
    exact ⟨(name, value), (t.get?_eq_some_iff name value).mp hvalue, rfl⟩

theorem mem_values_iff (t : Table α) (value : α) :
    value ∈ t.values ↔ ∃ name, t.get? name = some value := by
  rw [values, List.mem_map]
  constructor
  · rintro ⟨⟨name, found⟩, hmem, rfl⟩
    exact ⟨name, (t.get?_eq_some_iff name found).mpr hmem⟩
  · rintro ⟨name, hvalue⟩
    exact ⟨(name, value), (t.get?_eq_some_iff name value).mp hvalue, rfl⟩

theorem nodup_names (t : Table α) : t.names.Nodup := by
  rw [names, List.Nodup, List.pairwise_map]
  refine t.sorted.imp fun {a b} hlt heq => ?_
  rw [heq] at hlt
  exact String.lt_irrefl _ hlt

theorem card_names (t : Table α) : t.names.toFinset.card = t.size := by
  rw [List.toFinset_card_of_nodup t.nodup_names, names, List.length_map, size]

theorem size_eq_sum (t : Table α) : t.size = (t.values.map fun _ => 1).sum := by
  simp [size, values, Function.comp_def]

/-- A sum over the values of a table is a sum over its names. -/
theorem sum_values (t : Table α) (weight : α → Nat) :
    (t.values.map weight).sum =
      ∑ name ∈ t.names.toFinset, ((t.get? name).map weight).getD 0 := by
  have hweight : ∀ entry ∈ t.entries,
      weight entry.2 = ((t.get? entry.1).map weight).getD 0 := by
    rintro ⟨name, value⟩ hmem
    rw [(t.get?_eq_some_iff name value).mpr hmem]
    rfl
  rw [List.sum_toFinset _ t.nodup_names, values, names, List.map_map,
    List.map_map]
  exact congrArg List.sum (List.map_congr_left hweight)

theorem toFinset_names_insert (t : Table α) (name : String) (value : α) :
    (t.insert name value).names.toFinset =
      Insert.insert name t.names.toFinset := by
  ext other
  rw [List.mem_toFinset, mem_names_iff, get?_insert, Finset.mem_insert,
    List.mem_toFinset, mem_names_iff]
  by_cases hname : name = other
  · simp [hname]
  · simp [hname, Ne.symm hname]

/-- A value under a name adds its weight, and takes away that of the value which
it replaces. -/
theorem sum_values_insert
    (t : Table α) (name : String) (value : α) (weight : α → Nat) :
    ((t.insert name value).values.map weight).sum +
        ((t.get? name).map weight).getD 0 =
      (t.values.map weight).sum + weight value := by
  have hothers :
      ∑ other ∈ t.names.toFinset.erase name,
          (((t.insert name value).get? other).map weight).getD 0 =
        ∑ other ∈ t.names.toFinset.erase name,
          ((t.get? other).map weight).getD 0 := by
    refine Finset.sum_congr rfl fun other hother => ?_
    rw [get?_insert, if_neg (Finset.ne_of_mem_erase hother).symm]
  have hown : (((t.insert name value).get? name).map weight).getD 0 =
      weight value := by
    rw [get?_insert, if_pos rfl]
    rfl
  rw [sum_values, sum_values, toFinset_names_insert,
    ← Finset.add_sum_erase _ _ (Finset.mem_insert_self name _),
    Finset.erase_insert_eq_erase, hothers, hown]
  by_cases hmem : name ∈ t.names.toFinset
  · rw [← Finset.add_sum_erase _ _ hmem]
    omega
  · have hnone : t.get? name = none := by
      rwa [List.mem_toFinset, mem_names_iff, Option.not_isSome_iff_eq_none]
        at hmem
    rw [Finset.erase_eq_of_notMem hmem, hnone]
    simp only [Option.map_none, Option.getD_none]
    omega

theorem isSome_get?_ofList (entries : List (String × α)) (name : String) :
    ((ofList entries).get? name).isSome = true ↔
      name ∈ entries.map Prod.fst := by
  induction entries using List.reverseRecOn with
  | nil => simp [ofList]
  | append_singleton entries entry ih =>
      obtain ⟨key, value⟩ := entry
      rw [ofList_append_singleton, get?_insert]
      by_cases hkey : key = name
      · simp [hkey]
      · simp [hkey, Ne.symm hkey, ih]

/-- The value of a name in the table of a list is the one that the list gives
the name last. -/
theorem get?_ofList_eq_some_iff
    (entries : List (String × α)) (name : String) (value : α) :
    (ofList entries).get? name = some value ↔
      ∃ before after, entries = before ++ (name, value) :: after ∧
        name ∉ after.map Prod.fst := by
  induction entries using List.reverseRecOn with
  | nil => simp [ofList]
  | append_singleton entries entry ih =>
      obtain ⟨key, last⟩ := entry
      rw [ofList_append_singleton, get?_insert]
      constructor
      · intro h
        split at h
        · next hkey =>
          cases h
          exact ⟨entries, [], by rw [hkey], by simp⟩
        · next hkey =>
          obtain ⟨before, after, rfl, hafter⟩ := ih.mp h
          refine ⟨before, after ++ [(key, last)], by simp, ?_⟩
          simpa [Ne.symm hkey] using hafter
      · rintro ⟨before, after, hentries, hafter⟩
        rcases List.eq_nil_or_concat after with rfl | ⟨others, e, rfl⟩
        · obtain ⟨-, hlast⟩ := List.append_inj' hentries rfl
          cases hlast
          rw [if_pos rfl]
        · simp only [List.concat_eq_append, List.map_append, List.mem_append,
            not_or] at hafter
          rw [List.concat_eq_append, ← List.cons_append, ← List.append_assoc]
            at hentries
          obtain ⟨rfl, hlast⟩ := List.append_inj' hentries rfl
          cases hlast
          have hkey : key ≠ name := by
            simpa [eq_comm] using hafter.2
          rw [if_neg hkey]
          exact ih.mpr ⟨before, others, rfl, hafter.1⟩

/-- The entries of a table make the table. -/
theorem ofList_entries (t : Table α) : ofList t.entries = t := by
  refine eq_of_get? fun name => ?_
  refine Option.ext fun value => ?_
  rw [get?_ofList_eq_some_iff, get?_eq_some_iff]
  constructor
  · rintro ⟨before, after, hentries, -⟩
    rw [hentries]
    simp
  · intro hmem
    obtain ⟨before, after, hentries⟩ := List.append_of_mem hmem
    refine ⟨before, after, hentries, ?_⟩
    have hsorted := t.sorted
    rw [hentries, List.pairwise_append] at hsorted
    intro hafter
    obtain ⟨entry, hentry, heq⟩ := List.mem_map.mp hafter
    have hlt := (List.pairwise_cons.mp hsorted.2.1).1 entry hentry
    rw [heq] at hlt
    exact String.lt_irrefl _ hlt

/-- A table with all its values replaced. -/
def mapValues {β : Type} (t : Table α) (f : α → β) : Table β where
  entries := t.entries.map fun entry => (entry.1, f entry.2)
  sorted := List.pairwise_map.mpr t.sorted

theorem get?_mapValues
    {β : Type} (t : Table α) (f : α → β) (name : String) :
    (t.mapValues f).get? name = (t.get? name).map f := by
  refine Option.ext fun value => ?_
  rw [get?_eq_some_iff, Option.map_eq_some_iff, mapValues, List.mem_map]
  constructor
  · rintro ⟨⟨key, old⟩, hmem, heq⟩
    cases heq
    exact ⟨old, (t.get?_eq_some_iff key old).mpr hmem, rfl⟩
  · rintro ⟨old, hold, rfl⟩
    exact ⟨(name, old), (t.get?_eq_some_iff name old).mp hold, rfl⟩

theorem mem_names_ofList (entries : List (String × α)) (name : String) :
    name ∈ (ofList entries).names ↔ name ∈ entries.map Prod.fst := by
  rw [mem_names_iff, isSome_get?_ofList]

end Table

end Rulebook
