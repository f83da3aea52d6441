import Mathlib
import Rulebook.Proofs.Tables
import Rulebook.Record

/-!
# Which JSON values are records

A record is made of a flat object and of nothing else. It gives every field the
scalar that the member of its name is.
-/

namespace Rulebook

theorem Json.lookup?_append_singleton
    (members : List (String × Json)) (key name : String) (value : Json) :
    lookup? name (members ++ [(key, value)]) =
      if key = name then some value else lookup? name members := by
  unfold lookup?
  rw [List.reverse_append, List.reverse_singleton, List.singleton_append]
  by_cases hkey : key = name
  · rw [if_pos hkey, List.find?_cons_of_pos (by simpa using hkey)]
    rfl
  · rw [if_neg hkey, List.find?_cons_of_neg (by simpa using hkey)]

/-- The last member of a name in a list is the one in its table. -/
theorem Table.get?_ofList_eq_lookup?
    (members : List (String × Json)) (name : String) :
    (ofList members).get? name = Json.lookup? name members := by
  induction members using List.reverseRecOn with
  | nil => rfl
  | append_singleton members member ih =>
      obtain ⟨key, value⟩ := member
      rw [ofList_append_singleton, get?_insert, ih,
        Json.lookup?_append_singleton]

/-- An object that holds numbers, strings and truth values. Of members with one
name the last counts. -/
def Json.IsFlat (value : Json) : Prop :=
  ∃ members, value = .object members ∧
    ∀ name member, lookup? name members = some member →
      member.shape = .number ∨ member.shape = .string ∨ member.shape = .boolean

theorem Scalar.isSome_ofJson?_iff (value : Json) :
    (ofJson? value).isSome = true ↔
      value.shape = .number ∨ value.shape = .string ∨
        value.shape = .boolean := by
  cases value <;> simp [ofJson?, Json.number?, Json.shape]

namespace Record

/-- The record with one more member, which has to be a scalar. -/
def addMember (r : Record) (member : String × Json) :
    Except RecordError Record :=
  match Scalar.ofJson? member.2 with
  | some value => .ok (r.insert member.1 value)
  | none => .error (.unsupportedValue member.1 member.2.shape)

/-- Members are all added, or the first of them that is no scalar is
reported. -/
theorem foldlM_addMember_cases
    {entries : List (String × Json)}
    (hsorted : entries.Pairwise fun a b => a.1 < b.1) (r : Record) :
    (∃ u, entries.foldlM addMember r = .ok u ∧
      (∀ entry ∈ entries, (Scalar.ofJson? entry.2).isSome = true) ∧
      ∀ name, u.get? name =
        ((Table.find? name entries).bind Scalar.ofJson?).or (r.get? name)) ∨
    ∃ bad ∈ entries,
      entries.foldlM addMember r =
          .error (.unsupportedValue bad.1 bad.2.shape) ∧
        (Scalar.ofJson? bad.2).isSome = false ∧
        ∀ entry ∈ entries, (Scalar.ofJson? entry.2).isSome = false →
          bad.1 ≤ entry.1 := by
  induction entries generalizing r with
  | nil => exact .inl ⟨r, rfl, by simp, fun name => rfl⟩
  | cons entry rest ih =>
      obtain ⟨key, value⟩ := entry
      obtain ⟨hfirst, hrest⟩ := List.pairwise_cons.mp hsorted
      rw [List.foldlM_cons]
      cases hvalue : Scalar.ofJson? value with
      | none =>
          have hadd : r.addMember (key, value) =
              .error (.unsupportedValue key value.shape) := by
            rw [addMember, hvalue]
          rw [hadd]
          refine .inr ⟨_, List.mem_cons_self, rfl, by simp [hvalue], ?_⟩
          intro entry hentry _
          rcases List.mem_cons.mp hentry with rfl | hentry
          · exact le_refl key
          · exact le_of_lt (hfirst entry hentry)
      | some v =>
          have hadd : r.addMember (key, value) = .ok (r.insert key v) := by
            rw [addMember, hvalue]
          rw [hadd]
          change (∃ u, rest.foldlM addMember (r.insert key v) = .ok u ∧ _) ∨
            ∃ bad ∈ _, rest.foldlM addMember (r.insert key v) = .error _ ∧ _
          rcases ih hrest (r.insert key v) with
            ⟨u, hu, hall, hget⟩ | ⟨bad, hbad, hfails, hnone, hleast⟩
          · refine .inl ⟨u, hu, ?_, ?_⟩
            · intro entry hentry
              rcases List.mem_cons.mp hentry with rfl | hentry
              · simp [hvalue]
              · exact hall entry hentry
            · intro name
              rw [hget, get?_insert, Table.find?]
              by_cases hkey : key = name
              · subst hkey
                rw [Table.find?_eq_none hfirst, if_pos rfl, if_pos rfl]
                simp [hvalue]
              · rw [if_neg hkey, if_neg hkey]
          · refine .inr ⟨bad, List.mem_cons_of_mem _ hbad, hfails, hnone, ?_⟩
            intro entry hentry hother
            rcases List.mem_cons.mp hentry with rfl | hentry
            · simp [hvalue] at hother
            · exact hleast entry hentry hother

theorem isFlat_object_iff (members : List (String × Json)) :
    (Json.object members).IsFlat ↔
      ∀ entry ∈ (Table.ofList members).entries,
        (Scalar.ofJson? entry.2).isSome = true := by
  constructor
  · rintro ⟨_, ⟨⟩, hscalar⟩ ⟨name, member⟩ hentry
    rw [← Table.get?_eq_some_iff, Table.get?_ofList_eq_lookup?] at hentry
    exact (Scalar.isSome_ofJson?_iff member).mpr (hscalar name member hentry)
  · intro hall
    refine ⟨members, rfl, fun name member hmember => ?_⟩
    rw [← Table.get?_ofList_eq_lookup?, Table.get?_eq_some_iff] at hmember
    exact (Scalar.isSome_ofJson?_iff member).mp (hall _ hmember)

/-- A record is made of a flat object and of nothing else, and its fields are
the object's members. -/
theorem ofJson_cases (value : Json) :
    (value.IsFlat ∧ ∃ r, ofJson value = .ok r ∧
      ∀ name, r.get? name = (value.member? name).bind Scalar.ofJson?) ∨
    (¬value.IsFlat ∧ ∃ cause, ofJson value = .error cause) := by
  by_cases hobject : ∃ members, value = .object members
  · obtain ⟨members, rfl⟩ := hobject
    rw [isFlat_object_iff]
    rcases foldlM_addMember_cases (Table.ofList members).sorted empty with
      ⟨r, hr, hall, hget⟩ | ⟨bad, hbad, hfails, hnone, -⟩
    · refine .inl ⟨hall, r, hr, fun name => ?_⟩
      rw [hget, get?_empty, Option.or_none, Json.member?,
        ← Table.get?_ofList_eq_lookup?]
      rfl
    · refine .inr ⟨?_, _, hfails⟩
      intro hall
      rw [hall bad hbad] at hnone
      cases hnone
  · refine .inr ⟨?_, .notAnObject value.shape, ?_⟩
    · rintro ⟨members, hvalue, -⟩
      exact hobject ⟨members, hvalue⟩
    · cases value with
      | object members => exact absurd ⟨members, rfl⟩ hobject
      | _ => rfl

end Record

end Rulebook
