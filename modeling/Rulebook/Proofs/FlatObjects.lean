import Mathlib
import Rulebook.Proofs.ByteOrder
import Rulebook.Proofs.Records

/-!
# Flat objects and records

A JSON value becomes a record all at once or not at all. What is no object is
reported as such. In an object the members that are no scalars are looked for in
the order of the bytes of their names, and the first one is reported; if there
is none, the record has the fields of the object and nothing else.

A record is written as a flat object, unless it has a number that JSON has not.
Such a number is written as null, so reading the record back reports the first
field with one, and every other record is read back as it was.
-/

namespace Rulebook

/-! ## Members of an object -/

/-- The types of values that no field of a record has. -/
def Json.Shape.IsUnsupported (s : Shape) : Prop :=
  s = .null ∨ s = .array ∨ s = .object

/-- The scalar that a number, a string or a truth value stands for; a whole
number stands for the nearest double. -/
inductive Json.StandsFor : Json → Scalar → Prop where
  | integer (i : Int) : StandsFor (.integer i) (.number (.ofInt i))
  | double (x : Binary64) : StandsFor (.double x) (.number x)
  | string (s : String) : StandsFor (.string s) (.string s)
  | boolean (b : Bool) : StandsFor (.boolean b) (.boolean b)

/-- The first name, in the order of bytes, whose member is of a type that no
field has. -/
structure Json.IsFirstUnsupported (members : List (String × Json))
    (field : String) (found : Shape) : Prop where
  exists_member : ∃ member, lookup? field members = some member ∧
    member.shape = found
  isUnsupported : found.IsUnsupported
  not_before : ∀ other member, lookup? other members = some member →
    member.shape.IsUnsupported → ¬Text.bytes other < Text.bytes field

/-- Why a value is no record: it is no object, or the first of its members that
no field can have is of some type. -/
inductive Json.IsRefusedFor : Json → RecordError → Prop where
  | notAnObject {value : Json} (h : value.shape ≠ .object) :
      IsRefusedFor value (.notAnObject value.shape)
  | unsupportedValue {members : List (String × Json)} {field : String}
      {found : Shape} (h : IsFirstUnsupported members field found) :
      IsRefusedFor (.object members) (.unsupportedValue field found)

/-- The first field, in the order of bytes, with a number that JSON has not. -/
structure Record.IsFirstNonFinite (r : Record) (field : String) : Prop where
  exists_number : ∃ x, r.get? field = some (.number x) ∧ x.isFinite = false
  not_before : ∀ other x, r.get? other = some (.number x) →
    x.isFinite = false → ¬Text.bytes other < Text.bytes field

theorem Scalar.ofJson?_eq_some_iff {value : Json} {v : Scalar} :
    ofJson? value = some v ↔ value.StandsFor v := by
  constructor
  · intro h
    cases value with
    | boolean b =>
        cases h
        exact .boolean b
    | integer i =>
        cases h
        exact .integer i
    | double x =>
        cases h
        exact .double x
    | string s =>
        cases h
        exact .string s
    | null => cases h
    | array items => cases h
    | object members => cases h
  · rintro (_ | _ | _ | _) <;> rfl

theorem Scalar.ofJson?_eq_none_iff {value : Json} :
    ofJson? value = none ↔ value.shape.IsUnsupported := by
  cases value <;> simp [ofJson?, Json.number?, Json.shape,
    Json.Shape.IsUnsupported]

theorem Json.IsFirstUnsupported.unique
    {members : List (String × Json)} {field other : String}
    {found found' : Shape} (h : IsFirstUnsupported members field found)
    (h' : IsFirstUnsupported members other found') :
    field = other ∧ found = found' := by
  obtain ⟨member, hmember, rfl⟩ := h.exists_member
  obtain ⟨member', hmember', rfl⟩ := h'.exists_member
  have hle := h'.not_before field member hmember h.isUnsupported
  have hge := h.not_before other member' hmember' h'.isUnsupported
  rw [Text.bytes_lt_bytes_iff] at hle hge
  obtain rfl : field = other := le_antisymm (not_lt.mp hge) (not_lt.mp hle)
  rw [hmember] at hmember'
  cases hmember'
  exact ⟨rfl, rfl⟩

namespace Record

theorem ext_get? {r s : Record} (h : ∀ name, r.get? name = s.get? name) :
    r = s := by
  cases r
  cases s
  exact congrArg mk (Table.eq_of_get? h)

/-! ## Reading -/

/-- The members of a table make a record, or the first one that is no scalar is
reported. -/
theorem ofMembers_cases (members : Table Json) :
    (∃ r, ofMembers members = .ok r ∧
      ∀ name, Option.Rel Json.StandsFor (members.get? name) (r.get? name)) ∨
    ∃ name member, members.get? name = some member ∧
      ofMembers members = .error (.unsupportedValue name member.shape) ∧
      member.shape.IsUnsupported ∧
      ∀ other value, members.get? other = some value →
        value.shape.IsUnsupported → ¬Text.bytes other < Text.bytes name := by
  rcases foldlM_addMember_cases members.sorted empty with
    ⟨r, hr, hall, hget⟩ | ⟨⟨name, member⟩, hmem, hfails, hnone, hleast⟩
  · refine .inl ⟨r, hr, fun name => ?_⟩
    rw [hget, get?_empty, Option.or_none]
    change Option.Rel _ (members.get? name)
      ((members.get? name).bind Scalar.ofJson?)
    cases hmember : members.get? name with
    | none => exact .none
    | some member =>
        obtain ⟨v, hv⟩ := Option.isSome_iff_exists.mp
          (hall _ ((members.get?_eq_some_iff name member).mp hmember))
        rw [Option.bind_some, hv]
        exact .some (Scalar.ofJson?_eq_some_iff.mp hv)
  · refine .inr ⟨name, member, (members.get?_eq_some_iff name member).mpr hmem,
      hfails, ?_, ?_⟩
    · rwa [← Scalar.ofJson?_eq_none_iff, ← Option.not_isSome_iff_eq_none,
        Bool.not_eq_true]
    · intro other value hvalue hunsupported
      rw [Text.bytes_lt_bytes_iff, not_lt]
      refine hleast (other, value)
        ((members.get?_eq_some_iff other value).mp hvalue) ?_
      rw [Scalar.ofJson?_eq_none_iff.mpr hunsupported]
      rfl

theorem ofJson_object_cases (members : List (String × Json)) :
    (∃ r, ofJson (.object members) = .ok r ∧
      ∀ name, Option.Rel Json.StandsFor (Json.lookup? name members)
        (r.get? name)) ∨
    ∃ field found,
      ofJson (.object members) = .error (.unsupportedValue field found) ∧
        Json.IsFirstUnsupported members field found := by
  rcases ofMembers_cases (.ofList members) with
    ⟨r, hr, hrel⟩ | ⟨name, member, hmember, hfails, hunsupported, hleast⟩
  · refine .inl ⟨r, hr, fun name => ?_⟩
    rw [← Table.get?_ofList_eq_lookup?]
    exact hrel name
  · simp only [Table.get?_ofList_eq_lookup?] at hmember hleast
    exact .inr ⟨name, member.shape, hfails, ⟨member, hmember, rfl⟩,
      hunsupported, hleast⟩

theorem ofJson_eq_notAnObject_iff (value : Json) (found : Json.Shape) :
    ofJson value = .error (.notAnObject found) ↔
      value.shape = found ∧ found ≠ .object := by
  cases value with
  | object members =>
      have hshape : ¬((Json.object members).shape = found ∧ found ≠ .object) := by
        rintro ⟨rfl, hne⟩
        exact hne rfl
      refine iff_of_false ?_ hshape
      rcases ofJson_object_cases members with ⟨r, hr, -⟩ | ⟨_, _, hfails, -⟩
      · rw [hr]
        simp
      · rw [hfails]
        simp
  | _ =>
      simp only [ofJson, Json.shape, Except.error.injEq,
        RecordError.notAnObject.injEq]
      constructor
      · rintro rfl
        exact ⟨rfl, by decide⟩
      · exact And.left

/-- If every member is what the field of its name stands for, none is of a type
that no field has. -/
theorem not_isUnsupported_of_rel
    {found : Option Json} {v : Option Scalar}
    (h : Option.Rel Json.StandsFor found v) {member : Json}
    (hfound : found = some member) : ¬member.shape.IsUnsupported := by
  subst hfound
  cases h with
  | some hstands =>
      rw [← Scalar.ofJson?_eq_none_iff, Scalar.ofJson?_eq_some_iff.mpr hstands]
      simp

theorem eq_of_rel
    {found : Option Json} {v w : Option Scalar}
    (hv : Option.Rel Json.StandsFor found v)
    (hw : Option.Rel Json.StandsFor found w) : v = w := by
  cases hv with
  | none =>
      cases hw
      rfl
  | some hv =>
      cases hw with
      | some hw =>
          rw [← Scalar.ofJson?_eq_some_iff] at hv hw
          exact hv.symm.trans hw

theorem ofJson_object_eq_ok_iff (members : List (String × Json)) (r : Record) :
    ofJson (.object members) = .ok r ↔
      ∀ name, Option.Rel Json.StandsFor (Json.lookup? name members)
        (r.get? name) := by
  constructor
  · intro h
    rcases ofJson_object_cases members with ⟨s, hs, hrel⟩ | ⟨_, _, hfails, -⟩
    · cases h.symm.trans hs
      exact hrel
    · cases h.symm.trans hfails
  · intro hrel
    rcases ofJson_object_cases members with ⟨s, hs, hrel'⟩ | ⟨_, _, -, hfirst⟩
    · rw [hs, ext_get? fun name => eq_of_rel (hrel' name) (hrel name)]
    · obtain ⟨member, hmember, rfl⟩ := hfirst.exists_member
      exact absurd hfirst.isUnsupported
        (not_isUnsupported_of_rel (hrel _) hmember)

theorem ofJson_object_eq_unsupported_iff
    (members : List (String × Json)) (field : String) (found : Json.Shape) :
    ofJson (.object members) = .error (.unsupportedValue field found) ↔
      Json.IsFirstUnsupported members field found := by
  constructor
  · intro h
    rcases ofJson_object_cases members with ⟨_, hs, -⟩ | ⟨_, _, hfails, hfirst⟩
    · cases h.symm.trans hs
    · cases h.symm.trans hfails
      exact hfirst
  · intro hfirst
    rcases ofJson_object_cases members with ⟨s, -, hrel⟩ | ⟨_, _, hfails, hother⟩
    · obtain ⟨member, hmember, rfl⟩ := hfirst.exists_member
      exact absurd hfirst.isUnsupported
        (not_isUnsupported_of_rel (hrel _) hmember)
    · obtain ⟨rfl, rfl⟩ := hfirst.unique hother
      exact hfails

theorem isRefusedFor_of_ofJson {value : Json} {cause : RecordError}
    (h : ofJson value = .error cause) : value.IsRefusedFor cause := by
  cases cause with
  | notAnObject found =>
      obtain ⟨rfl, hne⟩ := (ofJson_eq_notAnObject_iff value found).mp h
      exact .notAnObject hne
  | unsupportedValue field found =>
      cases value with
      | object members =>
          rw [ofJson_object_eq_unsupported_iff] at h
          exact .unsupportedValue h
      | _ => cases h

/-! ## Writing -/

/-- A scalar is written as a value that stands for it, unless it is a number that
JSON has not. -/
theorem toJson_scalar_cases (v : Scalar) :
    v.toJson.StandsFor v ∧ (∀ x, v = .number x → x.isFinite = true) ∨
      v.toJson = .null ∧ ∃ x, v = .number x ∧ x.isFinite = false := by
  cases v with
  | number x =>
      cases hx : x.isFinite with
      | true =>
          refine .inl ⟨?_, by rintro _ ⟨⟩; exact hx⟩
          rw [Scalar.toJson, Json.ofBinary64, if_pos hx]
          exact .double x
      | false =>
          refine .inr ⟨?_, x, rfl, hx⟩
          rw [Scalar.toJson, Json.ofBinary64, hx]
          rfl
  | string s => exact .inl ⟨.string s, by rintro x ⟨⟩⟩
  | boolean b => exact .inl ⟨.boolean b, by rintro x ⟨⟩⟩

/-- The members of the object that a record is written as. -/
def members (r : Record) : List (String × Json) :=
  (r.fields.mapValues Scalar.toJson).entries

theorem toJson_eq_object (r : Record) : r.toJson = .object r.members := rfl

theorem lookup?_members (r : Record) (name : String) :
    Json.lookup? name r.members = (r.get? name).map Scalar.toJson := by
  rw [← Table.get?_ofList_eq_lookup?, members, Table.ofList_entries,
    Table.get?_mapValues]
  rfl

theorem rel_members_iff (r : Record) (name : String) :
    Option.Rel Json.StandsFor (Json.lookup? name r.members) (r.get? name) ↔
      ∀ x, r.get? name = some (.number x) → x.isFinite = true := by
  rw [lookup?_members]
  cases r.get? name with
  | none => exact iff_of_true .none (by rintro x ⟨⟩)
  | some v =>
      rcases toJson_scalar_cases v with ⟨hstands, hfinite⟩ | ⟨hnull, x, rfl, hx⟩
      · refine iff_of_true (.some hstands) fun x hx => hfinite x ?_
        exact Option.some.inj hx
      · refine iff_of_false (fun hrel => ?_) fun hfinite => ?_
        · rw [Option.map_some, hnull] at hrel
          cases hrel with
          | some hstands => cases hstands
        · rw [hfinite x rfl] at hx
          cases hx

theorem isUnsupported_members_iff
    (r : Record) (name : String) (member : Json) :
    Json.lookup? name r.members = some member ∧ member.shape.IsUnsupported ↔
      member = .null ∧
        ∃ x, r.get? name = some (.number x) ∧ x.isFinite = false := by
  rw [lookup?_members, Option.map_eq_some_iff]
  constructor
  · rintro ⟨⟨v, hv, rfl⟩, hshape⟩
    rcases toJson_scalar_cases v with ⟨hstands, -⟩ | ⟨hnull, x, rfl, hx⟩
    · exact absurd hshape (not_isUnsupported_of_rel (.some hstands) rfl)
    · exact ⟨hnull, x, hv, hx⟩
  · rintro ⟨rfl, x, hget, hx⟩
    refine ⟨⟨_, hget, ?_⟩, .inl rfl⟩
    rw [Scalar.toJson, Json.ofBinary64, hx]
    rfl

/-- In what a record is written as, the first member that no field has is the
first number that JSON has not. -/
theorem isFirstUnsupported_members_iff
    (r : Record) (field : String) (found : Json.Shape) :
    Json.IsFirstUnsupported r.members field found ↔
      found = .null ∧ r.IsFirstNonFinite field := by
  constructor
  · rintro ⟨⟨member, hmember, rfl⟩, hshape, hfirst⟩
    obtain ⟨rfl, hnumber⟩ :=
      (r.isUnsupported_members_iff field member).mp ⟨hmember, hshape⟩
    refine ⟨rfl, hnumber, fun other x hget hx => ?_⟩
    obtain ⟨hother, hnull⟩ :=
      (r.isUnsupported_members_iff other .null).mpr ⟨rfl, x, hget, hx⟩
    exact hfirst other .null hother hnull
  · rintro ⟨rfl, hnumber, hfirst⟩
    obtain ⟨hmember, hnull⟩ :=
      (r.isUnsupported_members_iff field .null).mpr ⟨rfl, hnumber⟩
    refine ⟨⟨.null, hmember, rfl⟩, hnull, fun other member hother hshape => ?_⟩
    obtain ⟨-, x, hget, hx⟩ :=
      (r.isUnsupported_members_iff other member).mp ⟨hother, hshape⟩
    exact hfirst other x hget hx

/-- What a record is written as is read back as the record, or as nothing. -/
theorem ofJson_toJson_cases (r : Record) :
    (ofJson r.toJson = .ok r ∧
      ∀ name x, r.get? name = some (.number x) → x.isFinite = true) ∨
    ∃ field, ofJson r.toJson = .error (.unsupportedValue field .null) ∧
      r.IsFirstNonFinite field := by
  by_cases hfinite : ∀ name x, r.get? name = some (.number x) →
      x.isFinite = true
  · refine .inl ⟨?_, hfinite⟩
    rw [toJson_eq_object, ofJson_object_eq_ok_iff]
    exact fun name => (r.rel_members_iff name).mpr (hfinite name)
  · right
    rw [toJson_eq_object]
    rcases ofJson_object_cases r.members with
      ⟨s, -, hrel⟩ | ⟨field, found, hfails, hfirst⟩
    · refine absurd (fun name x hget => ?_) hfinite
      by_contra hx
      obtain ⟨hmember, hnull⟩ := (r.isUnsupported_members_iff name .null).mpr
        ⟨rfl, x, hget, by simpa using hx⟩
      exact not_isUnsupported_of_rel (hrel name) hmember hnull
    · obtain ⟨rfl, hnumber⟩ :=
        (r.isFirstUnsupported_members_iff field found).mp hfirst
      exact ⟨field, hfails, hnumber⟩

theorem get?_foldl_insert_eq_some_iff
    (collected inserted : List (String × Scalar)) (name : String)
    (value : Scalar) :
    (inserted.foldl (fun r entry => r.insert entry.1 entry.2)
        (ofList collected)).get? name = some value ↔
      ∃ before after, collected ++ inserted = before ++ (name, value) :: after ∧
        name ∉ after.map Prod.fst := by
  have hbuilt : inserted.foldl (fun r entry => r.insert entry.1 entry.2)
      (ofList collected) = ofList (collected ++ inserted) := by
    induction inserted using List.reverseRecOn with
    | nil => rw [List.append_nil, List.foldl_nil]
    | append_singleton inserted entry ih =>
        rw [List.foldl_append, ih, ← List.append_assoc]
        exact congrArg mk (Table.ofList_append_singleton _ _ _).symm
  rw [hbuilt]
  exact Table.get?_ofList_eq_some_iff _ name value

/-- A value that is no object is reported with its type. An object is a record
exactly if every member is a number, a string or a truth value, and then the
record gives every name what its member stands for; otherwise the first member
of another type, in the order of bytes, is reported with that type.

A record is what was inserted last under every name. What it is written as is
read back as the record exactly if all its numbers are finite, and otherwise the
first one that is not is reported as null. -/
theorem ofJson_reads_flat_objects :
    (∀ value : Json,
      (∀ found, ofJson value = .error (.notAnObject found) ↔
        value.shape = found ∧ found ≠ .object) ∧
      ∀ members, value = .object members →
        ((∃ cause, ofJson value = .error cause) ↔
          ∃ name member, Json.lookup? name members = some member ∧
            member.shape.IsUnsupported) ∧
        (∀ field found, ofJson value = .error (.unsupportedValue field found) ↔
          Json.IsFirstUnsupported members field found) ∧
        ∀ r, ofJson value = .ok r ↔
          ∀ name, Option.Rel Json.StandsFor (Json.lookup? name members)
            (r.get? name)) ∧
    (∀ (collected inserted : List (String × Scalar)) (name : String)
        (value : Scalar),
      (inserted.foldl (fun r entry => r.insert entry.1 entry.2)
          (ofList collected)).get? name = some value ↔
        ∃ before after,
          collected ++ inserted = before ++ (name, value) :: after ∧
            name ∉ after.map Prod.fst) ∧
    ∀ r : Record,
      (∃ entries, r = ofList entries) ∧
      (ofJson r.toJson = .ok r ↔
        ∀ name x, r.get? name = some (.number x) → x.isFinite = true) ∧
      ((∃ name x, r.get? name = some (.number x) ∧ x.isFinite = false) →
        ∃ field, r.IsFirstNonFinite field ∧
          ofJson r.toJson = .error (.unsupportedValue field .null)) := by
  refine ⟨fun value => ⟨ofJson_eq_notAnObject_iff value, ?_⟩,
    get?_foldl_insert_eq_some_iff, fun r => ?_⟩
  · rintro members rfl
    refine ⟨?_, ofJson_object_eq_unsupported_iff members,
      ofJson_object_eq_ok_iff members⟩
    rcases ofJson_object_cases members with
      ⟨r, hr, hrel⟩ | ⟨field, found, hfails, hfirst⟩
    · refine iff_of_false (by simp [hr]) ?_
      rintro ⟨name, member, hmember, hunsupported⟩
      exact not_isUnsupported_of_rel (hrel name) hmember hunsupported
    · refine iff_of_true ⟨_, hfails⟩ ?_
      obtain ⟨member, hmember, rfl⟩ := hfirst.exists_member
      exact ⟨field, member, hmember, hfirst.isUnsupported⟩
  · refine ⟨⟨r.fields.entries, congrArg mk r.fields.ofList_entries.symm⟩, ?_⟩
    rcases r.ofJson_toJson_cases with ⟨hok, hfinite⟩ | ⟨field, hfails, hfirst⟩
    · refine ⟨iff_of_true hok hfinite, fun hexists => ?_⟩
      obtain ⟨name, x, hget, hx⟩ := hexists
      rw [hfinite name x hget] at hx
      cases hx
    · obtain ⟨x, hget, hx⟩ := hfirst.exists_number
      refine ⟨iff_of_false (by simp [hfails]) fun hfinite => ?_,
        fun _ => ⟨field, hfirst, hfails⟩⟩
      rw [hfinite field x hget] at hx
      cases hx

theorem ofJson_reads_flat_objects_of_infinite_number :
    let r := ofList [("x", .number .notANumber), ("a", .boolean true),
      ("é", .string "s"), ("b", .number (.infinity true))]
    (∃ name x, r.get? name = some (.number x) ∧ x.isFinite = false) ∧
      r.IsFirstNonFinite "b" ∧
      ofJson r.toJson = .error (.unsupportedValue "b" .null) := by
  intro r
  have hnumber : ∃ name x, r.get? name = some (.number x) ∧
      x.isFinite = false := ⟨"x", .notANumber, by cbv, by decide⟩
  have hfails : ofJson r.toJson = .error (.unsupportedValue "b" .null) := by
    cbv
  obtain ⟨field, hfirst, hreported⟩ :=
    (ofJson_reads_flat_objects.2.2 r).2.2 hnumber
  cases hfails.symm.trans hreported
  exact ⟨hnumber, hfirst, hfails⟩

end Record

end Rulebook
