import Mathlib
import Rulebook.Json.Reading
import Rulebook.Proofs.Records
import Rulebook.Proofs.RoundTrip

/-!
# What is not a number is never read

The number of a literal is finite, and that of a JSON numeral is made by
rounding, which may end at infinity but goes no further. So no expression and no
record that is read holds a double that is not a number.
-/

namespace Rulebook

namespace Binary64

theorem isNaN_nearest (negative : Bool) (num den : Nat) :
    (nearest negative num den).isNaN = false :=
  isNaN_ofMagnitude negative _

end Binary64

/-- A scalar is no double that is not a number. -/
def Scalar.HasNoNaN : Scalar → Prop
  | .number x => x.isNaN = false
  | .string _ => True
  | .boolean _ => True

/-- All literals of an expression are numbers if they are doubles. -/
def Expression.HasNoNaN (e : Expression) : Prop :=
  ∀ c ∈ e.conditions, c.value.HasNoNaN

/-- All values in a record are numbers if they are doubles. -/
def Record.HasNoNaN (r : Record) : Prop :=
  ∀ field value, r.get? field = some value → value.HasNoNaN

theorem Expression.hasNoNaN_of_ofText
    {text : String} {e : Expression} (h : ofText text = .ok e) :
    e.HasNoNaN := by
  intro c hc
  have hlegible := ((isWellFormed_of_ofText h).1 c hc).2
  cases hvalue : c.value with
  | number x =>
      rw [hvalue] at hlegible
      exact Binary64.isNaN_of_isFinite hlegible
  | string s => trivial
  | boolean b => trivial

theorem exists_of_map_eq_ok
    {ε α β : Type} {x : Except ε α} {f : α → β} {b : β} (h : x.map f = .ok b) :
    ∃ a, x = .ok a ∧ f a = b := by
  cases x with
  | error cause => cases h
  | ok a => exact ⟨a, rfl, Except.ok.inj h⟩

namespace Json

/-- All doubles in a JSON value are numbers. -/
inductive HasNoNaN : Json → Prop where
  | null : HasNoNaN .null
  | boolean (b : Bool) : HasNoNaN (.boolean b)
  | integer (i : Int) : HasNoNaN (.integer i)
  | double {x : Binary64} (h : x.isNaN = false) : HasNoNaN (.double x)
  | string (s : String) : HasNoNaN (.string s)
  | array {items : List Json} (h : ∀ v ∈ items, HasNoNaN v) :
      HasNoNaN (.array items)
  | object {members : List (String × Json)}
      (h : ∀ m ∈ members, HasNoNaN m.2) : HasNoNaN (.object members)

theorem Numeral.isNaN_of_scaled?
    {x y : Binary64} {exponent : Int} (hx : x.isNaN = false)
    (h : scaled? x exponent = some y) : y.isNaN = false := by
  fun_induction scaled? x exponent with
  | case1 x exponent hexponent hzero =>
      cases h
      exact hx
  | case2 x exponent hexponent hzero hle product hfinite =>
      obtain rfl : product = y := Option.some.inj h
      exact Binary64.isNaN_nearest _ _ _
  | case3 => cases h
  | case4 => cases h
  | case5 x exponent hexponent hle =>
      cases h
      exact Binary64.isNaN_nearest _ _ _
  | case6 x exponent hexponent hle hzero =>
      cases h
      exact hx
  | case7 x exponent hexponent hle hzero ih =>
      exact ih (Binary64.isNaN_nearest _ _ _) h

theorem hasNoNaN_of_numeral
    {n : Numeral} {value : Json} (h : n.toJson? = some value) :
    value.HasNoNaN := by
  unfold Numeral.toJson? at h
  dsimp only at h
  split at h
  · split at h
    · cases h
      exact .integer _
    · split at h
      · cases h
        exact .integer _
      · cases h
        exact .double (Binary64.isNaN_nearest _ _ _)
  · obtain ⟨x, hx, rfl⟩ := Option.map_eq_some_iff.mp h
    have hnumber : x.isNaN = false :=
      Numeral.isNaN_of_scaled? (Binary64.isNaN_nearest _ _ _) hx
    exact .double hnumber

theorem hasNoNaN_of_atom
    {a : Atom} {value : Json} (h : a.toJson? = some value) :
    value.HasNoNaN := by
  cases a with
  | null =>
      cases h
      exact .null
  | boolean b =>
      cases h
      exact .boolean b
  | number n => exact hasNoNaN_of_numeral h
  | string s =>
      obtain ⟨text, -, rfl⟩ := Option.map_eq_some_iff.mp h
      exact .string text

namespace Outline

variable {read : String → Option Json}

theorem hasNoNaN_of_embeddedValue
    (hread : ∀ text value, read text = some value → value.HasNoNaN)
    {o : Outline} {value : Json} (h : embeddedValue read o = .ok value) :
    value.HasNoNaN := by
  unfold embeddedValue at h
  split at h
  · next text =>
    cases htext : read text with
    | none =>
        rw [htext] at h
        cases h
    | some v =>
        rw [htext] at h
        cases h
        exact hread text value htext
  · cases h

mutual

theorem hasNoNaN_of_valueWith
    (hread : ∀ text value, read text = some value → value.HasNoNaN) :
    (o : Outline) → (room : Nat) → (value : Json) →
      valueWith read room o = .ok value → value.HasNoNaN
  | .broken, room, value, h => by
      rw [valueWith] at h
      cases h
  | .atom a, room, value, h => by
      rw [valueWith] at h
      cases hatom : a.toJson? with
      | none =>
          rw [hatom] at h
          cases h
      | some v =>
          rw [hatom] at h
          cases h
          exact hasNoNaN_of_atom hatom
  | .array items closed, room, value, h => by
      rw [valueWith] at h
      split at h
      · cases h
      · split at h
        · next values hitems =>
          split at h
          · cases h
            exact .array
              (hasNoNaN_of_itemsWith hread items _ values hitems)
          · cases h
        · cases h
  | .object members closed, room, value, h => by
      rw [valueWith] at h
      split at h
      · cases h
      · split at h
        · split at h
          · next found hfound =>
            split at h
            · cases h
              exact hasNoNaN_of_embeddedValue hread hfound
            · cases h
          · cases h
        · split at h
          · next values hmembers =>
            split at h
            · cases h
              exact .object
                (hasNoNaN_of_membersWith hread members _ values hmembers)
            · cases h
          · cases h

theorem hasNoNaN_of_itemsWith
    (hread : ∀ text value, read text = some value → value.HasNoNaN) :
    (items : List Outline) → (room : Nat) → (values : List Json) →
      itemsWith read room items = .ok values → ∀ v ∈ values, v.HasNoNaN
  | [], room, values, h => by
      rw [itemsWith] at h
      cases h
      exact List.forall_mem_nil _
  | item :: rest, room, values, h => by
      rw [itemsWith] at h
      split at h
      · next value hvalue =>
        obtain ⟨others, hothers, rfl⟩ := exists_of_map_eq_ok h
        exact List.forall_mem_cons.mpr
          ⟨hasNoNaN_of_valueWith hread item _ value hvalue,
            hasNoNaN_of_itemsWith hread rest _ others hothers⟩
      · cases h

theorem hasNoNaN_of_membersWith
    (hread : ∀ text value, read text = some value → value.HasNoNaN) :
    (members : List (Option String × Outline)) → (room : Nat) →
      (values : List (String × Json)) →
      membersWith read room members = .ok values →
        ∀ m ∈ values, m.2.HasNoNaN
  | [], room, values, h => by
      rw [membersWith] at h
      cases h
      exact List.forall_mem_nil _
  | (none, _) :: _, room, values, h => by
      rw [membersWith] at h
      cases h
  | (some name, item) :: rest, room, values, h => by
      rw [membersWith] at h
      split at h
      · next value hvalue =>
        obtain ⟨others, hothers, rfl⟩ := exists_of_map_eq_ok h
        exact List.forall_mem_cons.mpr
          ⟨hasNoNaN_of_valueWith hread item _ value hvalue,
            hasNoNaN_of_membersWith hread rest _ others hothers⟩
      · cases h

end

end Outline

theorem hasNoNaN_of_embeddedText?
    (levels : Nat) (text : String) (value : Json)
    (h : embeddedText? levels text = some value) : value.HasNoNaN := by
  induction levels generalizing text value with
  | zero => cases h
  | succ levels ih =>
      unfold embeddedText? at h
      dsimp only at h
      split at h
      · cases h
      · cases hroot : (Document.ofText text).root.valueWith
            (embeddedText? levels) maxDepth with
        | error fault =>
            rw [hroot] at h
            cases h
        | ok v =>
            rw [hroot] at h
            cases h
            exact Outline.hasNoNaN_of_valueWith ih _ _ _ hroot

/-- No JSON value that is read holds a double that is not a number. -/
theorem hasNoNaN_of_toJson
    {room : Nat} {o : Outline} {value : Json} (h : o.toJson room = .ok value) :
    value.HasNoNaN :=
  Outline.hasNoNaN_of_valueWith
    (fun text value => hasNoNaN_of_embeddedText? _ text value) o room value h

theorem HasNoNaN.of_member?
    {value member : Json} {name : String} (h : value.HasNoNaN)
    (hmember : value.member? name = some member) : member.HasNoNaN := by
  cases h with
  | object hall =>
      obtain ⟨m, hfound, rfl⟩ := Option.map_eq_some_iff.mp hmember
      exact hall m (List.mem_reverse.mp (List.mem_of_find?_eq_some hfound))
  | _ => cases hmember

theorem HasNoNaN.scalar
    {value : Json} {x : Scalar} (h : value.HasNoNaN)
    (hx : Scalar.ofJson? value = some x) : x.HasNoNaN := by
  cases h with
  | integer i =>
      cases hx
      exact Binary64.isNaN_nearest _ _ _
  | double hnumber =>
      cases hx
      exact hnumber
  | boolean b =>
      cases hx
      trivial
  | string s =>
      cases hx
      trivial
  | _ => cases hx

end Json

/-- A record made of JSON that was read holds numbers only. -/
theorem Record.hasNoNaN_of_ofJson
    {value : Json} {r : Record} (hvalue : value.HasNoNaN)
    (h : ofJson value = .ok r) : r.HasNoNaN := by
  intro field x hx
  rcases ofJson_cases value with ⟨-, u, hu, hget⟩ | ⟨-, cause, hfails⟩
  · obtain rfl : u = r := Except.ok.inj (hu.symm.trans h)
    rw [hget] at hx
    obtain ⟨member, hmember, hscalar⟩ := Option.bind_eq_some_iff.mp hx
    exact (hvalue.of_member? hmember).scalar hscalar
  · cases hfails.symm.trans h

end Rulebook
