import Mathlib
import Rulebook.Settings.Library

/-!
# Trees laid over each other

Putting a tree at the end of a path lays it over what is there, name by name. What
is bound afterwards where some names lead is what was put there, and if nothing
was, what was bound before. This holds as long as there are only tables on the
way: anything else would take the place of all that is under it.

The laws of a library are about one name. From them this follows by induction on
the names that lead to a place.
-/

namespace Rulebook

namespace SettingTree

/-- What stands where names lead, if anything does. -/
def at? : SettingTree → List String → Option SettingTree
  | t, [] => some t
  | t, name :: names => (t.member? name).bind fun u => u.at? names

/-- The value that is here, if it is one. -/
def value? : SettingTree → Option SettingValue
  | .value v => some v
  | _ => none

/-- What stands where names lead, if anything does: a value, or something else
that has no value. -/
def bound? (t : SettingTree) (names : List String) :
    Option (Option SettingValue) :=
  (t.at? names).map value?

/-- Whether there are only tables on the way to where names lead. -/
def Opens : SettingTree → List String → Prop
  | _, [] => True
  | t, name :: names =>
    t.IsTable ∧ ∀ u, t.member? name = some u → u.Opens names

end SettingTree

namespace SettingPath

/-- What a tree at the end of a path binds where names lead: what stands there in
the tree behind the end, and what is no value in front of it. -/
def bound? : SettingPath → SettingTree → List String →
    Option (Option SettingValue)
  | [], u, names => u.bound? names
  | _ :: _, _, [] => some none
  | .name step :: path, u, name :: names =>
    if name = step then bound? path u names else none
  | .item _ :: _, _, _ :: _ => none

/-- Whether a path with a tree at its end leaves tables on the way to where names
lead. -/
def Opens : SettingPath → SettingTree → List String → Prop
  | [], u, names => u.Opens names
  | _ :: _, _, [] => True
  | .name step :: path, u, name :: names => name = step → Opens path u names
  | .item _ :: _, _, _ :: _ => False

theorem isSome_bound?_nil (path : SettingPath) (u : SettingTree) :
    (path.bound? u []).isSome = true := by
  cases path <;> rfl

theorem opens_nil (path : SettingPath) (u : SettingTree) : path.Opens u [] := by
  cases path <;> trivial

end SettingPath

namespace SettingTree

variable {t u : SettingTree} {name : String} {names : List String}

theorem bound?_cons (t : SettingTree) (name : String) (names : List String) :
    t.bound? (name :: names) = (t.member? name).bind fun u => u.bound? names := by
  rw [bound?, at?, Option.map_bind]
  rfl

theorem isSome_bound?_nil (t : SettingTree) : (t.bound? []).isSome = true := rfl

theorem value?_eq_none_of_isTable (h : t.IsTable) : t.value? = none := by
  obtain ⟨members, rfl⟩ := h
  rfl

/-- What is bound in what stands under a name is what is bound under it, or it is
not asked for, since there is something else already. -/
theorem or_bound?_getD
    {bound : Option (Option SettingValue)}
    (h : names = [] → bound.isSome = true) :
    bound.or (((t.member? name).getD .nothing).bound? names) =
      bound.or (t.bound? (name :: names)) := by
  rw [bound?_cons]
  cases t.member? name with
  | some u => rfl
  | none =>
      cases names with
      | nil =>
          obtain ⟨b, rfl⟩ := Option.isSome_iff_exists.mp (h rfl)
          rfl
      | cons next names => rfl

theorem Opens.of_member?
    (ht : t = .nothing ∨ t.Opens (name :: names)) (hu : t.member? name = some u) :
    u.Opens names := by
  rcases ht with rfl | ht
  · cases hu
  · exact ht.2 u hu

/-- What is under a name before anything is laid there: nothing, or what there
are only tables on the way to. -/
theorem eq_nothing_or_opens_getD (ht : t = .nothing ∨ t.Opens (name :: names)) :
    (t.member? name).getD .nothing = .nothing ∨
      ((t.member? name).getD .nothing).Opens names := by
  cases hold : t.member? name with
  | none => exact .inl rfl
  | some old => exact .inr (Opens.of_member? ht hold)

end SettingTree

namespace SettingLibrary

variable {lib : SettingLibrary} {t u : SettingTree} {path : SettingPath}

theorem IsLawful.value?_put_nil (hlib : lib.IsLawful) (u t : SettingTree) :
    (lib.put [] u t).value? = u.value? := by
  by_cases hu : u.IsTable
  · rw [SettingTree.value?_eq_none_of_isTable hu,
      SettingTree.value?_eq_none_of_isTable (hlib.isTable_put_nil u t hu)]
  · rw [hlib.put_nil_of_not_isTable u t hu]

theorem IsLawful.value?_put_cons (hlib : lib.IsLawful) (step : SettingStep)
    (path : SettingPath) (u t : SettingTree) :
    (lib.put (step :: path) u t).value? = none := by
  cases step with
  | name name =>
      exact SettingTree.value?_eq_none_of_isTable
        (hlib.isTable_put_name name path u t)
  | item position =>
      obtain ⟨items, hitems⟩ := hlib.put_item position path u t
      rw [hitems]
      rfl

/-- What is bound in a tree laid over another one is what is bound in it, or what
was bound in the other one. -/
theorem IsLawful.bound?_put_nil
    (hlib : lib.IsLawful) (names : List String) (t : SettingTree)
    (hopens : u.Opens names) :
    (lib.put [] u t).bound? names = (u.bound? names).or (t.bound? names) := by
  induction names generalizing t u with
  | nil => exact congrArg some (hlib.value?_put_nil u t)
  | cons name names ih =>
      obtain ⟨htable, hinner⟩ := hopens
      rw [SettingTree.bound?_cons, hlib.member?_put_nil u t name htable,
        SettingTree.bound?_cons u]
      cases hu : u.member? name with
      | none =>
          rw [SettingTree.bound?_cons]
          rfl
      | some v =>
          have hlaid := ih ((t.member? name).getD .nothing) (hinner v hu)
          rw [Option.bind_some, Option.bind_some, hlaid]
          apply SettingTree.or_bound?_getD
          rintro rfl
          exact v.isSome_bound?_nil

theorem IsLawful.opens_put_nil
    (hlib : lib.IsLawful) (names : List String) (hu : u.Opens names)
    (ht : t = .nothing ∨ t.Opens names) : (lib.put [] u t).Opens names := by
  induction names generalizing t u with
  | nil => trivial
  | cons name names ih =>
      obtain ⟨htable, hinner⟩ := hu
      refine ⟨hlib.isTable_put_nil u t htable, ?_⟩
      intro v hv
      rw [hlib.member?_put_nil u t name htable] at hv
      cases hmember : u.member? name with
      | none =>
          rw [hmember] at hv
          exact SettingTree.Opens.of_member? ht hv
      | some w =>
          rw [hmember] at hv
          obtain rfl := Option.some.inj hv
          exact ih (hinner w hmember) (SettingTree.eq_nothing_or_opens_getD ht)

/-- What is bound when a tree is put at the end of a path is what it binds there,
or what was bound before. -/
theorem IsLawful.bound?_put
    (hlib : lib.IsLawful) (names : List String) (t : SettingTree)
    (hopens : path.Opens u names) :
    (lib.put path u t).bound? names =
      (path.bound? u names).or (t.bound? names) := by
  induction path generalizing names t with
  | nil => exact hlib.bound?_put_nil names t hopens
  | cons step path ih =>
      match step, names, hopens with
      | step, [], _ => exact congrArg some (hlib.value?_put_cons step path u t)
      | .name step, name :: names, hopens =>
          rw [SettingTree.bound?_cons, hlib.member?_put_name, SettingPath.bound?]
          by_cases hname : name = step
          · rw [if_pos hname, if_pos hname, Option.bind_some,
              ih names _ (hopens hname), ← hname]
            apply SettingTree.or_bound?_getD
            rintro rfl
            exact SettingPath.isSome_bound?_nil path u
          · rw [if_neg hname, if_neg hname, SettingTree.bound?_cons]
            rfl

theorem IsLawful.opens_put
    (hlib : lib.IsLawful) (names : List String) (hopens : path.Opens u names)
    (ht : t = .nothing ∨ t.Opens names) : (lib.put path u t).Opens names := by
  induction path generalizing names t with
  | nil => exact hlib.opens_put_nil names hopens ht
  | cons step path ih =>
      match step, names, hopens with
      | step, [], _ => trivial
      | .name step, name :: names, hopens =>
          refine ⟨hlib.isTable_put_name step path u t, ?_⟩
          intro v hv
          rw [hlib.member?_put_name] at hv
          by_cases hname : name = step
          · rw [if_pos hname] at hv
            obtain rfl := Option.some.inj hv
            rw [← hname]
            exact ih names (hopens hname)
              (SettingTree.eq_nothing_or_opens_getD ht)
          · rw [if_neg hname] at hv
            exact SettingTree.Opens.of_member? ht hv

end SettingLibrary

end Rulebook
