import Mathlib
import Rulebook.Proofs.Spacing
import Rulebook.Settings.Plain.Library

/-!
# The plain library is lawful

What the laws of libraries ask for can be done, and the plain library does it.
-/

namespace Rulebook.Plain

/-! ## Trees -/

theorem overlay_branch (t : SettingTree) (members : List (String × SettingTree)) :
    overlay t (.branch members) = .branch (overlayMembers t.members members) := by
  rw [overlay]

/-- Under a name is what was laid there over what was there before. -/
theorem lookup_overlayMembers
    (old members : List (String × SettingTree)) (name : String) :
    (overlayMembers old members).lookup name =
      match members.lookup name with
      | some u => some (overlay ((old.lookup name).getD .nothing) u)
      | none => old.lookup name := by
  induction members with
  | nil => rw [overlayMembers, List.lookup_nil]
  | cons m rest ih =>
      obtain ⟨key, u⟩ := m
      rw [overlayMembers, List.lookup_cons, List.lookup_cons, ih]
      by_cases hkey : name = key
      · rw [hkey, beq_self_eq_true]
      · rw [beq_eq_false_iff_ne.mpr hkey]

theorem member?_overlay
    {u : SettingTree} (hu : u.IsTable) (t : SettingTree) (name : String) :
    (overlay t u).member? name =
      match u.member? name with
      | some v => some (overlay ((t.member? name).getD .nothing) v)
      | none => t.member? name := by
  obtain ⟨members, rfl⟩ := hu
  rw [overlay_branch]
  exact lookup_overlayMembers t.members members name

theorem overlay_of_not_isTable
    {u : SettingTree} (hu : ¬u.IsTable) (t : SettingTree) : overlay t u = u := by
  cases u with
  | branch members => exact absurd ⟨members, rfl⟩ hu
  | _ => rw [overlay]; nofun

theorem member?_put_name (name : String) (path : SettingPath)
    (u t : SettingTree) (other : String) :
    (put (.name name :: path) u t).member? other =
      if other = name then
        some (put path u ((t.member? name).getD .nothing))
      else t.member? other := by
  rw [put, SettingTree.member?, SettingTree.members, List.lookup_cons]
  by_cases hname : other = name
  · rw [if_pos hname, hname, beq_self_eq_true]
  · rw [if_neg hname, beq_eq_false_iff_ne.mpr hname]
    rfl

/-! ## Files -/

/-- A name without directories stays the last part of a path. -/
theorem exists_toList_joinPath (directory name : String) :
    ∃ front, (Text.joinPath directory name).toList = front ++ name.toList := by
  unfold Text.joinPath
  split
  · exact ⟨[], rfl⟩
  · split
    · exact ⟨directory.toList, String.toList_append⟩
    · exact ⟨(directory ++ "/").toList, String.toList_append⟩

theorem isNameless_joinPath
    {name : String} (hname : name ≠ "") (hslash : '/' ∉ name.toList)
    (directory : String) :
    isNameless (Text.joinPath directory (name ++ ".toml")) = false := by
  rw [isNameless, Bool.eq_false_iff, ne_eq, List.isSuffixOf_iff_suffix]
  rintro ⟨before, hbefore⟩
  obtain ⟨front, hfront⟩ := exists_toList_joinPath directory (name ++ ".toml")
  have hending : "/.toml".toList = ['/'] ++ ".toml".toList := by decide
  rw [hfront, String.toList_append, hending, ← List.append_assoc,
    ← List.append_assoc, ← List.cons_append] at hbefore
  have hlast := congrArg List.getLast? (List.append_cancel_right hbefore)
  have hne : name.toList ≠ [] := by simpa using hname
  rw [List.getLast?_append, List.getLast?_singleton, Option.some_or,
    ← List.cons_append, List.getLast?_append,
    List.getLast?_eq_some_getLast hne, Option.some_or,
    Option.some.injEq] at hlast
  exact hslash (hlast ▸ List.getLast_mem hne)

theorem file?_of_lookup
    {files : List (String × String)} {directory name text : String}
    (isRequired : Bool) (hname : name ≠ "") (hslash : '/' ∉ name.toList)
    (hlookup : files.lookup (Text.joinPath directory (name ++ ".toml")) =
      some text) :
    file? isRequired files (Text.joinPath directory (name ++ ".toml")) =
      File.read? text := by
  simp only [file?, text?, fileAt?, hlookup,
    isNameless_joinPath hname hslash directory]
  rfl

/-- The last part of a text that is split stands at its end, behind a separator
if there is one. -/
theorem exists_split_eq_append (separator : Char) (s : List Char) :
    ∃ before last, Text.split separator s = before ++ [last] ∧
      (before = [] ∧ s = last ∨
        before ≠ [] ∧ ∃ front, s = front ++ separator :: last) := by
  induction s with
  | nil => exact ⟨[], [], rfl, .inl ⟨rfl, rfl⟩⟩
  | cons c rest ih =>
      obtain ⟨before, last, hsplit, hcases⟩ := ih
      rw [Text.split, hsplit]
      split
      · next hc =>
        refine ⟨[] :: before, last, rfl, .inr ⟨List.cons_ne_nil _ _, ?_⟩⟩
        rcases hcases with ⟨-, rfl⟩ | ⟨-, front, rfl⟩
        · exact ⟨[], by rw [hc, List.nil_append]⟩
        · exact ⟨c :: front, rfl⟩
      · rcases hcases with ⟨rfl, rfl⟩ | ⟨hne, front, rfl⟩
        · exact ⟨[], c :: rest, rfl, .inl ⟨rfl, rfl⟩⟩
        · obtain ⟨first, others, rfl⟩ := List.exists_cons_of_ne_nil hne
          exact ⟨(c :: first) :: others, last, rfl,
            .inr ⟨List.cons_ne_nil _ _, c :: front, rfl⟩⟩

theorem exists_getLast?_of_steps?
    {path : String} {steps : List (List Char)} (h : steps? path = some steps) :
    ∃ last, steps.getLast? = some last ∧
      (path.toList = last ∨ ∃ front, path.toList = front ++ '/' :: last) := by
  obtain ⟨before, last, hsplit, hcases⟩ :=
    exists_split_eq_append '/' path.toList
  unfold steps? at h
  dsimp only at h
  rw [hsplit, List.dropLast_concat] at h
  split at h
  · cases h
  · obtain rfl := Option.some.inj h
    refine ⟨last, by simp, ?_⟩
    rcases hcases with ⟨-, hpath⟩ | ⟨-, hpath⟩
    · exact .inl hpath
    · exact .inr hpath

/-- A file to which a path leads has the same end of its name. -/
theorem exists_isSuffix_of_fileAt?
    {files : List (String × String)} {path text : String}
    (h : fileAt? files path = some text) :
    ∃ f ∈ files, ∀ tail : List Char, '/' ∉ tail → tail <:+ path.toList →
      tail <:+ f.1.toList := by
  unfold fileAt? at h
  split at h
  · next found hlookup =>
    obtain ⟨before, behind, rfl, -⟩ := List.lookup_eq_some_iff.mp hlookup
    exact ⟨(path, found), by simp, fun tail _ htail => htail⟩
  · obtain ⟨steps, hsteps, h⟩ := Option.bind_eq_some_iff.mp h
    obtain ⟨f, hfind, -⟩ := Option.map_eq_some_iff.mp h
    have hf : steps? f.1 = some steps := by
      simpa using List.find?_some hfind
    refine ⟨f, List.mem_reverse.mp (List.mem_of_find?_eq_some hfind), ?_⟩
    intro tail hslash htail
    obtain ⟨last, hlast, hpath⟩ := exists_getLast?_of_steps? hsteps
    obtain ⟨last', hlast', hfpath⟩ := exists_getLast?_of_steps? hf
    obtain rfl := Option.some.inj (hlast.symm.trans hlast')
    have hinlast : tail <:+ last := by
      rcases hpath with hpath | ⟨front, hpath⟩
      · rwa [← hpath]
      · rw [hpath] at htail
        have hlonger : '/' :: last <:+ front ++ '/' :: last :=
          List.suffix_append front _
        rcases List.suffix_or_suffix_of_suffix hlonger htail with hin | hin
        · exact absurd (hin.subset List.mem_cons_self) hslash
        · rcases List.suffix_cons_iff.mp hin with rfl | hin
          · exact absurd List.mem_cons_self hslash
          · exact hin
    refine hinlast.trans ?_
    rcases hfpath with hfpath | ⟨front, hfpath⟩
    · exact hfpath ▸ List.suffix_refl _
    · rw [hfpath]
      exact (List.suffix_cons '/' last).trans (List.suffix_append front _)

theorem file?_of_forall_not_isInfix
    {files : List (String × String)} {name : String}
    (hslash : '/' ∉ name.toList)
    (habsent : ∀ f ∈ files, ¬(name ++ ".toml").toList <:+: f.1.toList)
    (directory : String) :
    file? false files (Text.joinPath directory (name ++ ".toml")) = some [] := by
  obtain ⟨front, hfront⟩ := exists_toList_joinPath directory (name ++ ".toml")
  have hmissing (path : String) (tail : List Char) (hpath : path.toList =
      front ++ (name ++ ".toml").toList ++ tail) (htail : '/' ∉ tail) :
      fileAt? files path = none := by
    rw [Option.eq_none_iff_forall_ne_some]
    intro text htext
    obtain ⟨f, hf, hsuffix⟩ := exists_isSuffix_of_fileAt? htext
    refine habsent f hf (List.IsInfix.trans
      (List.prefix_append _ tail).isInfix (hsuffix _ ?_ ?_).isInfix)
    · simp [hslash, htail]
    · rw [hpath, List.append_assoc]
      exact List.suffix_append front _
  have honce := hmissing (Text.joinPath directory (name ++ ".toml")) []
    (by rw [hfront, List.append_nil]) List.not_mem_nil
  have htwice := hmissing (Text.joinPath directory (name ++ ".toml") ++ ".toml")
    ".toml".toList (by rw [String.toList_append, hfront]) (by decide)
  simp only [file?, text?, honce, htwice]
  rfl

theorem begins_of_read? {text : String} {layer : SettingLayer}
    (h : File.read? text = some layer) :
    ∀ a ∈ layer, ∃ name rest, a.1 = .name name :: rest := by
  unfold File.read? at h
  obtain ⟨marks, -, h⟩ := Option.bind_eq_some_iff.mp h
  obtain ⟨p, -, h⟩ := Option.bind_eq_some_iff.mp h
  split at h
  · obtain rfl := Option.some.inj h
    intro a ha
    obtain ⟨m, -, rfl⟩ := List.mem_map.mp ha
    exact ⟨m.1, [], rfl⟩
  · cases h

theorem begins_of_file?
    {isRequired : Bool} {files : List (String × String)} {path : String}
    {layer : SettingLayer} (h : file? isRequired files path = some layer) :
    ∀ a ∈ layer, ∃ name rest, a.1 = .name name :: rest := by
  unfold file? at h
  split at h
  · exact begins_of_read? h
  · split at h
    · cases h
    · obtain rfl := Option.some.inj h
      exact fun a ha => absurd ha List.not_mem_nil

namespace Variable

/-! ## Names of variables -/

section Separator

variable {separator name : List Char}

theorem not_isPrefixOf_of_isFreeOf
    {c : Char} (h : Text.isFreeOf separator (c :: name) = true)
    (rest : List Char) : ¬separator <+: c :: name ++ separator ++ rest := by
  intro hprefix
  rw [Text.isFreeOf, Bool.and_eq_true, Bool.not_eq_true',
    Bool.eq_false_iff, ne_eq, List.isPrefixOf_iff_prefix] at h
  refine h.1 (List.prefix_of_prefix_length_le hprefix
    (List.prefix_append _ rest) ?_)
  rw [List.length_append]
  omega

theorem ne_nil_of_isFreeOf
    (h : Text.isFreeOf separator name = true) (hname : name ≠ []) :
    separator ≠ [] := by
  rintro rfl
  cases name with
  | nil => exact hname rfl
  | cons c rest => simp [Text.isFreeOf] at h

/-- A name without a separator in it stays as it is, and the separator behind it
becomes a point. -/
theorem withPoints_append
    (h : Text.isFreeOf separator name = true) (hseparator : separator ≠ [])
    (rest : List Char) :
    withPoints separator (name ++ separator ++ rest) =
      name ++ '.' :: withPoints separator rest := by
  induction name with
  | nil =>
      obtain ⟨c, others, rfl⟩ := List.exists_cons_of_ne_nil hseparator
      have hprefix : (c :: others).isPrefixOf (c :: (others ++ rest)) = true :=
        List.isPrefixOf_iff_prefix.mpr (List.prefix_append (c :: others) rest)
      rw [List.nil_append, List.cons_append, withPoints,
        if_pos ⟨hseparator, hprefix⟩, List.length_cons, Nat.add_sub_cancel,
        List.drop_left]
      rfl
  | cons c name ih =>
      have hnot := not_isPrefixOf_of_isFreeOf h rest
      rw [Text.isFreeOf, Bool.and_eq_true] at h
      rw [List.cons_append, List.cons_append] at hnot ⊢
      rw [withPoints, if_neg, ih h.2]
      · rfl
      · rintro ⟨-, hprefix⟩
        exact hnot (List.isPrefixOf_iff_prefix.mp hprefix)

theorem withPoints_of_isFreeOf (h : Text.isFreeOf separator name = true) :
    withPoints separator name = name := by
  induction name with
  | nil => rw [withPoints]
  | cons c name ih =>
      have hnot := h
      rw [Text.isFreeOf, Bool.and_eq_true, Bool.not_eq_true',
        Bool.eq_false_iff, ne_eq, List.isPrefixOf_iff_prefix] at hnot
      rw [withPoints, if_neg, ih hnot.2]
      rintro ⟨-, hprefix⟩
      exact hnot.1 ((List.isPrefixOf_iff_prefix.mp hprefix).trans
        (List.prefix_append _ _))

end Separator

theorem withPoints_intercalate
    {separator : List Char} {names : List (List Char)}
    (hne : ∀ name ∈ names, name ≠ [])
    (hfree : ∀ name ∈ names, Text.isFreeOf separator name = true) :
    withPoints separator (separator.intercalate names) =
      ['.'].intercalate names := by
  induction names with
  | nil =>
      rw [List.intercalate_nil, withPoints]
      rfl
  | cons name names ih =>
      have hname := hfree name List.mem_cons_self
      have hseparator :=
        ne_nil_of_isFreeOf hname (hne name List.mem_cons_self)
      cases names with
      | nil =>
          rw [List.intercalate_singleton, withPoints_of_isFreeOf hname]
          exact List.intercalate_singleton.symm
      | cons next names =>
          rw [List.intercalate_cons_cons, withPoints_append hname hseparator,
            ih (fun n hn => hne n (List.mem_cons_of_mem name hn))
              fun n hn => hfree n (List.mem_cons_of_mem name hn),
            List.intercalate_cons_cons, List.append_assoc]
          rfl

theorem isNameChar_of_isLower
    {c : Char} (h : c.isLower = true ∨ c = '_') : isNameChar c = true := by
  rcases h with h | rfl
  · simp [isNameChar, Char.isAlphanum, Char.isAlpha, h]
  · decide

/-- Names with points between them are the steps to take. -/
theorem steps?_intercalate
    {names : List String} (hnil : names ≠ []) (hne : ∀ name ∈ names, name ≠ "")
    (hlower : ∀ name ∈ names, ∀ c ∈ name.toList, c.isLower = true ∨ c = '_') :
    steps? ('.' :: ['.'].intercalate (names.map String.toList)) =
      some (names.map .name) := by
  induction names with
  | nil => exact absurd rfl hnil
  | cons name names ih =>
      have hchars : ∀ c ∈ name.toList, isNameChar c = true := fun c hc =>
        isNameChar_of_isLower (hlower name List.mem_cons_self c hc)
      have hempty : name.toList.isEmpty = false := by
        simpa using hne name List.mem_cons_self
      cases names with
      | nil =>
          rw [List.map_singleton, List.intercalate_singleton, steps?]
          simp only [List.takeWhile_eq_self_iff.mpr hchars,
            List.dropWhile_eq_nil_iff.mpr hchars, hempty, steps?]
          simp
      | cons next names =>
          have hrest := ih (List.cons_ne_nil _ _)
            (fun n hn => hne n (List.mem_cons_of_mem name hn))
            fun n hn => hlower n (List.mem_cons_of_mem name hn)
          have hpoint (tail : List Char) :
              ∀ d, ('.' :: tail).head? = some d → isNameChar d = false := by
            rintro d ⟨⟩
            decide
          rw [List.map_cons, List.map_cons, List.intercalate_cons_cons,
            List.append_assoc, List.singleton_append, ← List.map_cons, steps?]
          simp only [Text.takeWhile_append_eq hchars (hpoint _),
            Text.dropWhile_append_eq hchars (hpoint _), hempty, hrest]
          simp

/-! ## Small letters -/

theorem toNat_toLower_lt {c : Char} (h : c.toNat < 0x80) :
    c.toLower.toNat < 0x80 := by
  rw [← Char.ofNat_toNat c]
  generalize c.toNat = code at h
  interval_cases code <;> decide

theorem smallLetter_eq_toLower
    {c : Char} (h : c.toLower.toNat < 0x80) : smallLetter c = c.toLower := by
  refine if_neg ?_
  rintro rfl
  exact absurd h (by decide)

theorem map_smallLetter
    {s : String} (h : Text.IsAscii s.toLower) :
    s.toList.map smallLetter = s.toLower.toList := by
  rw [String.toLower, String.toList_map]
  refine List.map_congr_left fun c hc => smallLetter_eq_toLower (h _ ?_)
  rw [String.toLower, String.toList_map]
  exact List.mem_map_of_mem hc

theorem isAscii_toLower {s : String} (h : Text.IsAscii s) :
    Text.IsAscii s.toLower := by
  intro c hc
  rw [String.toLower, String.toList_map] at hc
  obtain ⟨d, hd, rfl⟩ := List.mem_map.mp hc
  exact toNat_toLower_lt (h d hd)

/-! ## What variables set -/

theorem path?_of_isNamedAfter
    {scheme : VariableScheme} {names : List String} {variableName : String}
    (h : scheme.IsNamedAfter names variableName) :
    path? scheme variableName = some (names.map .name) := by
  obtain ⟨hascii, hnil, hne, hlower, hfree, heq⟩ := h
  have hsmall := isAscii_toLower hascii
  have hlist := congrArg String.toList heq
  rw [String.toList_append, String.toList_intercalate] at hlist
  have hbeginning : Text.IsAscii (scheme.beginning ++ scheme.joint).toLower := by
    intro c hc
    apply hsmall
    rw [hlist]
    exact List.mem_append_left _ hc
  have hpoints : withPoints scheme.separator.toList
      (scheme.separator.toList.intercalate (names.map String.toList)) =
        ['.'].intercalate (names.map String.toList) := by
    apply withPoints_intercalate
    · simpa using hne
    · simpa using hfree
  simp only [path?, map_smallLetter hsmall, map_smallLetter hbeginning, hlist,
    List.isPrefixOf_iff_prefix.mpr (List.prefix_append _ _), if_true,
    List.drop_left, hpoints, steps?_intercalate hnil hne hlower]

theorem path?_of_not_isPrefix
    {scheme : VariableScheme} {variableName : String}
    (hbeginning : Text.IsAscii (scheme.beginning ++ scheme.joint))
    (hname : Text.IsAscii variableName)
    (h : ¬(scheme.beginning ++ scheme.joint).toLower.toList <+:
      variableName.toLower.toList) : path? scheme variableName = none := by
  simp only [path?, map_smallLetter (isAscii_toLower hbeginning),
    map_smallLetter (isAscii_toLower hname)]
  exact if_neg (mt List.isPrefixOf_iff_prefix.mp h)

/-- The path of a variable begins with a name. -/
theorem begins_of_path?
    {scheme : VariableScheme} {variableName : String} {path : SettingPath}
    (h : path? scheme variableName = some path) :
    ∃ name rest, path = .name name :: rest := by
  unfold path? at h
  dsimp only at h
  split at h
  · rw [steps?] at h
    split at h
    · cases h
    · obtain ⟨rest, -, rfl⟩ := Option.map_eq_some_iff.mp h
      exact ⟨_, rest, rfl⟩
  · cases h

end Variable

/-- The plain library does what libraries of settings say of themselves. -/
theorem isLawful_library : library.IsLawful where
  put_nil_of_not_isTable _ t hu := overlay_of_not_isTable hu t
  isTable_put_nil u t := by
    rintro ⟨members, rfl⟩
    exact ⟨overlayMembers t.members members, overlay_branch t members⟩
  member?_put_nil _ t name hu := member?_overlay hu t name
  isTable_put_name _ _ _ _ := ⟨_, rfl⟩
  member?_put_name := member?_put_name
  put_item _ _ _ _ := ⟨_, rfl⟩
  file?_of_lookup isRequired _ _ _ _ hname hslash hlookup :=
    file?_of_lookup isRequired hname hslash hlookup
  file?_of_forall_not_isInfix _ directory _ _ hslash habsent :=
    file?_of_forall_not_isInfix hslash habsent directory
  begins_of_file? _ _ _ _ := begins_of_file?
  assignment?_of_isNamedAfter scheme names v h := by
    simp only [library, Variable.set?, Variable.path?_of_isNamedAfter h,
      Option.map_some]
  assignment?_of_not_isPrefix scheme v hbeginning hname h := by
    simp only [library, Variable.set?,
      Variable.path?_of_not_isPrefix hbeginning hname h, Option.map_none]
  begins_of_assignment? scheme v a h := by
    obtain ⟨path, hpath, rfl⟩ := Option.map_eq_some_iff.mp h
    exact Variable.begins_of_path? hpath

end Rulebook.Plain
