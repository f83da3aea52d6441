import Mathlib
import Rulebook.Proofs.Tables
import Rulebook.Store.Basic

/-!
# The store as a registry

A registry is what the store is meant to be: a finite map from ids to entries,
and the number of entries that were made. An entry is made when a rule has an
id, a name that is not all blank, and a text that can be read; it records the
rule as given, its expression, the set of its fields, and its number.

Every sequence of calls is answered by the store as by the registry, and leaves
both with the same entries. A call that fails leaves the store as it was.
-/

namespace Rulebook

/-! ## The registry -/

/-- What is recorded of a rule. -/
structure RegistryEntry where
  rule : Rule
  expression : Expression
  fields : Finset String
  version : Nat

/-- Entries under ids, and the number of entries made so far. -/
structure Registry where
  entries : Finmap fun _ : String => RegistryEntry
  count : Nat

/-- A call that writes a rule. -/
inductive StoreCall where
  | load (r : Rule)
  | update (r : Rule)
  | insert (r : Rule)
  | replace (r : Rule)

/-- The rule that a call is to write. -/
def StoreCall.rule : StoreCall → Rule
  | .load r | .update r | .insert r | .replace r => r

/-- The entry for a rule, or the first reason that there is none. -/
def Rule.entry (version : Nat) (r : Rule) : Except RuleError RegistryEntry :=
  if r.id = "" then .error (.invalid .emptyId)
  else if ∀ c ∈ r.name.toList, Text.isBlank c = true then
    .error (.invalid .blankName)
  else
    match Expression.ofText r.text with
    | .error cause => .error (.unreadable cause)
    | .ok e => .ok ⟨r, e, (e.conditions.map Condition.field).toFinset, version⟩

namespace Registry

/-- The registry without entries. -/
def empty : Registry := ⟨∅, 0⟩

/-- The entry under an id, which has to be there. -/
def find (l : Registry) (id : String) : Except RuleError RegistryEntry :=
  match l.entries.lookup id with
  | some entry => .ok entry
  | none => .error (.notFound id)

/-- Makes the next entry, and puts it under the id of its rule. -/
def load (l : Registry) (r : Rule) : Except RuleError RegistryEntry × Registry :=
  match r.entry (l.count + 1) with
  | .error cause => (.error cause, l)
  | .ok entry => (.ok entry, ⟨l.entries.insert r.id entry, l.count + 1⟩)

/-- Makes the next entry if there is one under the id of its rule; if there is
none, that is the error, whatever else is wrong with the rule. -/
def replace (l : Registry) (r : Rule) : Except RuleError RegistryEntry × Registry :=
  match l.entries.lookup r.id with
  | none => (.error (.notFound r.id), l)
  | some _ => l.load r

/-- Does what a call says. -/
def perform (l : Registry) :
    StoreCall → Except RuleError RegistryEntry × Registry
  | .load r | .insert r => l.load r
  | .update r | .replace r => l.replace r

/-- The answers to a list of calls, and the registry behind them. -/
def run (l : Registry) :
    List StoreCall → List (Except RuleError RegistryEntry) × Registry
  | [] => ([], l)
  | call :: calls =>
    let behind := (l.perform call).2.run calls
    ((l.perform call).1 :: behind.1, behind.2)

/-- The entries under the given ids; the first one without an entry is the
error. -/
def findAll (l : Registry) (ids : List String) :
    Except RuleError (List RegistryEntry) :=
  ids.mapM l.find

/-- A sum over all entries. -/
def total (l : Registry) (weight : RegistryEntry → Nat) : Nat :=
  ∑ id ∈ l.entries.keys, ((l.entries.lookup id).map weight).getD 0

/-- The number of entries, of those whose rule has parents, and of their
fields. -/
def statistics (l : Registry) : Statistics where
  rules := l.entries.keys.card
  combined := l.total fun entry => if entry.rule.parents = [] then 0 else 1
  fields := l.total fun entry => entry.fields.card

end Registry

/-! ## Calls on a store -/

namespace Store

/-- The answer and the store behind it; if the answer is an error, the store is
kept. -/
def keep (s : Store) :
    Except RuleError (CompiledRule × Store) →
      Except RuleError CompiledRule × Store
  | .error cause => (.error cause, s)
  | .ok (c, t) => (.ok c, t)

/-- Does what a call says. -/
def perform (s : Store) :
    StoreCall → Except RuleError CompiledRule × Store
  | .load r | .insert r => s.keep (s.load r)
  | .update r | .replace r => s.keep (s.replace r)

/-- The answers to a list of calls, and the store behind them. -/
def run (s : Store) :
    List StoreCall → List (Except RuleError CompiledRule) × Store
  | [] => ([], s)
  | call :: calls =>
    let behind := (s.perform call).2.run calls
    ((s.perform call).1 :: behind.1, behind.2)

end Store

/-- What a compiled rule records. -/
def CompiledRule.entry (c : CompiledRule) : RegistryEntry :=
  ⟨c.rule, c.expression, c.requiredFields.toFinset, c.version⟩

/-! ## Compiling a rule makes its entry -/

theorem Text.trim_eq_empty_iff (s : String) :
    trim s = "" ↔ ∀ c ∈ s.toList, isBlank c = true := by
  have hempty : trim s = "" ↔
      dropBlanks (dropBlanks s.toList).reverse = [] := by
    rw [trim, ← String.ofList_nil, String.ofList_inj, List.reverse_eq_nil_iff]
  rw [hempty, dropBlanks, List.dropWhile_eq_nil_iff]
  constructor
  · intro h
    rw [← List.dropWhile_eq_nil_iff]
    by_contra hne
    -- What is left begins with a character that is not blank.
    have hfirst := List.head_dropWhile_not isBlank hne
    rw [h _ (List.mem_reverse.mpr (List.head_mem hne))] at hfirst
    cases hfirst
  · intro h c hc
    exact h c ((List.dropWhile_suffix isBlank).subset (List.mem_reverse.mp hc))

theorem Expression.mem_fields_iff (e : Expression) (field : String) :
    field ∈ e.fields ↔ ∃ c ∈ e.conditions, c.field = field := by
  rw [fields, Table.mem_names_ofList]
  simp

theorem Expression.nodup_fields (e : Expression) : e.fields.Nodup :=
  Table.nodup_names _

theorem Expression.toFinset_fields (e : Expression) :
    e.fields.toFinset = (e.conditions.map Condition.field).toFinset := by
  ext field
  simp [e.mem_fields_iff]

theorem Rule.map_entry_compile (version : Nat) (r : Rule) :
    (r.compile version).map CompiledRule.entry = r.entry version := by
  unfold compile defect? entry
  by_cases hid : r.id = ""
  · rw [if_pos hid, if_pos hid]
    rfl
  · by_cases hname : ∀ c ∈ r.name.toList, Text.isBlank c = true
    · rw [if_neg hid, if_neg hid, if_pos hname,
        if_pos ((Text.trim_eq_empty_iff r.name).mpr hname)]
      rfl
    · rw [if_neg hid, if_neg hid, if_neg hname,
        if_neg (mt (Text.trim_eq_empty_iff r.name).mp hname)]
      cases Expression.ofText r.text with
      | error cause => rfl
      | ok e => simp [Except.map, CompiledRule.entry, e.toFinset_fields]

/-- A compiled rule is faithful if it may be stored, its expression is what its
text spells, and its fields are those of the expression, each once. -/
structure CompiledRule.IsFaithful (c : CompiledRule) : Prop where
  id_ne_empty : c.rule.id ≠ ""
  name_not_blank : ¬∀ d ∈ c.rule.name.toList, Text.isBlank d = true
  ofText_eq : Expression.ofText c.rule.text = .ok c.expression
  mem_requiredFields_iff : ∀ field, field ∈ c.requiredFields ↔
    ∃ d ∈ c.expression.conditions, d.field = field
  nodup_requiredFields : c.requiredFields.Nodup

theorem Rule.compile_eq_ok
    {version : Nat} {r : Rule} {c : CompiledRule}
    (h : r.compile version = .ok c) :
    c.rule = r ∧ c.version = version ∧ c.IsFaithful := by
  unfold compile at h
  cases hdefect : r.defect? with
  | some defect =>
      rw [hdefect] at h
      cases h
  | none =>
      cases hread : Expression.ofText r.text with
      | error cause =>
          rw [hdefect, hread] at h
          cases h
      | ok e =>
          rw [hdefect, hread] at h
          cases h
          unfold defect? at hdefect
          refine ⟨rfl, rfl, ?_, ?_, hread, e.mem_fields_iff, e.nodup_fields⟩
          · intro hid
            rw [if_pos hid] at hdefect
            cases hdefect
          · intro hname
            rw [if_pos ((Text.trim_eq_empty_iff r.name).mpr hname)] at hdefect
            split at hdefect <;> cases hdefect

/-! ## What a call does to a store -/

namespace Store

variable {s : Store} {l : Registry}

/-- The store behind the compilation of a rule. -/
def record (s : Store) (c : CompiledRule) : Store :=
  ⟨s.rules.insert c.rule.id c, s.compilations + 1⟩

theorem get?_record (s : Store) (c : CompiledRule) (id : String) :
    (s.record c).get? id = if c.rule.id = id then some c else s.get? id :=
  Table.get?_insert s.rules c.rule.id id c

theorem load_eq_map_compile (s : Store) (r : Rule) :
    s.load r =
      (r.compile (s.compilations + 1)).map fun c => (c, s.record c) := by
  unfold load compile
  cases r.compile (s.compilations + 1) with
  | error cause => rfl
  | ok c => rfl

/-- A call fails and keeps the store, or it compiles its rule with the next
number and records it. -/
theorem perform_cases (s : Store) (call : StoreCall) :
    (∃ cause, s.perform call = (.error cause, s)) ∨
      ∃ c, call.rule.compile (s.compilations + 1) = .ok c ∧
        s.perform call = (.ok c, s.record c) := by
  have hload (r : Rule) :
      (∃ cause, s.keep (s.load r) = (.error cause, s)) ∨
        ∃ c, r.compile (s.compilations + 1) = .ok c ∧
          s.keep (s.load r) = (.ok c, s.record c) := by
    rw [load_eq_map_compile]
    cases r.compile (s.compilations + 1) with
    | error cause => exact .inl ⟨cause, rfl⟩
    | ok c => exact .inr ⟨c, rfl, rfl⟩
  have hreplace (r : Rule) :
      (∃ cause, s.keep (s.replace r) = (.error cause, s)) ∨
        ∃ c, r.compile (s.compilations + 1) = .ok c ∧
          s.keep (s.replace r) = (.ok c, s.record c) := by
    unfold replace
    split
    · exact hload r
    · exact .inl ⟨_, rfl⟩
  cases call with
  | load r => exact hload r
  | insert r => exact hload r
  | update r => exact hreplace r
  | replace r => exact hreplace r

/-- A store has recorded a rule if the rule is under its id with the next
number, and all other ids have what they had. -/
structure Records (s t : Store) (c : CompiledRule) : Prop where
  version_eq : c.version = s.compilations + 1
  compilations_eq : t.compilations = s.compilations + 1
  get?_own : t.get? c.rule.id = some c
  get?_other : ∀ id, id ≠ c.rule.id → t.get? id = s.get? id

theorem records_record
    {c : CompiledRule} (h : c.version = s.compilations + 1) :
    s.Records (s.record c) c := by
  refine ⟨h, rfl, ?_, fun id hid => ?_⟩
  · rw [get?_record, if_pos rfl]
  · rw [get?_record, if_neg (Ne.symm hid)]

/-! ## Stores without contradictions -/

/-- A store is consistent if all its rules stand under their ids and are
faithful, and their numbers are different ones among those given out. -/
structure IsConsistent (s : Store) : Prop where
  id_eq : ∀ id c, s.get? id = some c → c.rule.id = id
  isFaithful : ∀ id c, s.get? id = some c → c.IsFaithful
  version_pos : ∀ id c, s.get? id = some c → 1 ≤ c.version
  version_le : ∀ id c, s.get? id = some c → c.version ≤ s.compilations
  version_injective : ∀ id other c d, s.get? id = some c →
    s.get? other = some d → c.version = d.version → id = other

theorem isConsistent_empty : empty.IsConsistent where
  id_eq id c h := by cases h
  isFaithful id c h := by cases h
  version_pos id c h := by cases h
  version_le id c h := by cases h
  version_injective id other c d h := by cases h

theorem IsConsistent.record
    (h : s.IsConsistent) {c : CompiledRule} (hfaithful : c.IsFaithful)
    (hversion : c.version = s.compilations + 1) :
    (s.record c).IsConsistent := by
  have hcases (id : String) (d : CompiledRule)
      (hd : (s.record c).get? id = some d) :
      c.rule.id = id ∧ d = c ∨ s.get? id = some d := by
    rw [get?_record] at hd
    split at hd
    · next hid => exact .inl ⟨hid, (Option.some.inj hd).symm⟩
    · exact .inr hd
  constructor
  · intro id d hd
    rcases hcases id d hd with ⟨hid, rfl⟩ | hold
    · exact hid
    · exact h.id_eq id d hold
  · intro id d hd
    rcases hcases id d hd with ⟨-, rfl⟩ | hold
    · exact hfaithful
    · exact h.isFaithful id d hold
  · intro id d hd
    rcases hcases id d hd with ⟨-, rfl⟩ | hold
    · omega
    · exact h.version_pos id d hold
  · intro id d hd
    change d.version ≤ s.compilations + 1
    rcases hcases id d hd with ⟨-, rfl⟩ | hold
    · omega
    · have := h.version_le id d hold
      omega
  · intro id other d e hd he heq
    -- The new number is larger than all that are there.
    rcases hcases id d hd with ⟨hid, rfl⟩ | hold
    · rcases hcases other e he with ⟨hother, -⟩ | hother
      · rw [← hid, hother]
      · have := h.version_le other e hother
        omega
    · rcases hcases other e he with ⟨hother, rfl⟩ | hother
      · have := h.version_le id d hold
        omega
      · exact h.version_injective id other d e hold hother heq

theorem IsConsistent.perform
    (h : s.IsConsistent) (call : StoreCall) :
    (s.perform call).2.IsConsistent := by
  rcases s.perform_cases call with ⟨cause, hfails⟩ | ⟨c, hcompile, hrecords⟩
  · rw [hfails]
    exact h
  · obtain ⟨-, hversion, hfaithful⟩ := Rule.compile_eq_ok hcompile
    rw [hrecords]
    exact h.record hfaithful hversion

theorem IsConsistent.run
    (h : s.IsConsistent) (calls : List StoreCall) :
    (s.run calls).2.IsConsistent := by
  induction calls generalizing s with
  | nil => exact h
  | cons call calls ih => exact ih (h.perform call)

/-! ## Stores and registries -/

/-- A store agrees with a registry on what is under every id, and on the number
of entries made. -/
structure Agrees (s : Store) (l : Registry) : Prop where
  get?_eq : ∀ id, (s.get? id).map CompiledRule.entry = l.entries.lookup id
  compilations_eq : s.compilations = l.count

theorem agrees_empty : empty.Agrees .empty where
  get?_eq _ := rfl
  compilations_eq := rfl

theorem Agrees.record
    (h : s.Agrees l) (c : CompiledRule) :
    (s.record c).Agrees
      ⟨l.entries.insert c.rule.id c.entry, l.count + 1⟩ := by
  constructor
  · intro id
    rw [get?_record]
    by_cases hid : c.rule.id = id
    · subst hid
      rw [if_pos rfl, Finmap.lookup_insert]
      rfl
    · rw [if_neg hid, Finmap.lookup_insert_of_ne _ (Ne.symm hid), h.get?_eq]
  · change s.compilations + 1 = l.count + 1
    rw [h.compilations_eq]

theorem Agrees.keep_load
    (h : s.Agrees l) (r : Rule) :
    (s.keep (s.load r)).1.map CompiledRule.entry = (l.load r).1 ∧
      (s.keep (s.load r)).2.Agrees (l.load r).2 := by
  rw [load_eq_map_compile, Registry.load, ← h.compilations_eq,
    ← r.map_entry_compile]
  cases hcompile : r.compile (s.compilations + 1) with
  | error cause => exact ⟨rfl, h⟩
  | ok c =>
      obtain ⟨hrule, -, -⟩ := Rule.compile_eq_ok hcompile
      have hrecord := h.record c
      rw [hrule, ← h.compilations_eq] at hrecord
      exact ⟨rfl, hrecord⟩

theorem Agrees.keep_replace
    (h : s.Agrees l) (r : Rule) :
    (s.keep (s.replace r)).1.map CompiledRule.entry = (l.replace r).1 ∧
      (s.keep (s.replace r)).2.Agrees (l.replace r).2 := by
  have hpresent : s.rules.contains r.id = (l.entries.lookup r.id).isSome := by
    rw [← h.get?_eq, Option.isSome_map]
    rfl
  unfold replace Registry.replace
  rw [hpresent]
  cases l.entries.lookup r.id with
  | none => exact ⟨rfl, h⟩
  | some entry => exact h.keep_load r

/-- A call is answered by a store as by a registry with which it agrees, and
they still agree behind it. -/
theorem Agrees.perform
    (h : s.Agrees l) (call : StoreCall) :
    (s.perform call).1.map CompiledRule.entry = (l.perform call).1 ∧
      (s.perform call).2.Agrees (l.perform call).2 := by
  cases call with
  | load r => exact h.keep_load r
  | insert r => exact h.keep_load r
  | update r => exact h.keep_replace r
  | replace r => exact h.keep_replace r

theorem Agrees.run
    (h : s.Agrees l) (calls : List StoreCall) :
    (s.run calls).1.map (Except.map CompiledRule.entry) = (l.run calls).1 ∧
      (s.run calls).2.Agrees (l.run calls).2 := by
  induction calls generalizing s l with
  | nil => exact ⟨rfl, h⟩
  | cons call calls ih =>
      obtain ⟨hanswer, hbehind⟩ := h.perform call
      obtain ⟨hanswers, hend⟩ := ih hbehind
      refine ⟨?_, hend⟩
      rw [run, Registry.run, List.map_cons, hanswer, hanswers]

/-! ## What can be seen of a store -/

theorem Agrees.map_entry_find
    (h : s.Agrees l) (id : String) :
    (s.find id).map CompiledRule.entry = l.find id := by
  rw [find, Registry.find, ← h.get?_eq]
  cases s.get? id with
  | none => rfl
  | some c => rfl

theorem Agrees.map_entry_findAll
    (h : s.Agrees l) (ids : List String) :
    (s.findAll ids).map (List.map CompiledRule.entry) = l.findAll ids := by
  unfold findAll Registry.findAll
  induction ids with
  | nil => rfl
  | cons id ids ih =>
      rw [List.mapM_cons, List.mapM_cons, ← h.map_entry_find, ← ih]
      cases s.find id with
      | error cause => rfl
      | ok c =>
          cases ids.mapM s.find with
          | error cause => rfl
          | ok cs => rfl

theorem Agrees.names_eq_keys
    (h : s.Agrees l) : s.rules.names.toFinset = l.entries.keys := by
  ext id
  rw [List.mem_toFinset, Table.mem_names_iff, Finmap.mem_keys,
    ← Finmap.lookup_isSome, ← h.get?_eq, Option.isSome_map]
  rfl

theorem Agrees.sum_values
    (h : s.Agrees l) (weight : RegistryEntry → Nat) :
    (s.rules.values.map fun c => weight c.entry).sum = l.total weight := by
  rw [Table.sum_values, h.names_eq_keys, Registry.total]
  refine Finset.sum_congr rfl fun id hid => ?_
  rw [← h.get?_eq, Option.map_map]
  rfl

theorem countP_eq_sum
    {α : Type} (p : α → Bool) (xs : List α) :
    xs.countP p = (xs.map fun x => if p x = true then 1 else 0).sum := by
  induction xs with
  | nil => rfl
  | cons x xs ih =>
      rw [List.countP_cons, List.map_cons, List.sum_cons, ih, Nat.add_comm]

theorem IsConsistent.faithful_of_mem_values
    (h : s.IsConsistent) {c : CompiledRule} (hc : c ∈ s.rules.values) :
    c.IsFaithful := by
  obtain ⟨id, hid⟩ := (s.rules.mem_values_iff c).mp hc
  exact h.isFaithful id c hid

theorem Agrees.statistics_eq
    (h : s.Agrees l) (hs : s.IsConsistent) : s.statistics = l.statistics := by
  have hrules : s.rules.size = l.entries.keys.card := by
    rw [← h.names_eq_keys, Table.card_names]
  have hcombined :
      (s.rules.values.countP fun c => !c.rule.parents.isEmpty) =
        l.total fun entry => if entry.rule.parents = [] then 0 else 1 := by
    rw [← h.sum_values, countP_eq_sum]
    refine congrArg List.sum (List.map_congr_left fun c hc => ?_)
    cases hparents : c.rule.parents <;>
      simp [CompiledRule.entry, hparents]
  have hfields :
      (s.rules.values.flatMap CompiledRule.requiredFields).length =
        l.total fun entry => entry.fields.card := by
    rw [← h.sum_values, List.length_flatMap]
    refine congrArg List.sum (List.map_congr_left fun c hc => ?_)
    have hnodup := (hs.faithful_of_mem_values hc).nodup_requiredFields
    exact (List.toFinset_card_of_nodup hnodup).symm
  rw [statistics, Registry.statistics, hrules, hcombined, hfields]

theorem mem_listing_iff_exists (s : Store) (r : Rule) :
    r ∈ s.listing ↔ ∃ id c, s.get? id = some c ∧ c.rule = r := by
  rw [listing, List.mem_mergeSort, List.mem_map]
  constructor
  · rintro ⟨c, hc, rfl⟩
    obtain ⟨id, hid⟩ := (s.rules.mem_values_iff c).mp hc
    exact ⟨id, c, hid, rfl⟩
  · rintro ⟨id, c, hid, rfl⟩
    exact ⟨c, (s.rules.mem_values_iff c).mpr ⟨id, hid⟩, rfl⟩

theorem Agrees.mem_listing_iff
    (h : s.Agrees l) (r : Rule) :
    r ∈ s.listing ↔
      ∃ id entry, l.entries.lookup id = some entry ∧ entry.rule = r := by
  rw [mem_listing_iff_exists]
  constructor
  · rintro ⟨id, c, hid, rfl⟩
    refine ⟨id, c.entry, ?_, rfl⟩
    rw [← h.get?_eq, hid]
    rfl
  · rintro ⟨id, entry, hentry, rfl⟩
    rw [← h.get?_eq, Option.map_eq_some_iff] at hentry
    obtain ⟨c, hc, rfl⟩ := hentry
    exact ⟨id, c, hc, rfl⟩

theorem map_id_rules
    (h : ∀ id c, s.get? id = some c → c.rule.id = id) :
    (s.rules.values.map CompiledRule.rule).map Rule.id = s.rules.names := by
  rw [Table.values, Table.names, List.map_map, List.map_map]
  refine List.map_congr_left ?_
  rintro ⟨id, c⟩ hmem
  exact h id c ((s.rules.get?_eq_some_iff id c).mpr hmem)

theorem nodup_listing
    (h : ∀ id c, s.get? id = some c → c.rule.id = id) : s.listing.Nodup := by
  have hnodup : (s.rules.values.map CompiledRule.rule).Nodup := by
    apply List.Nodup.of_map Rule.id
    rw [map_id_rules h]
    exact s.rules.nodup_names
  exact (List.mergeSort_perm _ _).nodup_iff.mpr hnodup

/-- A store shows a registry if whatever can be asked about it has the answer
that the registry gives. -/
structure Shows (s : Store) (l : Registry) : Prop where
  get?_eq : ∀ id, (s.get? id).map CompiledRule.entry = l.entries.lookup id
  compilations_eq : s.compilations = l.count
  findAll_eq : ∀ ids,
    (s.findAll ids).map (List.map CompiledRule.entry) = l.findAll ids
  statistics_eq : s.statistics = l.statistics
  mem_listing_iff : ∀ r, r ∈ s.listing ↔
    ∃ id entry, l.entries.lookup id = some entry ∧ entry.rule = r
  nodup_listing : s.listing.Nodup

theorem Agrees.shows
    (h : s.Agrees l) (hs : s.IsConsistent) : s.Shows l where
  get?_eq := h.get?_eq
  compilations_eq := h.compilations_eq
  findAll_eq := h.map_entry_findAll
  statistics_eq := h.statistics_eq hs
  mem_listing_iff := h.mem_listing_iff
  nodup_listing := Store.nodup_listing hs.id_eq

/-- Any calls are answered by a new store as by the empty registry. Behind them
the store shows the registry and is consistent, and the next call either fails
and keeps the store, or records its rule and nothing else. -/
theorem run_refines_registry (calls : List StoreCall) :
    (empty.run calls).1.map (Except.map CompiledRule.entry) =
        (Registry.empty.run calls).1 ∧
      (empty.run calls).2.Shows (Registry.empty.run calls).2 ∧
      (empty.run calls).2.IsConsistent ∧
      ∀ call, match (empty.run calls).2.perform call with
        | (.error _, t) => t = (empty.run calls).2
        | (.ok c, t) =>
          c.rule = call.rule ∧ (empty.run calls).2.Records t c := by
  obtain ⟨hanswers, hagrees⟩ := agrees_empty.run calls
  have hconsistent := isConsistent_empty.run calls
  refine ⟨hanswers, hagrees.shows hconsistent, hconsistent, fun call => ?_⟩
  rcases perform_cases _ call with ⟨cause, hfails⟩ | ⟨c, hcompile, hrecords⟩
  · rw [hfails]
  · obtain ⟨hrule, hversion, -⟩ := Rule.compile_eq_ok hcompile
    rw [hrecords]
    exact ⟨hrule, records_record hversion⟩

end Store

end Rulebook
