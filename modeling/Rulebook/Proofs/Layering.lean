import Mathlib
import Rulebook.Proofs.Overlays
import Rulebook.Proofs.PlainLibrary
import Rulebook.Settings.Load

/-!
# Layers of settings

Settings come in layers: variables count more than the file of the service, this
more than the file of the environment, this more than the common file, and that
more than the names that were given. One layer is laid over another one name by
name. So what counts for a setting is what the highest layer binds that binds
anything to it, and this alone is converted. It does not matter what lower layers
bind to it, or what any layer binds to other settings.

This holds as long as the names of sections are not used for anything else. Then
all that is laid over what stands in a section are other tables. It holds of
every lawful library.
-/

namespace Rulebook

namespace Settings

/-- The names of sections. -/
def sections : List String := ["server", "observability", "rules"]

/-- Whether names can lead to a setting: directly, or in a section. -/
def isKey : List String → Bool
  | [_] => true
  | [outer, _] => sections.contains outer
  | _ => false

end Settings

namespace SettingLayer

/-- What a layer binds where names lead. If it binds something there several
times, the last one counts. -/
def bound? (layer : SettingLayer) (names : List String) :
    Option (Option SettingValue) :=
  layer.reverse.findSome? fun a => SettingPath.bound? a.1 a.2 names

/-- Whether the names of sections are only used for tables in a layer. -/
structure KeepsSections (layer : SettingLayer) : Prop where
  isTable : ∀ a ∈ layer, ∀ name ∈ Settings.sections,
    a.1 = [.name name] → a.2.IsTable
  ne_item : ∀ a ∈ layer, ∀ name ∈ Settings.sections, ∀ position rest,
    a.1 ≠ .name name :: .item position :: rest

/-- Whether all paths in a layer begin with names. -/
def Begins (layer : SettingLayer) : Prop :=
  ∀ a ∈ layer, ∃ name rest, a.1 = .name name :: rest

end SettingLayer

/-! ## The highest layer counts -/

namespace SettingLayer

variable {layer : SettingLayer} {names : List String}

/-- What a layer puts anywhere leaves tables on the way to all settings. -/
theorem KeepsSections.opens
    (hkeeps : layer.KeepsSections) (hbegins : layer.Begins)
    (hkey : Settings.isKey names = true) :
    ∀ a ∈ layer, SettingPath.Opens a.1 a.2 names := by
  rintro ⟨path, u⟩ ha
  obtain ⟨step, rest, rfl⟩ : ∃ step rest, path = .name step :: rest :=
    hbegins (path, u) ha
  match names, hkey with
  | [key], _ => exact fun _ => SettingPath.opens_nil rest u
  | [outer, key], hkey =>
      rintro rfl
      have hsection := List.contains_iff_mem.mp hkey
      match rest with
      | [] => exact ⟨hkeeps.isTable _ ha outer hsection rfl, fun _ _ => trivial⟩
      | .name inner :: rest => exact fun _ => SettingPath.opens_nil rest u
      | .item position :: rest =>
          exact absurd rfl (hkeeps.ne_item _ ha outer hsection position rest)

end SettingLayer

namespace SettingLibrary

variable {lib : SettingLibrary} {names : List String}

/-- Things that are put into a tree one after another: what the last one binds
that binds anything counts, and otherwise what was bound before. -/
theorem bound?_foldl
    {α : Type} {lay : SettingTree → α → SettingTree}
    {binds : α → Option (Option SettingValue)} (layers : List α) {t : SettingTree}
    (hlay : ∀ layer ∈ layers, ∀ t : SettingTree, t.Opens names →
      (lay t layer).bound? names = (binds layer).or (t.bound? names) ∧
        (lay t layer).Opens names)
    (ht : t.Opens names) :
    (layers.foldl lay t).bound? names =
        (layers.reverse.findSome? binds).or (t.bound? names) ∧
      (layers.foldl lay t).Opens names := by
  induction layers generalizing t with
  | nil => exact ⟨rfl, ht⟩
  | cons layer rest ih =>
      obtain ⟨hone, hopens⟩ := hlay layer List.mem_cons_self t ht
      obtain ⟨hbound, hall⟩ :=
        ih (fun w hw => hlay w (List.mem_cons_of_mem layer hw)) hopens
      refine ⟨?_, hall⟩
      rw [List.foldl_cons, hbound, hone, List.reverse_cons, List.findSome?_append,
        Option.or_assoc, List.findSome?_singleton]

/-- What counts is what the highest layer binds that binds anything. -/
theorem IsLawful.bound?_build
    (hlib : lib.IsLawful) {layers : List SettingLayer}
    (hkeeps : ∀ layer ∈ layers, layer.KeepsSections)
    (hbegins : ∀ layer ∈ layers, layer.Begins)
    (hkey : Settings.isKey names = true) :
    (lib.build layers).bound? names =
        layers.reverse.findSome? (fun layer => layer.bound? names) ∧
      (lib.build layers).Opens names := by
  have hempty : (SettingTree.branch []).Opens names ∧
      (SettingTree.branch []).bound? names = none := by
    match names, hkey with
    | [key], _ => exact ⟨⟨SettingTree.isTable_branch [], nofun⟩, rfl⟩
    | [outer, key], _ => exact ⟨⟨SettingTree.isTable_branch [], nofun⟩, rfl⟩
  have hlayer : ∀ layer ∈ layers, ∀ t : SettingTree, t.Opens names →
      (layer.foldl (fun t a => lib.put a.1 a.2 t) t).bound? names =
          (layer.bound? names).or (t.bound? names) ∧
        (layer.foldl (fun t a => lib.put a.1 a.2 t) t).Opens names := by
    intro layer hmem t ht
    refine bound?_foldl layer ?_ ht
    intro a ha t ht
    have hopens := (hkeeps layer hmem).opens (hbegins layer hmem) hkey a ha
    exact ⟨hlib.bound?_put names t hopens,
      hlib.opens_put names hopens (.inr ht)⟩
  obtain ⟨hbound, hopens⟩ := bound?_foldl layers hlayer hempty.1
  rw [build, List.foldl_flatten]
  refine ⟨?_, hopens⟩
  rw [hbound, hempty.2, Option.or_none]

end SettingLibrary

/-! ## Reading settings -/

/-- The kinds of settings. -/
inductive SettingKind where
  | text
  | number
  | port
  | truth

/-- Whether a library converts a value to a setting of some kind. -/
def SettingKind.accepts (lib : SettingLibrary) :
    SettingKind → SettingValue → Bool
  | .text, v => (lib.toText? v).isSome
  | .number, v => (lib.toNatural? v).isSome
  | .port, v => (lib.toPort? v).isSome
  | .truth, v => (lib.toBoolean? v).isSome

namespace Settings

/-- The names of all settings with their kinds. -/
def kinds : List (List String × SettingKind) :=
  [(["service_name"], .text), (["environment"], .text),
    (["server", "host"], .text), (["server", "port"], .port),
    (["observability", "service_name"], .text),
    (["observability", "log_level"], .text),
    (["observability", "json_logs"], .truth),
    (["observability", "metrics_enabled"], .truth),
    (["observability", "metrics_port"], .port),
    (["rules", "default_page_size"], .number),
    (["rules", "max_page_size"], .number),
    (["rules", "trace_evaluations"], .truth)]

theorem isKey_of_mem_kinds : ∀ entry ∈ kinds, isKey entry.1 = true := by
  decide

end Settings

/-- What is read from what is bound: its value converted, if it has one, and what
is usual if nothing is bound. -/
def readAs {α : Type} (convert : SettingValue → Option α) (usual : α) :
    Option (Option SettingValue) → Option α
  | some bound => bound.bind convert
  | none => some usual

/-- Whether something is bound that has no value that can be converted. -/
def SettingKind.Refuses (lib : SettingLibrary) (k : SettingKind)
    (bound : Option (Option SettingValue)) : Prop :=
  ∃ b, bound = some b ∧ b.any (k.accepts lib) = false

/-- Settings are read from what is bound to each of them, converted to its
type. -/
@[mk_iff areReadFrom_iff]
structure Settings.AreReadFrom (lib : SettingLibrary)
    (bound : List String → Option (Option SettingValue)) (s : Settings) : Prop where
  serviceName : readAs lib.toText? "" (bound ["service_name"]) =
    some s.serviceName
  environment : readAs lib.toText? "" (bound ["environment"]) =
    some s.environment
  host : readAs lib.toText? "0.0.0.0" (bound ["server", "host"]) =
    some s.server.host
  port : readAs lib.toPort? 8080 (bound ["server", "port"]) = some s.server.port
  observedName : readAs lib.toText? "unknown-service"
      (bound ["observability", "service_name"]) =
    some s.observability.serviceName
  logLevel : readAs lib.toText? "info" (bound ["observability", "log_level"]) =
    some s.observability.logLevel
  jsonLogs : readAs lib.toBoolean? false (bound ["observability", "json_logs"]) =
    some s.observability.jsonLogs
  metricsEnabled :
    readAs lib.toBoolean? true (bound ["observability", "metrics_enabled"]) =
      some s.observability.metricsEnabled
  metricsPort : readAs lib.toPort? 9090 (bound ["observability", "metrics_port"]) =
    some s.observability.metricsPort
  defaultPageSize :
    readAs lib.toNatural? 10 (bound ["rules", "default_page_size"]) =
      some s.rules.defaultPageSize
  maxPageSize : readAs lib.toNatural? 100 (bound ["rules", "max_page_size"]) =
    some s.rules.maxPageSize
  traceEvaluations :
    readAs lib.toBoolean? false (bound ["rules", "trace_evaluations"]) =
      some s.rules.traceEvaluations

/-- What is bound decides what is loaded: settings that are read from it, unless
some setting is refused. -/
structure Settings.IsDecidedBy (lib : SettingLibrary)
    (bound : List String → Option (Option SettingValue))
    (loaded : Option Settings) : Prop where
  eq_some_iff : ∀ s, loaded = some s ↔ s.AreReadFrom lib bound
  eq_none_iff : loaded = none ↔
    ∃ entry ∈ kinds, entry.2.Refuses lib (bound entry.1)

namespace SettingTree

variable {t : SettingTree} {name : String}

theorem convert?_eq {α : Type} (convert : SettingValue → Option α)
    (t : SettingTree) : t.convert? convert = t.value?.bind convert := by
  cases t <;> rfl

theorem setting_eq {α : Type} (ht : t.IsTable) (place : Nat) (name : String)
    (convert : SettingValue → Option α) (usual : α) :
    t.setting place name convert usual = readAs convert usual (t.bound? [name]) := by
  obtain ⟨members, rfl⟩ := ht
  have hpart : (branch members).part? place name = (branch members).member? name :=
    rfl
  rw [setting, hpart, bound?_cons]
  cases (branch members).member? name with
  | none => rfl
  | some part => exact part.convert?_eq convert

/-- The table under a name, which is empty if there is nothing. -/
def table (t : SettingTree) (name : String) : SettingTree :=
  (t.member? name).getD (.branch [])

theorem isTable_table (h : ∀ u, t.member? name = some u → u.IsTable) :
    (t.table name).IsTable := by
  unfold table
  cases hu : t.member? name with
  | none => exact ⟨[], rfl⟩
  | some u => exact h u hu

theorem bound?_table (t : SettingTree) (name inner : String) :
    (t.table name).bound? [inner] = t.bound? [name, inner] := by
  rw [t.bound?_cons, table]
  cases t.member? name <;> rfl

theorem sectionAt_eq
    {α : Type} {read : SettingTree → Option α} {usual : α}
    (h : ∀ u, t.member? name = some u → u.IsTable)
    (hread : read (.branch []) = some usual) :
    t.sectionAt name read usual = read (t.table name) := by
  unfold sectionAt table
  cases hu : t.member? name with
  | none => exact hread.symm
  | some u =>
      obtain ⟨members, rfl⟩ := h u hu
      rfl

end SettingTree

variable {lib : SettingLibrary}

theorem ServerSettings.ofTree?_eq_some_iff
    {t : SettingTree} (ht : t.IsTable) {s : ServerSettings} :
    ofTree? lib t = some s ↔
      readAs lib.toText? "0.0.0.0" (t.bound? ["host"]) = some s.host ∧
        readAs lib.toPort? 8080 (t.bound? ["port"]) = some s.port := by
  simp only [ofTree?, SettingTree.setting_eq ht, Option.bind_eq_bind,
    Option.bind_eq_some_iff, Option.pure_def, Option.some.injEq]
  constructor
  · rintro ⟨host, hhost, port, hport, rfl⟩
    exact ⟨hhost, hport⟩
  · rintro ⟨hhost, hport⟩
    exact ⟨_, hhost, _, hport, rfl⟩

theorem ObservabilitySettings.ofTree?_eq_some_iff
    {t : SettingTree} (ht : t.IsTable) {s : ObservabilitySettings} :
    ofTree? lib t = some s ↔
      readAs lib.toText? "unknown-service" (t.bound? ["service_name"]) =
          some s.serviceName ∧
        readAs lib.toText? "info" (t.bound? ["log_level"]) = some s.logLevel ∧
        readAs lib.toBoolean? false (t.bound? ["json_logs"]) = some s.jsonLogs ∧
        readAs lib.toBoolean? true (t.bound? ["metrics_enabled"]) =
          some s.metricsEnabled ∧
        readAs lib.toPort? 9090 (t.bound? ["metrics_port"]) = some s.metricsPort := by
  simp only [ofTree?, SettingTree.setting_eq ht, Option.bind_eq_bind,
    Option.bind_eq_some_iff, Option.pure_def, Option.some.injEq]
  constructor
  · rintro ⟨name, hname, level, hlevel, json, hjson, enabled, henabled, port,
      hport, rfl⟩
    exact ⟨hname, hlevel, hjson, henabled, hport⟩
  · rintro ⟨hname, hlevel, hjson, henabled, hport⟩
    exact ⟨_, hname, _, hlevel, _, hjson, _, henabled, _, hport, rfl⟩

theorem RuleSettings.ofTree?_eq_some_iff
    {t : SettingTree} (ht : t.IsTable) {s : RuleSettings} :
    ofTree? lib t = some s ↔
      readAs lib.toNatural? 10 (t.bound? ["default_page_size"]) =
          some s.defaultPageSize ∧
        readAs lib.toNatural? 100 (t.bound? ["max_page_size"]) = some s.maxPageSize ∧
        readAs lib.toBoolean? false (t.bound? ["trace_evaluations"]) =
          some s.traceEvaluations := by
  simp only [ofTree?, SettingTree.setting_eq ht, Option.bind_eq_bind,
    Option.bind_eq_some_iff, Option.pure_def, Option.some.injEq]
  constructor
  · rintro ⟨size, hsize, maximum, hmaximum, traced, htraced, rfl⟩
    exact ⟨hsize, hmaximum, htraced⟩
  · rintro ⟨hsize, hmaximum, htraced⟩
    exact ⟨_, hsize, _, hmaximum, _, htraced, rfl⟩

namespace Settings

variable {bound bound' : List String → Option (Option SettingValue)}

theorem ofTree?_eq_some_iff
    {t : SettingTree} (ht : t.IsTable)
    (hsections : ∀ name ∈ sections, ∀ u, t.member? name = some u → u.IsTable)
    (s : Settings) : ofTree? lib t = some s ↔ s.AreReadFrom lib t.bound? := by
  have hserver := hsections "server" (by decide)
  have hobservability := hsections "observability" (by decide)
  have hrules := hsections "rules" (by decide)
  have hserverat : t.sectionAt "server" (ServerSettings.ofTree? lib) {} =
      ServerSettings.ofTree? lib (t.table "server") :=
    SettingTree.sectionAt_eq hserver rfl
  have hobservabilityat :
      t.sectionAt "observability" (ObservabilitySettings.ofTree? lib) {} =
        ObservabilitySettings.ofTree? lib (t.table "observability") :=
    SettingTree.sectionAt_eq hobservability rfl
  have hrulesat : t.sectionAt "rules" (RuleSettings.ofTree? lib) {} =
      RuleSettings.ofTree? lib (t.table "rules") :=
    SettingTree.sectionAt_eq hrules rfl
  simp only [ofTree?, SettingTree.setting_eq ht, hserverat, hobservabilityat,
    hrulesat, Option.bind_eq_bind,
    Option.bind_eq_some_iff, Option.pure_def, Option.some.injEq,
    ServerSettings.ofTree?_eq_some_iff (SettingTree.isTable_table hserver),
    ObservabilitySettings.ofTree?_eq_some_iff
      (SettingTree.isTable_table hobservability),
    RuleSettings.ofTree?_eq_some_iff (SettingTree.isTable_table hrules),
    SettingTree.bound?_table]
  constructor
  · rintro ⟨name, hname, environment, henvironment, server, ⟨hhost, hport⟩,
      observability, ⟨hobserved, hlevel, hjson, henabled, hmetrics⟩, rules,
      ⟨hsize, hmaximum, htraced⟩, rfl⟩
    exact ⟨hname, henvironment, hhost, hport, hobserved, hlevel, hjson, henabled,
      hmetrics, hsize, hmaximum, htraced⟩
  · rintro ⟨hname, henvironment, hhost, hport, hobserved, hlevel, hjson, henabled,
      hmetrics, hsize, hmaximum, htraced⟩
    exact ⟨_, hname, _, henvironment, s.server, ⟨hhost, hport⟩, s.observability,
      ⟨hobserved, hlevel, hjson, henabled, hmetrics⟩, s.rules,
      ⟨hsize, hmaximum, htraced⟩, rfl⟩

/-- A setting can be read unless it is refused. -/
theorem exists_readAs_iff
    {α : Type} {k : SettingKind} {convert : SettingValue → Option α}
    (haccepts : ∀ v, k.accepts lib v = (convert v).isSome) (usual : α)
    (bound : Option (Option SettingValue)) :
    (∃ a, readAs convert usual bound = some a) ↔ ¬k.Refuses lib bound := by
  cases bound with
  | none =>
      refine iff_of_true ⟨usual, rfl⟩ ?_
      rintro ⟨b, hb, -⟩
      cases hb
  | some b =>
      have hrefuses : k.Refuses lib (some b) ↔ b.any (k.accepts lib) = false := by
        constructor
        · rintro ⟨b', hb', hany⟩
          rwa [Option.some.inj hb']
        · intro hany
          exact ⟨b, rfl, hany⟩
      have hread : (b.bind convert).isSome = b.any (k.accepts lib) := by
        cases b with
        | none => rfl
        | some v => exact (haccepts v).symm
      rw [hrefuses, Bool.not_eq_false, ← hread, Option.isSome_iff_exists]
      rfl

/-- Settings can be read from what is bound unless one of them is refused. -/
theorem exists_areReadFrom_iff (lib : SettingLibrary)
    (bound : List String → Option (Option SettingValue)) :
    (∃ s : Settings, s.AreReadFrom lib bound) ↔
      ∀ entry ∈ kinds, ¬entry.2.Refuses lib (bound entry.1) := by
  have htext (usual : String) (b : Option (Option SettingValue)) :
      (∃ a, readAs lib.toText? usual b = some a) ↔
        ¬SettingKind.text.Refuses lib b :=
    exists_readAs_iff (fun _ => rfl) usual b
  have hnumber (usual : Nat) (b : Option (Option SettingValue)) :
      (∃ a, readAs lib.toNatural? usual b = some a) ↔
        ¬SettingKind.number.Refuses lib b :=
    exists_readAs_iff (fun _ => rfl) usual b
  have hport (usual : Nat) (b : Option (Option SettingValue)) :
      (∃ a, readAs lib.toPort? usual b = some a) ↔
        ¬SettingKind.port.Refuses lib b :=
    exists_readAs_iff (fun _ => rfl) usual b
  have htruth (usual : Bool) (b : Option (Option SettingValue)) :
      (∃ a, readAs lib.toBoolean? usual b = some a) ↔
        ¬SettingKind.truth.Refuses lib b :=
    exists_readAs_iff (fun _ => rfl) usual b
  simp only [kinds, List.forall_mem_cons, List.not_mem_nil, false_imp_iff,
    implies_true, and_true]
  constructor
  · rintro ⟨s, h⟩
    exact ⟨(htext _ _).mp ⟨_, h.serviceName⟩, (htext _ _).mp ⟨_, h.environment⟩,
      (htext _ _).mp ⟨_, h.host⟩, (hport _ _).mp ⟨_, h.port⟩,
      (htext _ _).mp ⟨_, h.observedName⟩, (htext _ _).mp ⟨_, h.logLevel⟩,
      (htruth _ _).mp ⟨_, h.jsonLogs⟩, (htruth _ _).mp ⟨_, h.metricsEnabled⟩,
      (hport _ _).mp ⟨_, h.metricsPort⟩, (hnumber _ _).mp ⟨_, h.defaultPageSize⟩,
      (hnumber _ _).mp ⟨_, h.maxPageSize⟩, (htruth _ _).mp ⟨_, h.traceEvaluations⟩⟩
  · rintro ⟨hserviceName, henvironment, hhost, hserverPort, hobservedName, hlogLevel,
      hjsonLogs, hmetricsEnabled, hmetricsPort, hdefault, hmaximum, htraced⟩
    obtain ⟨serviceName, hserviceName⟩ := (htext "" _).mpr hserviceName
    obtain ⟨environment, henvironment⟩ := (htext "" _).mpr henvironment
    obtain ⟨host, hhost⟩ := (htext "0.0.0.0" _).mpr hhost
    obtain ⟨port, hserverPort⟩ := (hport 8080 _).mpr hserverPort
    obtain ⟨observedName, hobservedName⟩ :=
      (htext "unknown-service" _).mpr hobservedName
    obtain ⟨logLevel, hlogLevel⟩ := (htext "info" _).mpr hlogLevel
    obtain ⟨jsonLogs, hjsonLogs⟩ := (htruth false _).mpr hjsonLogs
    obtain ⟨metricsEnabled, hmetricsEnabled⟩ := (htruth true _).mpr hmetricsEnabled
    obtain ⟨metricsPort, hmetricsPort⟩ := (hport 9090 _).mpr hmetricsPort
    obtain ⟨defaultPageSize, hdefault⟩ := (hnumber 10 _).mpr hdefault
    obtain ⟨maxPageSize, hmaximum⟩ := (hnumber 100 _).mpr hmaximum
    obtain ⟨traceEvaluations, htraced⟩ := (htruth false _).mpr htraced
    exact ⟨⟨serviceName, environment, ⟨host, port⟩,
      ⟨observedName, logLevel, jsonLogs, metricsEnabled, metricsPort⟩,
      ⟨defaultPageSize, maxPageSize, traceEvaluations⟩⟩, hserviceName, henvironment,
      hhost, hserverPort, hobservedName, hlogLevel, hjsonLogs, hmetricsEnabled,
      hmetricsPort, hdefault, hmaximum, htraced⟩

theorem areReadFrom_congr
    (heq : ∀ entry ∈ kinds, bound' entry.1 = bound entry.1) {s : Settings} :
    s.AreReadFrom lib bound' ↔ s.AreReadFrom lib bound := by
  simp only [kinds, List.forall_mem_cons, List.not_mem_nil, false_imp_iff,
    implies_true, and_true] at heq
  obtain ⟨h₁, h₂, h₃, h₄, h₅, h₆, h₇, h₈, h₉, h₁₀, h₁₁, h₁₂⟩ := heq
  simp only [areReadFrom_iff, h₁, h₂, h₃, h₄, h₅, h₆, h₇, h₈, h₉, h₁₀, h₁₁, h₁₂]

theorem IsDecidedBy.congr
    {loaded : Option Settings} (h : IsDecidedBy lib bound loaded)
    (heq : ∀ entry ∈ kinds, bound' entry.1 = bound entry.1) :
    IsDecidedBy lib bound' loaded where
  eq_some_iff s := by rw [h.eq_some_iff, areReadFrom_congr heq]
  eq_none_iff := by
    rw [h.eq_none_iff]
    constructor
    · rintro ⟨entry, hentry, hrefuses⟩
      exact ⟨entry, hentry, (heq entry hentry).symm ▸ hrefuses⟩
    · rintro ⟨entry, hentry, hrefuses⟩
      exact ⟨entry, hentry, heq entry hentry ▸ hrefuses⟩

theorem IsDecidedBy.eq
    {loaded loaded' : Option Settings} (h : IsDecidedBy lib bound loaded)
    (h' : IsDecidedBy lib bound loaded') : loaded = loaded' := by
  ext s
  rw [h.eq_some_iff, h'.eq_some_iff]

theorem isDecidedBy_ofTree?
    {t : SettingTree} (ht : t.IsTable)
    (hsections : ∀ name ∈ sections, ∀ u, t.member? name = some u → u.IsTable) :
    IsDecidedBy lib t.bound? (ofTree? lib t) where
  eq_some_iff := ofTree?_eq_some_iff ht hsections
  eq_none_iff := by
    have hexists := exists_areReadFrom_iff lib t.bound?
    simp only [← ofTree?_eq_some_iff ht hsections] at hexists
    rw [Option.eq_none_iff_forall_ne_some, ← not_exists, hexists, not_forall]
    simp only [not_forall, not_not, exists_prop]

/-- What the highest layers bind decides what is read from all layers. -/
theorem isDecidedBy_build
    (hlib : lib.IsLawful) {layers : List SettingLayer}
    (hkeeps : ∀ layer ∈ layers, layer.KeepsSections)
    (hbegins : ∀ layer ∈ layers, layer.Begins) :
    IsDecidedBy lib
      (fun names => layers.reverse.findSome? fun layer => layer.bound? names)
      (ofTree? lib (lib.build layers)) := by
  have hopens (names : List String) (hkey : isKey names = true) :
      (lib.build layers).Opens names :=
    (hlib.bound?_build hkeeps hbegins hkey).2
  have htable : (lib.build layers).IsTable := (hopens ["service_name"] rfl).1
  have hsections : ∀ name ∈ sections, ∀ u,
      (lib.build layers).member? name = some u → u.IsTable := by
    intro name hname u hu
    have hkey : isKey [name, ""] = true := List.contains_iff_mem.mpr hname
    exact ((hopens [name, ""] hkey).2 u hu).1
  refine (isDecidedBy_ofTree? htable hsections).congr ?_
  intro entry hentry
  exact (hlib.bound?_build hkeeps hbegins (isKey_of_mem_kinds entry hentry)).1.symm

end Settings

/-! ## The layers of sources -/

namespace SettingSources

variable {lib : SettingLibrary} {s : SettingSources}
  {directory service environment : String} {layers : List SettingLayer}

/-- The layers from which settings are loaded, the highest first: the variables,
what the file of the service, that of the environment and the common one set, and
the names that are given. -/
def HasLayers (s : SettingSources) (lib : SettingLibrary)
    (directory service environment : String) (layers : List SettingLayer) : Prop :=
  ∃ common surrounding own : SettingLayer,
    lib.file? false s.files (Text.joinPath directory "default.toml") =
        some common ∧
      lib.file? false s.files (Text.joinPath directory (environment ++ ".toml")) =
        some surrounding ∧
      lib.file? false s.files (Text.joinPath directory (service ++ ".toml")) =
        some own ∧
      layers = [s.variableLayer lib, own, surrounding, common,
        given service environment]

/-- What the settings file of the given name says: what its text says if it is
there, and nothing if there is no file with this name in its path. -/
def Says (s : SettingSources) (lib : SettingLibrary) (directory name : String)
    (layer : SettingLayer) : Prop :=
  (∃ text, s.files.lookup (Text.joinPath directory (name ++ ".toml")) = some text ∧
    lib.read? text = some layer) ∨
  (∀ f ∈ s.files, ¬(name ++ ".toml").toList <:+: f.1.toList) ∧ layer = []

/-- Whether a name leads into no other directory. -/
structure IsFileName (name : String) : Prop where
  ne_empty : name ≠ ""
  slash_not_mem : '/' ∉ name.toList

theorem layers?_eq_some_iff :
    s.layers? lib directory service environment = some layers.reverse ↔
      s.HasLayers lib directory service environment layers := by
  simp only [layers?, HasLayers, Option.bind_eq_bind, Option.bind_eq_some_iff,
    Option.pure_def, Option.some.injEq]
  constructor
  · rintro ⟨common, hcommon, surrounding, hsurrounding, own, hown, hlayers⟩
    refine ⟨common, surrounding, own, hcommon, hsurrounding, hown, ?_⟩
    rw [← List.reverse_reverse layers, ← hlayers]
    rfl
  · rintro ⟨common, surrounding, own, hcommon, hsurrounding, hown, rfl⟩
    exact ⟨common, hcommon, surrounding, hsurrounding, own, hown, rfl⟩

theorem HasLayers.begins
    (hlib : lib.IsLawful)
    (h : s.HasLayers lib directory service environment layers) :
    ∀ layer ∈ layers, layer.Begins := by
  obtain ⟨common, surrounding, own, hcommon, hsurrounding, hown, rfl⟩ := h
  simp only [List.forall_mem_cons, List.not_mem_nil, false_imp_iff, implies_true,
    and_true]
  refine ⟨?_, hlib.begins_of_file? _ _ _ _ hown,
    hlib.begins_of_file? _ _ _ _ hsurrounding,
    hlib.begins_of_file? _ _ _ _ hcommon, ?_⟩
  · intro a ha
    obtain ⟨v, -, hv⟩ := List.mem_filterMap.mp ha
    exact hlib.begins_of_assignment? scheme v a hv
  · intro a ha
    rcases List.mem_pair.mp ha with rfl | rfl
    · exact ⟨"service_name", [], rfl⟩
    · exact ⟨"environment", [], rfl⟩

theorem HasLayers.isDecidedBy_loadFrom?
    (hlib : lib.IsLawful)
    (h : s.HasLayers lib directory service environment layers)
    (hkeeps : ∀ layer ∈ layers, layer.KeepsSections) :
    Settings.IsDecidedBy lib
      (fun names => layers.findSome? fun layer => layer.bound? names)
      (Settings.loadFrom? lib s directory service environment) := by
  have hload : Settings.loadFrom? lib s directory service environment =
      Settings.ofTree? lib (lib.build layers.reverse) := by
    rw [Settings.loadFrom?, layers?_eq_some_iff.mpr h]
    rfl
  have hkeeps' : ∀ layer ∈ layers.reverse, layer.KeepsSections :=
    fun layer hlayer => hkeeps layer (List.mem_reverse.mp hlayer)
  have hbegins : ∀ layer ∈ layers.reverse, layer.Begins :=
    fun layer hlayer => h.begins hlib layer (List.mem_reverse.mp hlayer)
  have hdecided := Settings.isDecidedBy_build hlib hkeeps' hbegins
  rw [hload]
  rwa [List.reverse_reverse] at hdecided

/-! ## Files and variables -/

theorem Says.file?_eq
    (hlib : lib.IsLawful) {name : String} (hname : IsFileName name)
    {layer : SettingLayer} (h : s.Says lib directory name layer) :
    lib.file? false s.files (Text.joinPath directory (name ++ ".toml")) =
      some layer := by
  rcases h with ⟨text, hlookup, hread⟩ | ⟨habsent, rfl⟩
  · rw [hlib.file?_of_lookup false s.files directory name text hname.ne_empty
      hname.slash_not_mem hlookup, hread]
  · exact hlib.file?_of_forall_not_isInfix s.files directory name hname.ne_empty
      hname.slash_not_mem habsent

/-- One file that can not be read is enough for nothing to be loaded. -/
theorem loadFrom?_eq_none
    (hlib : lib.IsLawful) {name text : String} (hname : IsFileName name)
    (hmem : name ∈ ["default", environment, service])
    (hlookup : s.files.lookup (Text.joinPath directory (name ++ ".toml")) =
      some text)
    (hread : lib.read? text = none) :
    Settings.loadFrom? lib s directory service environment = none := by
  have hfile := hlib.file?_of_lookup false s.files directory name text
    hname.ne_empty hname.slash_not_mem hlookup
  rw [hread] at hfile
  rw [Option.eq_none_iff_forall_ne_some]
  intro settings hsettings
  obtain ⟨layers, hlayers, -⟩ := Option.bind_eq_some_iff.mp hsettings
  rw [← List.reverse_reverse layers] at hlayers
  obtain ⟨common, surrounding, own, hcommon, hsurrounding, hown, -⟩ :=
    layers?_eq_some_iff.mp hlayers
  simp only [List.mem_cons, List.not_mem_nil, or_false] at hmem
  rcases hmem with rfl | rfl | rfl
  · cases hfile.symm.trans hcommon
  · cases hfile.symm.trans hsurrounding
  · cases hfile.symm.trans hown

theorem isAscii_of_toLower {t : String} (h : Text.IsAscii t.toLower) :
    Text.IsAscii t := by
  intro c hc
  have hlower : c.toLower ∈ t.toLower.toList := by
    rw [String.toLower, String.toList_map]
    exact List.mem_map_of_mem hc
  have hlt := h _ hlower
  by_cases hupper : 65 ≤ c.val ∧ c.val ≤ 90
  · have : c.toNat ≤ 90 := UInt32.le_iff_toNat_le.mp hupper.2
    omega
  · have hsame : c.toLower = c := by
      rw [Char.toLower, dif_neg]
      simpa using hupper
    rwa [hsame] at hlt

/-- The variables that are named after settings. -/
theorem isNamedAfter_of_toLower_eq
    {entry : List String × SettingKind} (hentry : entry ∈ Settings.kinds)
    {variableName : String}
    (h : variableName.toLower = "rule_" ++ "__".intercalate entry.1) :
    scheme.IsNamedAfter entry.1 variableName := by
  have hall : ∀ entry ∈ Settings.kinds, entry.1 ≠ [] ∧ ∀ name ∈ entry.1,
      name ≠ "" ∧ (∀ c ∈ name.toList, (c.isLower = true ∨ c = '_')) ∧
        Text.isFreeOf "__".toList name.toList = true := by
    simp [Settings.kinds, Text.isFreeOf, Char.isLower, List.isPrefixOf]
  have hascii : ∀ entry ∈ Settings.kinds,
      ∀ c ∈ ("rule_" ++ "__".intercalate entry.1).toList, c.toNat < 0x80 := by
    simp [Settings.kinds]
  have hbeginning : (scheme.beginning ++ scheme.joint).toLower = "rule_" := by
    decide +kernel
  obtain ⟨hne, hnames⟩ := hall entry hentry
  constructor
  case isAscii =>
    apply isAscii_of_toLower
    rw [h]
    exact hascii entry hentry
  case ne_nil => exact hne
  case ne_empty => exact fun name hname => (hnames name hname).1
  case isLower => exact fun name hname => (hnames name hname).2.1
  case isFreeOf => exact fun name hname => (hnames name hname).2.2
  case toLower_eq => rw [hbeginning, h]; rfl

/-- A variable that is named after a setting sets it, unless another one does. -/
theorem bound?_variableLayer
    (hlib : lib.IsLawful) {entry : List String × SettingKind}
    (hentry : entry ∈ Settings.kinds) {v : String × String}
    (hv : v ∈ s.assignments)
    (hname : v.1.toLower = "rule_" ++ "__".intercalate entry.1)
    (hothers : ∀ w ∈ s.assignments, w ≠ v → ∀ a, lib.assignment? scheme w = some a →
      SettingPath.bound? a.1 a.2 entry.1 = none) :
    (s.variableLayer lib).bound? entry.1 = some (some (lib.value true v.2)) := by
  have hset := hlib.assignment?_of_isNamedAfter scheme entry.1 v
    (isNamedAfter_of_toLower_eq hentry hname)
  have hown : SettingPath.bound? (entry.1.map .name) (.value (lib.value true v.2))
      entry.1 = some (some (lib.value true v.2)) := by
    generalize entry.1 = names
    induction names with
    | nil => rfl
    | cons name names ih => exact (if_pos rfl).trans ih
  have honly : ∀ a ∈ (s.variableLayer lib).reverse, ∀ b,
      SettingPath.bound? a.1 a.2 entry.1 = some b →
        b = some (lib.value true v.2) := by
    intro a ha b hb
    obtain ⟨w, hw, hwset⟩ :=
      List.mem_filterMap.mp (List.mem_reverse.mp ha)
    by_cases hwv : w = v
    · rw [hwv, hset, Option.some.injEq] at hwset
      rw [← hwset, show scheme.areParsed = true from rfl, hown] at hb
      exact (Option.some.inj hb).symm
    · rw [hothers w hw hwv a hwset] at hb
      cases hb
  have hfound : ((s.variableLayer lib).bound? entry.1).isSome = true := by
    rw [SettingLayer.bound?, List.findSome?_isSome_iff]
    refine ⟨_, List.mem_reverse.mpr (List.mem_filterMap.mpr ⟨v, hv, hset⟩), ?_⟩
    exact (congrArg Option.isSome hown).trans rfl
  obtain ⟨b, hb⟩ := Option.isSome_iff_exists.mp hfound
  obtain ⟨a, ha, hab⟩ := List.exists_of_findSome?_eq_some hb
  rw [hb, honly a ha b hab]

/-- Variables whose names begin in another way set nothing. -/
theorem variableLayer_eq_nil
    (hlib : lib.IsLawful)
    (h : ∀ v ∈ s.assignments, Text.IsAscii v.1 ∧
      ¬"rule_".toList <+: v.1.toLower.toList) : s.variableLayer lib = [] := by
  rw [variableLayer, List.filterMap_eq_nil_iff]
  intro v hv
  obtain ⟨hascii, hprefix⟩ := h v hv
  have hbeginning : (scheme.beginning ++ scheme.joint).toLower = "rule_" := by
    decide +kernel
  refine hlib.assignment?_of_not_isPrefix scheme v ?_ hascii ?_
  · have hall : ∀ c ∈ ("RULE" ++ "_").toList, c.toNat < 0x80 := by simp
    exact hall
  · rwa [hbeginning]

end SettingSources

/-! ## Loading -/

/-- The variable that sets the port of a service is named after the service, in
capitals and with low lines for hyphens; the service `rule-admin-service` has a
shorter one. -/
structure IsPortVariable (service variableName : String) : Prop where
  of_eq : service = "rule-admin-service" → variableName = "RULE_ADMIN_PORT"
  of_ne : service ≠ "rule-admin-service" →
    variableName.toList =
      ((service.toList.flatMap Text.capitals).map fun c =>
        if c = '-' then '_' else c) ++ "_PORT".toList
  of_isAscii : service ≠ "rule-admin-service" → Text.IsAscii service →
    variableName =
      (service.toUpper.map fun c => if c = '-' then '_' else c) ++ "_PORT"

namespace Settings

theorem isPortVariable_portVariable (service : String) :
    IsPortVariable service (portVariable service) := by
  have hother (h : service ≠ "rule-admin-service") :
      (portVariable service).toList =
        ((service.toList.flatMap Text.capitals).map fun c =>
          if c = '-' then '_' else c) ++ "_PORT".toList := by
    rw [portVariable, if_neg h, String.toList_append, String.toList_ofList]
  constructor
  case of_eq => exact fun h => if_pos h
  case of_ne => exact hother
  case of_isAscii =>
    intro h hascii
    have hcapitals : service.toList.flatMap Text.capitals =
        service.toUpper.toList := by
      rw [String.toUpper, String.toList_map, List.map_eq_flatMap]
      exact List.flatMap_congr fun c hc => Text.capitals_of_lt (hascii c hc)
    rw [← String.toList_inj, hother h, hcapitals, String.toList_append,
      String.toList_map]

/-- The port to which a variable of the given name sets a service, if it is a
port. -/
def assignedPort? (s : SettingSources) (variableName : String) : Option Nat :=
  (s.assignments.lookup variableName).bind fun text =>
    Text.naturalBelow? 0x10000 text.toList

theorem load?_eq (lib : SettingLibrary) (s : SettingSources) (service : String) :
    load? lib s service =
      (loadFrom? lib s ((s.assignments.lookup "CONFIG_DIR").getD "config") service
        ((s.assignments.lookup "RULE_ENV").getD "development")).map
          fun settings => { settings with
            server := { settings.server with
              port := (assignedPort? s (portVariable service)).getD
                settings.server.port } } := by
  change (loadFrom? lib s _ service _).bind _ = _
  cases loadFrom? lib s ((s.assignments.lookup "CONFIG_DIR").getD "config") service
    ((s.assignments.lookup "RULE_ENV").getD "development") with
  | none => rfl
  | some settings => rfl

/-- With every lawful library, and as long as the names of sections are only used
for tables, it is decided for each setting on its own what is loaded, by the
highest layer that binds anything to it: the variables, the files of the service
and of the environment, the common one, the names that were given. Its value is
converted; loading fails exactly if it cannot be, for some setting. So sources in
which the same is bound to the settings give the same, whatever else is in them.

The files are those of the names `default`, of the environment and of the service
in a directory. One that is not there sets nothing, and one that cannot be read
makes loading fail. A variable that is named after a setting sets it. Where it is
the variables that name the environment and the directory, a port in the port
variable of the service takes the place of the other one. -/
theorem highest_layer_counts {lib : SettingLibrary} (hlib : lib.IsLawful)
    (s : SettingSources) (service : String) :
    (∀ directory environment layers,
      s.HasLayers lib directory service environment layers →
      (∀ layer ∈ layers, layer.KeepsSections) →
      IsDecidedBy lib
        (fun names => layers.findSome? fun layer => layer.bound? names)
        (loadFrom? lib s directory service environment) ∧
      ∀ s' directory' service' environment' layers',
        SettingSources.HasLayers s' lib directory' service' environment' layers' →
        (∀ layer ∈ layers', layer.KeepsSections) →
        (∀ entry ∈ kinds,
          (layers'.findSome? fun layer => layer.bound? entry.1) =
            layers.findSome? fun layer => layer.bound? entry.1) →
        loadFrom? lib s' directory' service' environment' =
          loadFrom? lib s directory service environment) ∧
    (∀ directory environment, SettingSources.IsFileName service →
      SettingSources.IsFileName environment →
      (∀ common surrounding own, s.Says lib directory "default" common →
        s.Says lib directory environment surrounding →
        s.Says lib directory service own →
        s.HasLayers lib directory service environment
          [s.variableLayer lib, own, surrounding, common,
            [([.name "service_name"], .value (.text service)),
              ([.name "environment"], .value (.text environment))]]) ∧
      ∀ name ∈ ["default", environment, service], ∀ text,
        s.files.lookup (Text.joinPath directory (name ++ ".toml")) = some text →
        lib.read? text = none →
        loadFrom? lib s directory service environment = none) ∧
    (∀ entry ∈ kinds, ∀ v ∈ s.assignments,
      v.1.toLower = "rule_" ++ "__".intercalate entry.1 →
      (∀ w ∈ s.assignments, w ≠ v → ∀ a,
        lib.assignment? SettingSources.scheme w = some a →
        SettingPath.bound? a.1 a.2 entry.1 = none) →
      (s.variableLayer lib).bound? entry.1 = some (some (lib.value true v.2))) ∧
    ((∀ v ∈ s.assignments, Text.IsAscii v.1 ∧
      ¬"rule_".toList <+: v.1.toLower.toList) → s.variableLayer lib = []) ∧
    ∃ variableName, IsPortVariable service variableName ∧
      let environment := (s.assignments.lookup "RULE_ENV").getD "development"
      let directory := (s.assignments.lookup "CONFIG_DIR").getD "config"
      let loaded := loadFrom? lib s directory service environment
      let port? := (s.assignments.lookup variableName).bind fun text =>
        Text.naturalBelow? 0x10000 text.toList
      (loaded = none → load? lib s service = none) ∧
      ∀ settings, loaded = some settings →
        (port? = none → load? lib s service = some settings) ∧
        ∀ port, port? = some port →
          load? lib s service =
            some { settings with
              server := { settings.server with port := port } } := by
  refine ⟨?_, ?_, ?_, SettingSources.variableLayer_eq_nil hlib, ?_⟩
  · intro directory environment layers hlayers hkeeps
    have hdecided := hlayers.isDecidedBy_loadFrom? hlib hkeeps
    refine ⟨hdecided, ?_⟩
    intro s' directory' service' environment' layers' hlayers' hkeeps' heq
    exact (hlayers'.isDecidedBy_loadFrom? hlib hkeeps').eq (hdecided.congr heq)
  · intro directory environment hservice henvironment
    have hdefault : SettingSources.IsFileName "default" := by
      constructor <;> decide
    constructor
    · intro common surrounding own hcommon hsurrounding hown
      exact ⟨common, surrounding, own, hcommon.file?_eq hlib hdefault,
        hsurrounding.file?_eq hlib henvironment, hown.file?_eq hlib hservice, rfl⟩
    · intro name hname text hlookup hread
      refine SettingSources.loadFrom?_eq_none hlib ?_ hname hlookup hread
      simp only [List.mem_cons, List.not_mem_nil, or_false] at hname
      rcases hname with rfl | rfl | rfl
      · exact hdefault
      · exact henvironment
      · exact hservice
  · intro entry hentry v hv hname hothers
    exact SettingSources.bound?_variableLayer hlib hentry hv hname hothers
  · refine ⟨portVariable service, isPortVariable_portVariable service, ?_⟩
    intro environment directory loaded port?
    have heq : load? lib s service = loaded.map fun settings =>
        { settings with
          server := { settings.server with
            port := port?.getD settings.server.port } } := load?_eq lib s service
    rw [heq]
    refine ⟨fun h => by rw [h]; rfl, ?_⟩
    intro settings h
    rw [h]
    refine ⟨fun hport => ?_, fun port hport => ?_⟩
    · rw [hport]
      rfl
    · rw [hport]
      rfl

theorem highest_layer_counts_of_overridden_port :
    let s : SettingSources :=
      ⟨[("settings/default.toml", "[server]\nhost = \"a\"\nport = \"x\"\n"),
          ("settings/test.toml", "other = []\n[server]\nport = \"81\"\n"),
          ("settings/rule-admin-service.toml",
            "[rules]\nmax_page_size = \"5\"\n")],
        [("RULE_OBSERVABILITY__JSON_LOGS", "on"), ("RULE_ENV", "test"),
          ("CONFIG_DIR", "settings"), ("RULE_ADMIN_PORT", "9001")]⟩
    let service := "rule-admin-service"
    Plain.library.IsLawful ∧
      SettingSources.IsFileName service ∧ SettingSources.IsFileName "test" ∧
      (∃ layers, s.HasLayers Plain.library "settings" service "test" layers ∧
        ∀ layer ∈ layers, layer.KeepsSections) ∧
      ∃ settings,
        loadFrom? Plain.library s "settings" service "test" = some settings ∧
        settings.server = ⟨"a", 81⟩ ∧ settings.rules = ⟨10, 5, false⟩ ∧
        settings.observability.jsonLogs = true ∧
        load? Plain.library s service =
          some { settings with server := ⟨"a", 9001⟩ } := by
  intro s service
  let common : SettingLayer := [([.name "server"], .branch
    [("host", .value (.text "a")), ("port", .value (.text "x"))])]
  let surrounding : SettingLayer := [([.name "other"], .list []),
    ([.name "server"], .branch [("port", .value (.text "81"))])]
  let own : SettingLayer :=
    [([.name "rules"], .branch [("max_page_size", .value (.text "5"))])]
  let assigned : SettingLayer :=
    [([.name "observability", .name "json_logs"], .value (.text "on")),
      ([.name "env"], .value (.text "test")),
      ([.name "admin_port"], .value (.integer 9001))]
  obtain ⟨hlayers, hfiles, -, -, variableName, hvariable, hload⟩ :=
    highest_layer_counts Plain.isLawful_library s service
  have hservice : SettingSources.IsFileName service := by
    constructor <;> decide
  have htest : SettingSources.IsFileName "test" := by
    constructor <;> decide
  have hcommon : s.Says Plain.library "settings" "default" common :=
    .inl ⟨"[server]\nhost = \"a\"\nport = \"x\"\n", by decide +kernel, by cbv⟩
  have hsurrounding : s.Says Plain.library "settings" "test" surrounding :=
    .inl ⟨"other = []\n[server]\nport = \"81\"\n", by decide +kernel, by cbv⟩
  have hown : s.Says Plain.library "settings" service own :=
    .inl ⟨"[rules]\nmax_page_size = \"5\"\n", by decide +kernel, by cbv⟩
  have hpaths :
      Plain.Variable.path? SettingSources.scheme "RULE_OBSERVABILITY__JSON_LOGS" =
        some [.name "observability", .name "json_logs"] ∧
      Plain.Variable.path? SettingSources.scheme "RULE_ENV" =
        some [.name "env"] ∧
      Plain.Variable.path? SettingSources.scheme "CONFIG_DIR" = none ∧
      Plain.Variable.path? SettingSources.scheme "RULE_ADMIN_PORT" =
        some [.name "admin_port"] := by
    decide +kernel
  have hvalues : Plain.Variable.value true "on" = .text "on" ∧
      Plain.Variable.value true "test" = .text "test" ∧
      Plain.Variable.value true "9001" = .integer 9001 := by
    decide +kernel
  have hassigned : s.variableLayer Plain.library = assigned := by
    have hparsed : SettingSources.scheme.areParsed = true := rfl
    simp only [s, assigned, SettingSources.variableLayer, List.filterMap_cons,
      List.filterMap_nil, Plain.library, Plain.Variable.set?, hpaths,
      Option.map_some, Option.map_none, hparsed, hvalues]
  have hhas := (hfiles "settings" "test" hservice htest).1 common surrounding own
    hcommon hsurrounding hown
  rw [hassigned] at hhas
  have hkeeps : ∀ layer ∈ [assigned, own, surrounding, common,
      [([.name "service_name"], .value (.text service)),
        ([.name "environment"], .value (.text "test"))]],
      layer.KeepsSections := by
    simp only [List.forall_mem_cons, List.not_mem_nil, false_imp_iff,
      implies_true, and_true]
    refine ⟨?_, ?_, ?_, ?_, ?_⟩
    all_goals
      constructor
      case isTable =>
        simp [assigned, own, surrounding, common, sections]
      case ne_item => simp [assigned, own, surrounding, common, sections]
  obtain ⟨hdecided, -⟩ := hlayers "settings" "test" _ hhas hkeeps
  have hloaded : loadFrom? Plain.library s "settings" service "test" =
      some ⟨service, "test", ⟨"a", 81⟩,
        ⟨"unknown-service", "info", true, true, 9090⟩, ⟨10, 5, false⟩⟩ := by
    rw [hdecided.eq_some_iff]
    constructor
    all_goals decide +kernel
  obtain rfl := hvariable.of_eq rfl
  refine ⟨Plain.isLawful_library, hservice, htest, ⟨_, hhas, hkeeps⟩, _, hloaded,
    rfl, rfl, rfl, ?_⟩
  exact (hload.2 _ hloaded).2 9001 (by decide +kernel)

end Settings

end Rulebook
