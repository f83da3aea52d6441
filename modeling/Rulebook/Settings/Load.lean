import Rulebook.Settings.Basic
import Rulebook.Settings.Library
import Rulebook.Text.Capital
import Rulebook.Text.Natural

/-!
# Loading settings

Settings come in layers, each laid over the ones before: the names of the service
and of its environment, the common file, the file of the environment, the file
of the service, and the variables. What no layer sets has its usual value. If a
file is wrong or a value is of a wrong type, nothing is loaded.
-/

namespace Rulebook

/-- What settings are loaded from: the texts of files by their paths, and
variables with what is assigned to them. -/
structure SettingSources where
  files : List (String × String)
  assignments : List (String × String)
deriving Repr

namespace SettingSources

/-- The variables that set something: their names begin with `RULE_`, and two low
lines separate the names on the way. -/
def scheme : VariableScheme := ⟨"RULE", "_", "__", true⟩

/-- What the names that are given set. -/
def given (service environment : String) : SettingLayer :=
  [([.name "service_name"], .value (.text service)),
    ([.name "environment"], .value (.text environment))]

/-- What the variables set. -/
def variableLayer (lib : SettingLibrary) (s : SettingSources) : SettingLayer :=
  s.assignments.filterMap (lib.assignment? scheme)

/-- The layers of settings, if all files can be read; none of these has to be
there. -/
def layers? (lib : SettingLibrary) (s : SettingSources)
    (directory service environment : String) : Option (List SettingLayer) := do
  let file? (name : String) :=
    lib.file? false s.files (Text.joinPath directory name)
  let common ← file? "default.toml"
  let surrounding ← file? (environment ++ ".toml")
  let own ← file? (service ++ ".toml")
  return [given service environment, common, surrounding, own, s.variableLayer lib]

end SettingSources

/-- What is set in the section `server`. -/
def ServerSettings.ofTree? (lib : SettingLibrary) (t : SettingTree) :
    Option ServerSettings := do
  let usual : ServerSettings := {}
  return {
    host := ← t.setting 0 "host" lib.toText? usual.host
    port := ← t.setting 1 "port" lib.toPort? usual.port }

/-- What is set in the section `observability`. -/
def ObservabilitySettings.ofTree? (lib : SettingLibrary) (t : SettingTree) :
    Option ObservabilitySettings := do
  let usual : ObservabilitySettings := {}
  return {
    serviceName := ← t.setting 0 "service_name" lib.toText? usual.serviceName
    logLevel := ← t.setting 1 "log_level" lib.toText? usual.logLevel
    jsonLogs := ← t.setting 2 "json_logs" lib.toBoolean? usual.jsonLogs
    metricsEnabled :=
      ← t.setting 3 "metrics_enabled" lib.toBoolean? usual.metricsEnabled
    metricsPort := ← t.setting 4 "metrics_port" lib.toPort? usual.metricsPort }

/-- What is set in the section `rules`. -/
def RuleSettings.ofTree? (lib : SettingLibrary) (t : SettingTree) :
    Option RuleSettings := do
  let usual : RuleSettings := {}
  return {
    defaultPageSize :=
      ← t.setting 0 "default_page_size" lib.toNatural? usual.defaultPageSize
    maxPageSize := ← t.setting 1 "max_page_size" lib.toNatural? usual.maxPageSize
    traceEvaluations :=
      ← t.setting 2 "trace_evaluations" lib.toBoolean? usual.traceEvaluations }

namespace Settings

/-- The settings in a tree. -/
def ofTree? (lib : SettingLibrary) (t : SettingTree) : Option Settings := do
  let usual : Settings := {}
  return {
    serviceName := ← t.setting 0 "service_name" lib.toText? usual.serviceName
    environment := ← t.setting 1 "environment" lib.toText? usual.environment
    server := ← t.sectionAt "server" (ServerSettings.ofTree? lib) usual.server
    observability :=
      ← t.sectionAt "observability" (ObservabilitySettings.ofTree? lib)
        usual.observability
    rules := ← t.sectionAt "rules" (RuleSettings.ofTree? lib) usual.rules }

/-- The settings of a service in an environment, from the files in a
directory. -/
def loadFrom? (lib : SettingLibrary) (s : SettingSources)
    (directory service environment : String) : Option Settings := do
  let layers ← s.layers? lib directory service environment
  ofTree? lib (lib.build layers)

/-- The name of the variable that sets the port of a service. -/
def portVariable (service : String) : String :=
  if service = "rule-admin-service" then "RULE_ADMIN_PORT"
  else
    let capitals := service.toList.flatMap Text.capitals
    String.ofList (capitals.map fun c => if c = '-' then '_' else c) ++ "_PORT"

/-- The settings of a service, in the environment and from the directory that
variables name. The service's own port variable counts most, but only if it is a
port. -/
def load? (lib : SettingLibrary) (s : SettingSources) (service : String) :
    Option Settings := do
  let environment := (s.assignments.lookup "RULE_ENV").getD "development"
  let directory := (s.assignments.lookup "CONFIG_DIR").getD "config"
  let settings ← loadFrom? lib s directory service environment
  let port :=
    (s.assignments.lookup (portVariable service)).bind fun text =>
      Text.naturalBelow? 0x10000 text.toList
  return { settings with
    server := { settings.server with port := port.getD settings.server.port } }

end Settings

end Rulebook
