/-!
# Settings

What can be set from outside, and what holds if nothing is set.
-/

namespace Rulebook

/-- Where the service listens. -/
structure ServerSettings where
  host : String := "0.0.0.0"
  port : Nat := 8080
deriving DecidableEq, Repr

/-- How the service is observed. -/
structure ObservabilitySettings where
  serviceName : String := "unknown-service"
  logLevel : String := "info"
  jsonLogs : Bool := false
  metricsEnabled : Bool := true
  metricsPort : Nat := 9090
deriving DecidableEq, Repr

/-- How rules are listed and evaluated. -/
structure RuleSettings where
  defaultPageSize : Nat := 10
  maxPageSize : Nat := 100
  traceEvaluations : Bool := false
deriving DecidableEq, Repr

/-- All settings of a service. -/
structure Settings where
  serviceName : String := ""
  environment : String := ""
  server : ServerSettings := {}
  observability : ObservabilitySettings := {}
  rules : RuleSettings := {}
deriving DecidableEq, Repr

/-- The number of rules on a page: what was asked for, or the usual number, and
never more than the largest allowed. -/
def RuleSettings.pageLimit (s : RuleSettings) (asked : Option Nat) : Nat :=
  min (asked.getD s.defaultPageSize) s.maxPageSize

namespace Settings

/-- The address at which the service listens. -/
def address (s : Settings) : String :=
  s.server.host ++ ":" ++ toString s.server.port

/-- The settings for observing the service, under the name that it has. -/
def observing (s : Settings) : ObservabilitySettings :=
  { s.observability with serviceName := s.serviceName }

/-- Whether the service runs in production. -/
def isProduction (s : Settings) : Bool := s.environment == "production"

end Settings

end Rulebook
