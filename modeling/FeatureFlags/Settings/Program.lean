import FeatureFlags.FeatureMap.Basic
import FeatureFlags.Settings.Store
import FeatureFlags.Settings.Written

/-!
# The settings file

All settings of the program in one YAML document. Nothing has to be set, so a blank document is as
good as an empty record.

The parts for metrics and logging are understood after everything else of the document, so they have
decided what they are by then, and so has everything that nobody asks for.
-/

namespace FeatureFlags

open Settings (Source)

/-- Where measurements are sent. -/
structure MetricsSettings where
  host : String
  port : UInt16
deriving DecidableEq, Repr

/-- What is logged, and where errors are reported. -/
structure LoggingSettings where
  reportTo : Option String
  level : Option String
deriving DecidableEq, Repr

/-- All settings of the program. -/
structure ProgramSettings where
  ns : String
  metrics : Option MetricsSettings
  logging : Option LoggingSettings
  server : ServerSettings
  store : Option StoreSettings
deriving DecidableEq, Repr

namespace ProgramSettings

open Settings (Written)

/-- The namespace when none is set. -/
def defaultNamespace : String := defaultRoot

/-- The metrics settings that a document is. -/
def metrics? (w : Written) : Option MetricsSettings := do
  let given ← Source.given? ["statsd_host", "statsd_port"] w
  let host ← given.required? 0 Source.text?
  let port ← given.required? 1 (Source.upTo? 65535)
  return ⟨host, .ofNat port⟩

/-- The logging settings that a document is. -/
def logging? (w : Written) : Option LoggingSettings := do
  let given ← Source.given? ["sentry_dsn", "level"] w
  let reportTo ← given.missable? 0 (Source.nullable? Source.text?)
  let level ← given.missable? 1 (Source.nullable? Source.text?)
  return ⟨reportTo, level⟩

/-- The settings that a document is. -/
def ofWritten? (w : Written) : Option ProgramSettings := do
  guard (!w.isList ∧ w.restSettles ["namespace", "server", "store"])
  let given ← Source.given? ["namespace", "server", "store", "metrics", "logging"] w
  let ns ← given.optional? 0 defaultNamespace Source.text?
  let server ← given.optional? 1 ServerSettings.default ServerSettings.read?
  let store ← given.optional? 2 none (Source.nullable? StoreSettings.read?)
  let metrics ← given.optional? 3 none fun w => do
    Source.nullable? metrics? (← w.settle?)
  let logging ← given.optional? 4 none fun w => do
    Source.nullable? logging? (← w.settle?)
  return ⟨ns, metrics, logging, server, store⟩

/-- The settings that a text is. -/
def parse? (s : String) : Option ProgramSettings := do
  ofWritten? (.ofNode (← Yaml.read? s))

end ProgramSettings

end FeatureFlags
