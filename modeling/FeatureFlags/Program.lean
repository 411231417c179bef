import FeatureFlags.CommandLine
import FeatureFlags.Logging
import FeatureFlags.Server.Running
import FeatureFlags.Settings.Program

/-!
# The program

What the program says and how it ends. `Program.run` is a function of the command line and of what
the program finds around it: the settings file, the names of hosts, and the disk with the feature
file.
-/

namespace FeatureFlags

namespace Program

/-- What the program finds around it. -/
structure Surroundings where
  /-- What reading a settings file gives. -/
  readSettings : String → Except FileError Bytes
  /-- Whether a host is known by name. -/
  knowsHost : String → Bool
  disk : Disk

/-- What the program did. -/
structure Report where
  /-- The exit code; without one the program goes on working. -/
  exit : Option UInt8
  /-- What was said besides the log: of a fault whose details come from elsewhere its kind. -/
  complaints : List String
  log : List LogLine
deriving DecidableEq, Repr

/-! ## Settings -/

/-- Why there are no settings. -/
inductive LoadError where
  | unopened (e : FileError)
  | malformed
deriving DecidableEq, Repr

/-- The kind of fault, as the program names it. -/
def LoadError.kind : LoadError → String
  | unopened _ => "could not load config from file"
  | malformed => "could not parse config"

/-- The settings in a file. A directory can be opened, but there are no settings in it. -/
def load (reading : Except FileError Bytes) : Except LoadError ProgramSettings :=
  match reading with
  | .error .isADirectory => .error .malformed
  | .error e => .error (.unopened e)
  | .ok bytes =>
    match (Bytes.text? bytes).bind ProgramSettings.parse? with
    | some settings => .ok settings
    | none => .error .malformed

/-! ## Starting -/

/-- Why the program ends. -/
inductive Failure where
  | server (e : RunningServer.Error)
  | badStore (e : StoreSettings.Error)
  | noStore
deriving DecidableEq, Repr

/-- The text of a failure. -/
def Failure.message : Failure → String
  | server e => s!"server error: {e.message}"
  | badStore e => s!"invalid store config: {e.message}"
  | noStore => "the watch command needs a store section in the config"

/-- What the program goes on doing. -/
inductive Work where
  | serve (server : RunningServer)
  | publish (settings : StoreSettings)

/-- What a command leads to. -/
def begin (command : Command) (s : ProgramSettings) (d : Disk) : Except Failure Work :=
  match command with
  | .server => (RunningServer.start s.server s.ns d).mapError .server |>.map .serve
  | .watch =>
    match s.store with
    | none => .error .noStore
    | some store =>
      match store.validate with
      | .error e => .error (.badStore e)
      | .ok () => .ok (.publish store)

/-! ## Metrics -/

/-- Whether a text is a number of an address in four parts. -/
def isAddressPart (s : String) : Bool :=
  s ≠ "" && s.toList.all Char.isDigit && (s = "0" || !Path.startsWith s "0") &&
    (s.toNat?.getD 256) < 256

/-- Whether a host can be found without asking anybody: it is an address, or this machine. -/
def isAddress (host : String) : Bool :=
  let parts := Path.splitAt '.' host
  host = "localhost" || (parts.length = 4 && parts.all isAddressPart) ||
    (host.toList.contains ':' &&
      host.toList.all fun c =>
        c.isDigit || ['a', 'b', 'c', 'd', 'e', 'f', ':', '.'].contains c.toLower)

/-- Why no metrics are sent. -/
inductive MetricsError where
  | noHost
  | zeroPort
  | unknownHost
deriving DecidableEq, Repr

/-- The text of an error. -/
def MetricsError.message : MetricsError → String
  | noHost => "Empty hostname is not allowed"
  | zeroPort => "Port number must be nonzero"
  | unknownHost => "Metrics reporting error"

/-- Checks where metrics shall be sent. -/
def checkMetrics (m : MetricsSettings) (knowsHost : String → Bool) : Except MetricsError Unit := do
  if Text.trim m.host = "" then throw .noHost
  if m.port = 0 then throw .zeroPort
  unless knowsHost m.host do throw .unknownHost

/-- What is logged about sending metrics. -/
def metricsLine (m : MetricsSettings) (knowsHost : String → Bool) : LogLine :=
  match checkMetrics m knowsHost with
  | .ok () =>
    ⟨.info, "decider::telemetry", s!"Sending metrics to statsd host={m.host} port={m.port}"⟩
  | .error e =>
    ⟨.error, "decider",
      s!"Metrics disabled error=could not build statsd exporter: {e.message}"⟩

/-! ## Running -/

/-- The filter of the log when none is set. -/
def defaultFilter : String := "info"

/-- What is logged when a command starts. -/
def startLines (command : Command) (s : ProgramSettings) : List LogLine :=
  match command with
  | .server => [⟨.info, "decider", s!"Starting feature server namespace={s.ns}"⟩]
  | .watch => []

/-- Runs a command with settings. -/
def execute (command : Command) (s : ProgramSettings) (around : Surroundings) : Report :=
  let rules := (s.logging.bind (·.level)).getD defaultFilter
  let opening := (s.metrics.map fun m => metricsLine m around.knowsHost).toList
  let (exit, closing) := match begin command s around.disk with
    | .ok _ => (none, [])
    | .error e => (some 1, [⟨.error, "decider", s!"Exiting error={e.message}"⟩])
  ⟨exit, (LogFilter.unusable rules).map fun rule => "ignoring \x60" ++ rule ++ "\x60",
    (opening ++ startLines command s ++ closing).filter (LogFilter.parse rules).lets⟩

/-- Runs the program. -/
def run (args : List String) (around : Surroundings) : Report :=
  match CommandLine.parse args with
  | .help => ⟨some 0, [], []⟩
  | .misuse => ⟨some 2, [], []⟩
  | .run command path =>
    match load (around.readSettings path) with
    | .ok settings => execute command settings around
    | .error e => ⟨some 1, [e.kind], []⟩

end Program

end FeatureFlags
