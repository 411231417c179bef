import FeatureFlags.Settings.Server

/-!
# Settings of the store side

Which store holds the records, where the feature file is written, and how often the store is asked
when it cannot tell by itself that something changed.
-/

namespace FeatureFlags

open Settings (Source)

/-- What holds the records. -/
inductive Backend where
  /-- A directory with a file for every key. -/
  | directory (base : String)
  /-- The memory of the process. -/
  | memory
deriving DecidableEq, Repr

/-- The settings of the store side. -/
structure StoreSettings where
  backend : Backend
  outputPath : String
  pollSeconds : UInt64
deriving DecidableEq, Repr

namespace StoreSettings

/-- How often the store is asked when nothing else is set. -/
def defaultPollSeconds : UInt64 := 5

/-- Why settings cannot be used. -/
inductive Error where
  | zeroPollInterval
  | noOutputFile
  | emptyBase
deriving DecidableEq, Repr

/-- The text of an error. -/
def Error.message : Error → String
  | zeroPollInterval => "Poll interval cannot be 0"
  | noOutputFile => "Output path must name a file"
  | emptyBase => "Filesystem store base_dir cannot be empty"

/-- The first thing that is wrong with settings, if anything is. -/
def validate (s : StoreSettings) : Except Error Unit := do
  if s.pollSeconds = 0 then throw .zeroPollInterval
  if Path.fileName? s.outputPath = none then throw .noOutputFile
  if s.backend = .directory "" then throw .emptyBase

end StoreSettings

/-! ## Reading -/

variable {δ : Type} [Source δ]

/-- The backend that a document is. -/
def Backend.read? (d : δ) : Option Backend := do
  match ← Source.variant? "type" d with
  | ("filesystem", rest) =>
    let given ← Source.given? ["base_dir"] rest
    return .directory (← given.required? 0 Source.text?)
  | ("memory", rest) =>
    let _ ← Source.given? [] rest
    return .memory
  | _ => none

/-- The store settings that a document is. -/
def StoreSettings.read? (d : δ) : Option StoreSettings := do
  let given ← Source.given? ["backend", "output_path", "poll_interval_secs"] d
  let backend ← given.required? 0 Backend.read?
  let outputPath ← given.optional? 1 defaultFeaturePath Source.text?
  let pollSeconds ← given.optional? 2 StoreSettings.defaultPollSeconds.toNat
    (Source.upTo? (Nat.pow 2 64 - 1))
  return ⟨backend, outputPath, .ofNat pollSeconds⟩

end FeatureFlags
