import FeatureFlags.Program

/-!
# The executable

Reads the settings file and prints what the program has to say. Listening for requests and following
a store over time are left to whoever builds a service around the library.
-/

open FeatureFlags

/-- What reading a file of this machine gives. -/
def readMachineFile (path : String) : IO (Except FileError Bytes) := do
  try
    return .ok (← IO.FS.readBinFile path).data.toList
  catch
    | .inappropriateType .. => return .error .isADirectory
    | _ => return .error .notFound

/-- The path of the settings file, if the command line names one. -/
def settingsPath? (args : List String) : Option String :=
  match CommandLine.parse args with
  | .run _ path => some path
  | _ => none

def main (args : List String) : IO UInt32 := do
  let settings ← match settingsPath? args with
    | some path => readMachineFile path
    | none => pure (.error .notFound)
  let report := Program.run args ⟨fun _ => settings, Program.isAddress, .empty⟩
  for line in report.log do
    IO.println line.render
  for complaint in report.complaints do
    IO.eprintln complaint
  return (report.exit.getD 0).toUInt32
