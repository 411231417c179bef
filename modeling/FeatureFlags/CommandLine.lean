/-!
# The command line

The program has two commands, each of which needs the path of the settings file.
-/

namespace FeatureFlags

/-- What the program can be told to do. -/
inductive Command where
  /-- Serve the feature file. -/
  | server
  /-- Write the feature file from the store. -/
  | watch
deriving DecidableEq, Repr

namespace Command

/-- The command of a name. -/
def ofName? : String → Option Command
  | "server" => some server
  | "watch" => some watch
  | _ => none

end Command

/-- What a command line asks for. -/
inductive CommandLine where
  | help
  /-- It cannot be understood. -/
  | misuse
  | run (command : Command) (settingsPath : String)
deriving DecidableEq, Repr

namespace CommandLine

/-- Whether an argument asks for help. What follows the letter does not matter. -/
def asksForHelp (arg : String) : Bool :=
  arg = "--help" || ['-', 'h'].isPrefixOf arg.toList

/-- Whether an argument is taken for an option where a value should stand. A single dash is not. -/
def looksLikeOption (arg : String) : Bool :=
  ['-'].isPrefixOf arg.toList && arg ≠ "-"

/-- The value that an argument gives for the path of the settings. -/
def attachedPath? (arg : String) : Option String :=
  ("--config=".toList.isPrefixOf? arg.toList).map String.ofList

/-- Whether a path may be taken: it says something, and none was given before. -/
def isAcceptable (path : String) (given : Option String) : Bool :=
  path ≠ "" && given.isNone

/-- Reads what follows the name of a command. -/
def parseOptions (command : Command) (given : Option String) : List String → CommandLine
  | [] | ["--"] => given.elim misuse (run command)
  -- What looks like an option is never taken for the value of one.
  | "--config" :: value :: rest =>
    if looksLikeOption value ∨ !isAcceptable value given then misuse
    else parseOptions command (some value) rest
  | arg :: rest =>
    match attachedPath? arg with
    | some value =>
      if isAcceptable value given then parseOptions command (some value) rest else misuse
    | none => if asksForHelp arg then help else misuse

/-- Reads a command line. -/
def parse : List String → CommandLine
  | [] => misuse
  | "help" :: topics =>
    match topics with
    | [] => help
    | [topic] => if topic = "help" ∨ (Command.ofName? topic).isSome then help else misuse
    | _ => misuse
  | arg :: rest =>
    match Command.ofName? arg with
    | some command => parseOptions command none rest
    | none => if asksForHelp arg then help else misuse

end CommandLine

end FeatureFlags
