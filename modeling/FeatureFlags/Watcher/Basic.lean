import FeatureFlags.Files.Disk
import FeatureFlags.Metric

/-!
# Watchers

A watcher hands the contents of a file to a subscriber whenever they change. It watches the
directory of the file and not the file itself, so that it sees a file which takes the place of
another one.

A watcher is initialised first: the file has to be readable, and from then on changes in its
directory are reported. Then a loop may run, which takes over the subscriber and the reports.
Whatever relevant was reported since the last time makes it read the file once; what it reads is
delivered unless it is empty or was delivered last.

Reading is an argument of everything that depends on it: `deliver` gets what reading the file gives.
-/

namespace FeatureFlags

/-- Who is handed the contents. -/
abbrev Subscriber := Nat

/-- How the last initialisation went. -/
inductive Watcher.State where
  | uninitialized
  | watching
  | failed
deriving DecidableEq, Repr

/-- Whether there are reports for a loop to take over. -/
inductive Watcher.Reports where
  | missing
  | waiting
  | taken
deriving DecidableEq, Repr

/-- Hands the contents of a file to a subscriber. -/
structure Watcher where
  path : String
  state : Watcher.State
  reports : Watcher.Reports
  /-- The directories whose changes are reported. -/
  folders : List (List String)
  /-- Whether something relevant was reported that no loop has handled. -/
  isPending : Bool
  lastDelivered : Option Bytes
  /-- Who gets the contents from the next loop on. -/
  subscriber : Option Subscriber
  /-- Who gets the contents from the running loop, if one is running. -/
  loop : Option Subscriber
  isClosed : Bool
deriving DecidableEq, Repr

namespace Watcher

/-- Why an operation on a watcher failed. -/
inductive Error where
  /-- The file could not be read at the start. -/
  | setup (e : FileError)
  | file (e : FileError)
  | emptyFile (path : String)
  | notRegistered
  | notInitialized
deriving DecidableEq, Repr

/-- The text of an error that has a text of its own. -/
def Error.message? : Error → Option String
  | setup _ => none
  | file _ => none
  | emptyFile path => some s!"read empty feature file {path}"
  | notRegistered => some "no subscriber registered"
  | notInitialized => some "watcher is not initialized"

/-- A watcher of the file at a path. -/
def ofPath (path : String) : Watcher where
  path := path
  state := .uninitialized
  reports := .missing
  folders := []
  isPending := false
  lastDelivered := none
  subscriber := none
  loop := none
  isClosed := false

/-- The path of the directory that the file is in. -/
def folderPath (w : Watcher) : String :=
  match (Path.splitLast w.path).1 with
  | "" => if Path.startsWith w.path "/" then "/" else "."
  | path => path

/-! ## Starting and ending -/

/-- Starts to watch a directory whose file has these contents. The reports are new ones, so a loop
that has taken the old ones ends. -/
def arm (w : Watcher) (folder : List String) (bytes : Bytes) : Watcher :=
  { w with
    state := .watching
    reports := .waiting
    folders := [folder]
    isPending := false
    lastDelivered := if bytes = [] then none else some bytes
    loop := none }

/-- Checks that the file is readable and starts to watch its directory. -/
def init (w : Watcher) (d : Disk) : Except Error Unit × Watcher :=
  let started := do
    let bytes ← d.read w.path
    return w.arm (← d.folder w.folderPath) bytes
  match started with
  | .ok w => (.ok (), w)
  | .error e => (.error (.setup e), { w with state := .failed })

/-- Sets who gets the contents from the next loop on. -/
def register (w : Watcher) (s : Subscriber) : Watcher :=
  { w with subscriber := some s }

/-- Starts the loop, which takes over the subscriber and the reports. A closed watcher's loop ends
at once. -/
def watch (w : Watcher) : Except Error Unit × Watcher :=
  if w.state ≠ .watching then (.error .notInitialized, w)
  else match w.subscriber with
    | none => (.error .notRegistered, w)
    | some s =>
      -- The subscriber is taken over even if there are no reports left for a loop.
      let w := { w with subscriber := none }
      if w.reports ≠ .waiting then (.error .notInitialized, w)
      else (.ok (), { w with reports := .taken, loop := if w.isClosed then none else some s })

/-- Ends the loop and the reports. -/
def close (w : Watcher) : Watcher :=
  { w with isClosed := true, folders := [], subscriber := none, loop := none }

/-- Whether somebody may still be handed something. -/
def serves (w : Watcher) (s : Subscriber) : Bool :=
  w.subscriber = some s || w.loop = some s

/-! ## Reports -/

/-- Whether a place has the name of the file in a directory that is watched. -/
def isTarget (w : Watcher) (p : Disk.Place) : Bool :=
  w.folders.contains p.folder && Path.fileName? w.path = some p.name

/-- Whether a change may have changed the contents of the file. A name that is gone has none; one
that became another name inside the watched directories is reported under both. -/
def isRelevant (w : Watcher) : Disk.Change → Bool
  | .touched place => w.isTarget place
  | .removed _ => false
  | .moved source target =>
    w.isTarget target || (w.isTarget source && w.folders.contains target.folder)

/-- The path of a directory after a change: a directory that moves takes along what is in it. -/
def folderAfter (change : Disk.Change) (folder : List String) : List String :=
  match change with
  | .moved source target =>
    match source.path.isPrefixOf? folder with
    | some rest => target.path ++ rest
    | none => folder
  | _ => folder

/-- Takes note of a change on the disk. -/
def note (w : Watcher) (change : Disk.Change) : Watcher :=
  { w with
    isPending := w.isPending || w.isRelevant change
    folders := w.folders.map (folderAfter change) }

/-! ## Delivering -/

/-- What came of handling the reports. -/
inductive Delivery where
  | delivered (bytes : Bytes)
  /-- The contents were delivered before. -/
  | unchanged
  | emptyFile
  | unreadable (e : FileError)
  /-- The subscriber has gone. -/
  | noSubscriber
deriving DecidableEq, Repr

/-- The contents of the file, which must not be empty. -/
def contents (w : Watcher) (reading : Except FileError Bytes) : Except Error Bytes :=
  match reading with
  | .error e => .error (.file e)
  | .ok [] => .error (.emptyFile w.path)
  | .ok bytes => .ok bytes

/-- Delivers what reading the file gives, if it is news. -/
def deliver (w : Watcher) (reading : Except FileError Bytes) (isListening : Bool) :
    Delivery × Watcher :=
  match reading with
  | .error e => (.unreadable e, w)
  | .ok [] => (.emptyFile, w)
  | .ok bytes =>
    if w.lastDelivered = some bytes then (.unchanged, w)
    else if isListening then (.delivered bytes, { w with lastDelivered := some bytes })
    else (.noSubscriber, w)

/-- Watches the directory that the file is in now, too. -/
def rearm (w : Watcher) (folder : Except FileError (List String)) : Watcher :=
  match folder with
  | .ok folder => if w.folders.contains folder then w else { w with folders := folder :: w.folders }
  | .error _ => w

/-- Lets the loop handle the reports that are there, all at once. Tells what came of it. -/
def handle (w : Watcher) (d : Disk) (isListening : Subscriber → Bool) : Option Delivery × Watcher :=
  match w.loop, w.isPending with
  | some s, true =>
    match { w with isPending := false }.deliver (d.read w.path) (isListening s) with
    | (.noSubscriber, w) => (some .noSubscriber, { w with loop := none })
    -- The path may lead to another directory by now.
    | (delivery, w) => (some delivery, w.rearm (d.folder w.folderPath))
  | _, _ => (none, w)

/-- What handling the reports measures. -/
def measurements (w : Watcher) (d : Disk) (delivery : Option Delivery) : List Measurement :=
  let rearming : List Measurement :=
    if (d.folder w.folderPath).toBool then [] else [.occurred .watchErrors none]
  match delivery with
  | none => []
  | some .noSubscriber => []
  | some (.delivered _) => .occurred .deliveries none :: rearming
  | some (.unreadable _) => .occurred .watchErrors none :: rearming
  | some _ => rearming

end Watcher

end FeatureFlags
