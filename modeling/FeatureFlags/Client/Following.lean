import FeatureFlags.Client.Basic
import FeatureFlags.Watcher.Basic

/-!
# Following a file

A client that follows a feature file installs what is in it at the start, and everything that a
watcher delivers afterwards.
-/

namespace FeatureFlags

/-- A client and the watcher of the file that it follows. -/
structure Following where
  client : Client
  watcher : Watcher

namespace Following

/-- The one subscriber of the watcher. -/
def subscriber : Subscriber := 0

/-- Makes a client follow the file at a path. A file that is readable but has no map in it is
followed all the same. -/
def start (c : Client) (path : String) (d : Disk) : Except Watcher.Error Following :=
  match (Watcher.ofPath path).init d with
  | (.error e, _) => .error e
  | (.ok (), w) =>
    let client := match w.contents (d.read path) with
      | .ok bytes => (c.update bytes).2
      | .error _ => c
    .ok ⟨client, (w.register subscriber).watch.2⟩

/-- What starting measures. -/
def startMeasurements (c : Client) (path : String) (d : Disk) : List Measurement :=
  match (Watcher.ofPath path).init d with
  | (.error _, _) => []
  | (.ok (), w) => match w.contents (d.read path) with
    | .ok bytes => c.updateMeasurements bytes
    | .error _ => []

/-- Takes note of a change on the disk. -/
def note (f : Following) (change : Disk.Change) : Following :=
  { f with watcher := f.watcher.note change }

/-- Handles what was noted. -/
def handle (f : Following) (d : Disk) : Following :=
  match f.watcher.handle d fun _ => true with
  | (some (.delivered bytes), w) => ⟨(f.client.update bytes).2, w⟩
  | (_, w) => ⟨f.client, w⟩

/-- What handling measures. -/
def measurements (f : Following) (d : Disk) : List Measurement :=
  let delivery := (f.watcher.handle d fun _ => true).1
  f.watcher.measurements d delivery ++
  match delivery with
  | some (.delivered bytes) => f.client.updateMeasurements bytes
  | _ => []

/-- Stops following the file. The client keeps what it has. -/
def close (f : Following) : Following :=
  { f with watcher := f.watcher.close }

end Following

end FeatureFlags
