import FeatureFlags.Client.Following
import FeatureFlags.Server.Admin
import FeatureFlags.Server.Feature

/-!
# A running server

A server follows the feature file of its settings and answers on two listeners: one serves what is
in the file, the other tells whether anything is served. A file that cannot be followed does not
keep the server from starting; it has nothing to serve then.
-/

namespace FeatureFlags

open Http

/-- A server that has started. -/
structure RunningServer where
  features : FeatureServer
  following : Following

namespace RunningServer

/-- Why a server does not start. -/
inductive Error where
  | badSettings (e : ServerSettings.Error)
deriving DecidableEq, Repr

/-- The text of an error. -/
def Error.message : Error → String
  | badSettings e => s!"invalid config: {e.message}"

/-- Follows the file at a path, or nothing if the file cannot be followed. -/
def follow (c : Client) (path : String) (d : Disk) : Following :=
  match Following.start c path d with
  | .ok following => following
  | .error _ => ⟨c, (Watcher.ofPath path).init d |>.2⟩

/-- The server that settings describe. -/
def start (s : ServerSettings) (ns : String) (d : Disk) : Except Error RunningServer :=
  match FeatureServer.ofSettings s ns with
  | .ok features => .ok ⟨features, follow .new s.featurePath d⟩
  | .error e => .error (.badSettings e)

/-- The response of the feature listener. -/
def respond (s : RunningServer) (r : Request) : Response :=
  s.features.respond s.following.client r

/-- The response of the admin listener. -/
def respondAdmin (s : RunningServer) (r : Request) : Response :=
  AdminServer.respond s.following.client.isReady r

/-- Takes note of a change on the disk. -/
def note (s : RunningServer) (change : Disk.Change) : RunningServer :=
  { s with following := s.following.note change }

/-- Handles what was noted. -/
def handle (s : RunningServer) (d : Disk) : RunningServer :=
  { s with following := s.following.handle d }

end RunningServer

end FeatureFlags
