import FeatureFlags.FeatureMap.Document
import FeatureFlags.Metric
import FeatureFlags.Rollout

/-!
# Clients

A client resolves features for a fixed list of scopes. It holds the feature map that was installed
last and the flat view of that map for its scopes, so that asking for a feature is one look-up.

A map with the version that is installed already is not installed again; maps without a version
always are.
-/

namespace FeatureFlags

/-- Resolves features for its scopes, of which the first has the highest priority. -/
structure Client where
  scopes : List String
  installed : Option FeatureMap
  /-- The flat view of the installed map. -/
  features : Features

namespace Client

/-- The view of a map that may be missing. -/
def view (scopes : List String) (map : Option FeatureMap) : Features :=
  map.elim .empty (·.merged scopes)

/-- The client of a list of scopes with a map that may be missing. -/
def ofMap (scopes : List String) (map : Option FeatureMap) : Client :=
  ⟨scopes, map, view scopes map⟩

/-- The client without scopes and without a map. -/
def new : Client :=
  ofMap [] none

instance : Inhabited Client := ⟨new⟩

/-- The version of the installed map, empty when there is none. -/
def version (c : Client) : String :=
  c.installed.elim "" FeatureMap.version

/-- When the installed features last changed. -/
def lastModified (c : Client) : Option Int64 :=
  c.installed.bind FeatureMap.lastModified

/-- Whether any map is installed. -/
def isReady (c : Client) : Bool :=
  c.installed.isSome

/-! ## Scopes -/

/-- Whether asking for these scopes changes nothing: there are none, or only the empty one. -/
def asksForNothing (scopes : List String) : Bool :=
  scopes = [] || scopes = [""]

/-- A client for further scopes, which rank after the client's own. -/
def withScopes (c : Client) (scopes : List String) : Client :=
  if asksForNothing scopes then c else ofMap (c.scopes ++ scopes) c.installed

/-- The document of what a client with further scopes resolves, as it is served. -/
def document (c : Client) (root : String) (scopes : List String) : FeatureMap :=
  let info := c.installed.bind FeatureMap.info
  match c.installed with
  | some m =>
    .served root info (if scopes = [] then c.features else m.merged (c.scopes ++ scopes))
  | none => .served root info c.features

/-! ## Installing -/

/-- Whether a map is news to the client. -/
def needs (c : Client) (m : FeatureMap) : Bool :=
  c.version = "" || c.version ≠ m.version

/-- Takes over a map, unless its version is installed already. -/
def install (c : Client) (m : FeatureMap) : Client :=
  if c.needs m then ofMap c.scopes (some m) else c

/-- Takes over the map that bytes are; bytes that are none leave the client as it was. Tells whether
the map was news. -/
def update (c : Client) (bytes : Bytes) : Except ParseError Bool × Client :=
  match FeatureMap.parse bytes with
  | .ok m => (.ok (c.needs m), c.install m)
  | .error e => (.error e, c)

/-- Takes over one payload after the other. -/
def updateAll (c : Client) (payloads : List Bytes) : Client :=
  payloads.foldl (fun c bytes => (c.update bytes).2) c

/-! ## Evaluating -/

/-- The value of a feature. -/
def get? (c : Client) (feature : String) : Option Value :=
  c.features.get? feature

/-- Whether a feature is switched on. Numbers never are. -/
def isAvailable (c : Client) (feature : String) : Bool :=
  c.get? feature = some (.bool true)

/-- Whether an entity is inside the rollout of a feature. Nobody is inside that of a switch. -/
def isAvailableFor (c : Client) (feature : String) (id : UInt64) : Bool :=
  match c.get? feature with
  | some (.number share) => Rollout.includes feature id share
  | _ => false

/-- Maps the number of a feature onto the range from `low` to `high`; all else means `low`. -/
def scale (c : Client) (feature : String) (low high : Float) : Float :=
  match c.get? feature with
  | some (.number x) => low + (high - low) * x
  | _ => low

/-- Whether the client knows a feature. -/
def has (c : Client) (feature : String) : Bool :=
  c.features.contains feature

/-! ## Measurements -/

/-- What installing a map measures. -/
def installMeasurements (c : Client) (m : FeatureMap) : List Measurement :=
  if c.needs m then
    [.became .mergedFeatures (c.install m).features.size, .occurred .installs none]
  else []

/-- What an update measures. -/
def updateMeasurements (c : Client) (bytes : Bytes) : List Measurement :=
  match FeatureMap.parse bytes with
  | .ok m => c.installMeasurements m
  | .error _ => [.occurred .parseErrors none]

end Client

end FeatureFlags
