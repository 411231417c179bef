import FeatureFlags.Http.Header
import FeatureFlags.Settings.Source
import FeatureFlags.Text.Path

/-!
# Settings of the feature server

Where the server listens, which feature file it follows and under which route, root name and header
it serves it. The route and the root name follow the namespace when they are not set.
-/

namespace FeatureFlags

open Settings (Source)

/-- The feature file that is followed and written when no other is set. -/
def defaultFeaturePath : String := "/etc/dcdr/decider.json"

/-- The header in which requests ask for scopes. -/
def defaultScopesHeader : String := "x-dcdr-scopes"

/-- An address to listen on. -/
structure Listener where
  host : String
  port : UInt16
deriving DecidableEq, Repr

/-- The settings of the feature server. -/
structure ServerSettings where
  listener : Listener
  adminListener : Listener
  endpoint : Option String
  jsonRoot : Option String
  scopesHeader : String
  featurePath : String
deriving DecidableEq, Repr

namespace ServerSettings

/-- What is set when nothing is. -/
def default : ServerSettings where
  listener := ⟨"127.0.0.1", 8000⟩
  adminListener := ⟨"127.0.0.1", 8001⟩
  endpoint := none
  jsonRoot := none
  scopesHeader := defaultScopesHeader
  featurePath := defaultFeaturePath

/-- The route of the feature document. -/
def endpointFor (s : ServerSettings) (ns : String) : String :=
  s.endpoint.getD s!"/{ns}.json"

/-- The root name of served documents. -/
def jsonRootFor (s : ServerSettings) (ns : String) : String :=
  s.jsonRoot.getD ns

/-! ## Validation -/

/-- Why settings cannot be served with. -/
inductive Error where
  | zeroPort
  | emptyNamespace
  | badEndpoint (endpoint : String)
  | badScopesHeader (header : String)
  | emptyJsonRoot
deriving DecidableEq, Repr

/-- The text of an error. -/
def Error.message : Error → String
  | zeroPort => "Port cannot be 0"
  | emptyNamespace => "Namespace cannot be empty"
  | badEndpoint endpoint => s!"Endpoint must start with '/': {endpoint}"
  | badScopesHeader header => s!"Invalid scopes header name: {header}"
  | emptyJsonRoot => "JSON root cannot be empty"

/-- The name of the scopes header, in lower case. -/
def scopesHeaderName (s : ServerSettings) : Except Error String :=
  match Http.headerName? s.scopesHeader with
  | some name => .ok name
  | none => .error (.badScopesHeader s.scopesHeader)

/-- The first thing that is wrong with settings, if anything is. -/
def validate (s : ServerSettings) (ns : String) : Except Error Unit := do
  if s.listener.port = 0 ∨ s.adminListener.port = 0 then throw .zeroPort
  if ns = "" then throw .emptyNamespace
  unless Path.startsWith (s.endpointFor ns) "/" do throw (.badEndpoint (s.endpointFor ns))
  if s.jsonRootFor ns = "" then throw .emptyJsonRoot
  let _ ← s.scopesHeaderName

end ServerSettings

/-! ## Reading -/

variable {δ : Type} [Source δ]

/-- The address that a document is. -/
def Listener.read? (d : δ) : Option Listener := do
  let given ← Source.given? ["host", "port"] d
  let host ← given.required? 0 Source.text?
  let port ← given.required? 1 (Source.upTo? 65535)
  return ⟨host, .ofNat port⟩

/-- The server settings that a document is. -/
def ServerSettings.read? (d : δ) : Option ServerSettings := do
  let given ← Source.given? ["listener", "admin_listener", "endpoint", "json_root",
    "scopes_header", "feature_path"] d
  let listener ← given.optional? 0 ServerSettings.default.listener Listener.read?
  let adminListener ← given.optional? 1 ServerSettings.default.adminListener Listener.read?
  let endpoint ← given.missable? 2 (Source.nullable? Source.text?)
  let jsonRoot ← given.missable? 3 (Source.nullable? Source.text?)
  let scopesHeader ← given.optional? 4 ServerSettings.default.scopesHeader Source.text?
  let featurePath ← given.optional? 5 ServerSettings.default.featurePath Source.text?
  return ⟨listener, adminListener, endpoint, jsonRoot, scopesHeader, featurePath⟩

end FeatureFlags
