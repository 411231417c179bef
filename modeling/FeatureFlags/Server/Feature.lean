import FeatureFlags.Client.Basic
import FeatureFlags.Http.Date
import FeatureFlags.Http.Message
import FeatureFlags.RequestedScopes
import FeatureFlags.Settings.Server

/-!
# The feature server

Serves what a client resolves, as a document. A request may ask for scopes in a header, which comes
back in the response. The version of the installed map is the entity tag of every document, so a
request that names it is answered without a body. No response may be cached.
-/

namespace FeatureFlags

open Http

/-- What the feature server serves, and where. -/
structure FeatureServer where
  endpoint : String
  jsonRoot : String
  scopesHeader : String

namespace FeatureServer

/-- The server that settings describe. -/
def ofSettings (s : ServerSettings) (ns : String) : Except ServerSettings.Error FeatureServer := do
  s.validate ns
  return ⟨s.endpointFor ns, s.jsonRootFor ns, ← s.scopesHeaderName⟩

/-- The scopes that a request asks for. An unreadable header asks for none. -/
def requestedScopes (f : FeatureServer) (headers : Headers) : List String :=
  match (headers.get? f.scopesHeader).bind headerText? with
  | some text => RequestedScopes.parse text
  | none => []

/-- The version that an entity tag names, without blanks, the mark of a weak tag and quotes. -/
def tagVersion (tag : String) : String :=
  let tag := Text.trim tag
  let tag := (Path.after? "W/" tag).getD tag
  String.ofList (Text.trimList (· = '"') tag.toList)

/-- The versions that a request has already. -/
def knownVersions (headers : Headers) : List String :=
  ((headers.getAll "if-none-match").filterMap headerText?).flatMap fun text =>
    (Path.splitAt ',' text).map tagVersion

/-- Whether a request has a version already. Nobody has the empty one. -/
def isKnown (headers : Headers) (version : String) : Bool :=
  version ≠ "" && (knownVersions headers).contains version

/-- The entity tag of a version, if it can stand in a header. -/
def entityTag? (version : String) : Option Bytes :=
  if version = "" then none else headerValue? (Bytes.ofString version)

/-- Sets a header if there is a value for it. -/
def withHeader? (r : Response) (name : String) (value : Option Bytes) : Response :=
  value.elim r (r.setHeader name)

/-- The response to a request for the document. -/
def serve (f : FeatureServer) (c : Client) (headers : Headers) : Response :=
  let document := c.document f.jsonRoot (f.requestedScopes headers)
  let tag := entityTag? document.version
  -- The tag goes out even when the document does not.
  if isKnown headers document.version then
    withHeader? ⟨Status.notModified, [], []⟩ "etag" tag
  else
    let response : Response :=
      ⟨Status.ok, [("content-type", Bytes.ofString "application/json")], document.write⟩
    let modified := (document.lastModified.bind fun t => date? t.toInt).map Bytes.ofString
    withHeader? (withHeader? response "etag" tag) "last-modified" modified

/-- The response before the headers that every response has. -/
def answer (f : FeatureServer) (c : Client) (r : Request) : Response :=
  if r.path ≠ f.endpoint then .ofStatus Status.notFound
  else if !isReading r.method then .ofStatus Status.methodNotAllowed
  else f.serve c r.headers

/-- The headers that keep a response from being cached. -/
def uncached (r : Response) : Response :=
  ((r.setHeader "cache-control" (Bytes.ofString "no-cache, no-store, must-revalidate")).setHeader
    "pragma" (Bytes.ofString "no-cache")).setHeader "expires" (Bytes.ofString "0")

/-- The response to a request. -/
def respond (f : FeatureServer) (c : Client) (r : Request) : Response :=
  withHeader? (uncached (f.answer c r)) f.scopesHeader (r.headers.get? f.scopesHeader)

/-- What a response measures: every response counts by its status, documents also by their size. -/
def measurements (r : Response) : List Measurement :=
  (if r.status = Status.ok then [.saw .responseBytes (some r.body.length)]
    else if r.status = Status.notModified then [.occurred .notModified none]
    else []) ++
  [.occurred .requests (some ("status", toString r.status))]

end FeatureServer

end FeatureFlags
