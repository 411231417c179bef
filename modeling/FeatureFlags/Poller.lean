import FeatureFlags.Client.Basic
import FeatureFlags.Http.Message
import FeatureFlags.Settings.Server

/-!
# Pollers

A poller keeps a client current by asking a feature server again and again. It names the version
that the client has, so that a server with nothing new answers without a document. Served documents
are resolved for the poller's scopes already, so the client should have none of its own.

How requests travel is left open: `poll` takes the function that sends the headers of a request and
brings back the response, if there is one.
-/

namespace FeatureFlags

open Http

/-- Keeps a client current. -/
structure Poller where
  client : Client
  scopes : List String
  /-- The name of the header in which scopes are asked for, in lower case. -/
  scopesHeader : String

namespace Poller

/-- What a response was good for. -/
inductive Outcome where
  | installed
  /-- The document has the version that is installed already. -/
  | unchanged
  /-- The server had nothing new and sent no document. -/
  | notModified
deriving DecidableEq, Repr

/-- Why a poll failed. -/
inductive Error where
  /-- No whole response came back. -/
  | noResponse
  | badStatus (status : Status)
  | badDocument (e : ParseError)
  /-- A header's name or its value cannot be sent. -/
  | badHeader (name : String)
deriving DecidableEq, Repr

/-- The text of an error that has a text of its own. -/
def Error.message? : Error → Option String
  | noResponse => none
  | badStatus status =>
    let reason := status.reason?.getD "<unknown status code>"
    some s!"unexpected status {status} {reason}"
  | badDocument e => e.message?
  | badHeader name => some s!"invalid header: {name}"

/-- The poller of a client, without scopes. -/
def ofClient (c : Client) : Poller :=
  ⟨c, [], defaultScopesHeader⟩

/-- Asks for scopes in the header of another name. -/
def withScopesHeader (p : Poller) (name : String) : Except Error Poller :=
  match headerName? name with
  | some name => .ok { p with scopesHeader := name }
  | none => .error (.badHeader name)

/-- A header that is sent only if it says something. -/
def header? (name text : String) (isSent : Bool) : Except Error Headers :=
  if isSent then
    match headerValue? (Bytes.ofString text) with
    | some value => .ok [(name, value)]
    | none => .error (.badHeader name)
  else .ok []

/-- The headers of the next request: the client's version and the scopes of the poller. -/
def headers (p : Poller) : Except Error Headers := do
  let version ← header? "if-none-match" p.client.version (p.client.version ≠ "")
  let scopes ← header? p.scopesHeader (",".intercalate p.scopes) (p.scopes ≠ [])
  return version ++ scopes

/-- The map in a response, if there has to be one. -/
def receive (r : Response) : Except Error (Option FeatureMap) :=
  if r.status = Status.notModified then .ok none
  else if r.status = Status.ok then
    match FeatureMap.parse r.body with
    | .ok m => .ok (some m.restored)
    | .error e => .error (.badDocument e)
  else .error (.badStatus r.status)

/-- The map that a poll brings, if it brings one. -/
def fetch (p : Poller) (send : Headers → Option Response) : Except Error (Option FeatureMap) := do
  match send (← p.headers) with
  | some response => receive response
  | none => throw .noResponse

/-- What it means to a client that a poll brought this. -/
def outcome (c : Client) : Option FeatureMap → Outcome
  | none => .notModified
  | some m => if c.needs m then .installed else .unchanged

/-- Polls once. A poll that fails leaves the client as it was. -/
def poll (p : Poller) (send : Headers → Option Response) : Except Error Outcome × Poller :=
  match p.fetch send with
  | .ok fetched =>
    (.ok (outcome p.client fetched),
      { p with client := fetched.elim p.client p.client.install })
  | .error e => (.error e, p)

/-- Polls until the transport is used up. -/
def pollAll (p : Poller) (sends : List (Headers → Option Response)) : Poller :=
  sends.foldl (fun p send => (p.poll send).2) p

/-- What a poll measures. -/
def measurements (p : Poller) (send : Headers → Option Response) : List Measurement :=
  match p.fetch send with
  | .ok fetched => fetched.elim [] p.client.installMeasurements
  | .error _ => []

/-- What a failed poll measures besides when polls are repeated. -/
def failureMeasurements (outcome : Except Error Outcome) : List Measurement :=
  if outcome.toBool then [] else [.occurred .pollErrors none]

end Poller

end FeatureFlags
