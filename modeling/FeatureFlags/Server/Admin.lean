import FeatureFlags.Http.Message

/-!
# The admin server

Tells whether the process is alive and whether it has something to serve.
-/

namespace FeatureFlags.AdminServer

open Http

/-- The response to a request, given whether there is something to serve. -/
def respond (isReady : Bool) (r : Request) : Response :=
  let fine : Response := ⟨Status.ok, [], Bytes.ofString "ok\n"⟩
  if !isReading r.method then .ofStatus Status.methodNotAllowed
  else if r.path = "/health" then fine
  else if r.path = "/ready" then
    if isReady then fine else .ofStatus Status.serviceUnavailable
  else .ofStatus Status.notFound

end FeatureFlags.AdminServer
