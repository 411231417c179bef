import FeatureFlags.Http.Header
import FeatureFlags.Http.Status
import FeatureFlags.Text.Path

/-!
# Requests and responses

Messages as the services of the library see them: of a request the method, the path and the headers,
of a response the status, the headers and the body. Header names are in lower case.
-/

namespace FeatureFlags.Http

/-- Header lines in their order; a name may occur more than once. -/
abbrev Headers := List (String × Bytes)

namespace Headers

/-- The values of a header. -/
def getAll (h : Headers) (name : String) : List Bytes :=
  (h.filter fun (n, _) => n = name).map (·.2)

/-- The first value of a header. -/
def get? (h : Headers) (name : String) : Option Bytes :=
  (h.getAll name).head?

/-- Gives a header this one value. -/
def set (h : Headers) (name : String) (value : Bytes) : Headers :=
  h.filter (fun (n, _) => n ≠ name) ++ [(name, value)]

end Headers

/-- A request. -/
structure Request where
  method : String
  path : String
  headers : Headers

/-- A response. -/
structure Response where
  status : Status
  headers : Headers
  body : Bytes
deriving DecidableEq

namespace Response

/-- Gives a header this one value. -/
def setHeader (r : Response) (name : String) (value : Bytes) : Response :=
  { r with headers := r.headers.set name value }

/-- The response that says no more than its status. -/
def ofStatus (status : Status) : Response :=
  ⟨status, [], Bytes.ofString ((status.reason?.getD "an error occurred") ++ "\n")⟩

end Response

/-- Whether a method only asks for something. -/
def isReading (method : String) : Bool :=
  method = "GET" || method = "HEAD"

/-- What stands in a text before the first of two marks. -/
def upTo (marks : List Char) (s : String) : String :=
  String.ofList (s.toList.takeWhile fun c => !marks.contains c)

/-- The path of a request's target: of a whole address it is what follows the host, and what follows
a path does not count. -/
def pathOf (target : String) : String :=
  if Path.startsWith target "/" ∨ target = "*" then upTo ['?', '#'] target
  else match Path.splitOnce? "://" target with
    | some (_, rest) =>
      let authority := upTo ['/', '?', '#'] rest
      let path := upTo ['?', '#'] (String.ofList (rest.toList.drop authority.length))
      if path = "" then "/" else path
    | none => ""

end FeatureFlags.Http
