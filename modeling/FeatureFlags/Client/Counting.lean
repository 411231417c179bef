import FeatureFlags.Client.Basic
import FeatureFlags.Text.Path

/-!
# Counting evaluations

A client whose evaluations are counted: for every feature, how often it was found on and how often
it was found off. Scales and everything else that is not a yes or a no are not counted.
-/

namespace FeatureFlags

/-- A client with the counts of its evaluations. -/
structure CountingClient where
  client : Client
  ns : String
  counts : SortedMap Nat

namespace CountingClient

/-- Starts to count. -/
def ofClient (client : Client) (ns : String) : CountingClient :=
  ⟨client, ns, .empty⟩

/-- The scopes of a client as one part of a key: slashes become points. -/
def scopesPart (scopes : List String) : String :=
  if scopes = [] then defaultScope
  else ".".intercalate (Path.segments (".".intercalate scopes))

/-- The word for the outcome of an evaluation. -/
def outcomeWord (enabled : Bool) : String :=
  if enabled then "enabled" else "disabled"

/-- The key under which an outcome for a feature is counted. -/
def key (c : CountingClient) (feature : String) (enabled : Bool) : String :=
  ".".intercalate [c.ns, scopesPart c.client.scopes, feature, outcomeWord enabled]

/-- Counts an outcome. -/
def count (c : CountingClient) (feature : String) (enabled : Bool) : CountingClient :=
  let key := c.key feature enabled
  { c with counts := c.counts.insert key ((c.counts.get? key).getD 0 + 1) }

/-- Whether a feature is switched on, counted. -/
def isAvailable (c : CountingClient) (feature : String) : Bool × CountingClient :=
  let enabled := c.client.isAvailable feature
  (enabled, c.count feature enabled)

/-- Whether an entity is inside the rollout of a feature, counted. -/
def isAvailableFor (c : CountingClient) (feature : String) (id : UInt64) :
    Bool × CountingClient :=
  let enabled := c.client.isAvailableFor feature id
  (enabled, c.count feature enabled)

/-- Maps the number of a feature onto a range. -/
def scale (c : CountingClient) (feature : String) (low high : Float) : Float :=
  c.client.scale feature low high

/-- Whether the client knows a feature. -/
def has (c : CountingClient) (feature : String) : Bool :=
  c.client.has feature

/-- The flat view of the client. -/
def features (c : CountingClient) : Features :=
  c.client.features

/-- The scopes of the client. -/
def scopes (c : CountingClient) : List String :=
  c.client.scopes

end CountingClient

end FeatureFlags
