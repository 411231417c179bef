import FeatureFlags.Bytes
import FeatureFlags.FeatureMap.Basic
import FeatureFlags.Text.Path

/-!
# Store keys

A store holds bytes under keys, which are slash-separated paths. Everything of one namespace stands
below its name: the records of features under

    <namespace>/features/<scope>/<feature>

where the scope may itself have several segments, and the info block under `<namespace>/info`.
-/

namespace FeatureFlags.Store

/-- Bytes held under a key. -/
structure Entry where
  key : String
  bytes : Bytes
deriving DecidableEq

namespace Key

/-- The segment between a namespace and its scopes. -/
def featuresSegment : String := "features"

/-- Whether a segment may stand in a key: it is neither empty nor one of the two names that lead
elsewhere in a directory. -/
def isSegment (s : String) : Bool :=
  s ≠ "" && s ≠ "." && s ≠ ".."

/-- Whether a text is a key. -/
def isValid (key : String) : Bool :=
  (Path.segments key).all isSegment

/-- No segment of a key is empty. -/
theorem ne_empty_of_isValid {key : String} (h : isValid key = true) :
    ∀ segment ∈ Path.segments key, segment ≠ "" := by
  rintro segment hSegment rfl
  have hSolid : isSegment "" = true := List.all_eq_true.1 h "" hSegment
  cases hSolid

/-- What the keys of all records of a namespace begin with. -/
def featuresPrefix (ns : String) : String :=
  Path.join [ns, featuresSegment, ""]

/-- The scope that a scope's name means: the empty one means the default. -/
def scopeOrDefault (scope : String) : String :=
  if scope = "" then defaultScope else scope

/-- What the keys of the records of a scope begin with, without the slash at the end. -/
def scopePrefix (ns scope : String) : String :=
  Path.join [ns, featuresSegment, scopeOrDefault scope]

/-- The key of the record of a feature. -/
def ofFeature (ns scope feature : String) : String :=
  Path.join [scopePrefix ns scope, feature]

/-- The key of the info block of a namespace. -/
def ofInfo (ns : String) : String :=
  Path.join [ns, "info"]

end Key

end FeatureFlags.Store
