import FeatureFlags.Text.Blank
import FeatureFlags.Text.Path

/-!
# Requested scopes

The list of scopes that a request asks for, written with commas in between. Blanks around an entry
do not belong to it, empty entries and repetitions are dropped, and only so many scopes are granted
to one request.
-/

namespace FeatureFlags.RequestedScopes

/-- The number of scopes that a request may ask for; further ones are dropped. -/
def limit : Nat := 8

/-- The entries of a written list, trimmed. -/
def entries (s : String) : List String :=
  (Path.splitAt ',' s).map Text.trim

/-- The scopes that a written list asks for. -/
def parse (s : String) : List String :=
  ((entries s).filter (· ≠ "")).eraseDups.take limit

/-- The written list of scopes. -/
def join (scopes : List String) : String :=
  ",".intercalate scopes

end FeatureFlags.RequestedScopes
