import FeatureFlags.Given
import FeatureFlags.Json.Number
import FeatureFlags.Json.Text
import FeatureFlags.SortedMap

/-!
# Giving documents a meaning

The pieces of every schema. A record is an object, whose unknown members are ignored, or an array of
its fields in their order. A dictionary is an object in which the last member of a name counts.

Documents that are given a meaning may nest to a limited depth, while ignored ones may nest to any:
`room` counts the brackets and braces that may still be opened.
-/

namespace FeatureFlags.Json

/-- How many brackets and braces may be open at once. -/
def maxDepth : Nat := 127

namespace Doc

/-- The text that a document is. -/
def text? : Doc → Option String
  | .string raw => Json.text? raw
  | _ => none

/-- The whole number that a document is. -/
def int? : Doc → Option Int
  | .number n => Json.int? n
  | _ => none

/-- The whole number between `low` and `high` that a document is. -/
def intBetween? (low high : Int) (d : Doc) : Option Int := do
  let i ← d.int?
  guard (low ≤ i ∧ i ≤ high)
  return i

/-- Applies a reading to anything but null, which stands for nothing given. -/
def nullable? {α : Type} (read : Doc → Option α) : Doc → Option (Option α)
  | .null => some none
  | d => (read d).map some

/-- The members with their names as texts. -/
def namedMembers? (members : List (Bytes × Doc)) : Option (List (String × Doc)) :=
  members.mapM fun (raw, value) => do
    return (← Json.text? raw, value)

/-- The dictionary of an object: a value for every name, read from its last member, provided that
the value of every member can be read. -/
def dictionary? {α : Type} (read : Doc → Option α) (members : List (Bytes × Doc)) :
    Option (SortedMap α) := do
  let named ← namedMembers? members
  let values ← named.mapM fun (name, value) => do
    return (name, ← read value)
  return SortedMap.ofList values

/-- What a document gives for a record whose fields have these names. -/
def given? (names : List (List String)) (room : Nat) (doc : Doc) : Option (Given Doc) := do
  guard (0 < room)
  match doc with
  | .object members => Given.ofMembers? names (← namedMembers? members)
  | .array items => Given.ofItems? names.length items
  | _ => none

end Doc

end FeatureFlags.Json
