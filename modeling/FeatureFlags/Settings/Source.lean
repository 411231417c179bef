import FeatureFlags.Given
import FeatureFlags.Json.Fields

/-!
# Where settings are read from

Settings are written in more than one notation. A `Source` is a type of documents with the questions
that every schema asks of a document: whether it is nothing, which text or whole number it is, what
it gives for the fields of a record, and which variant of a choice it is.
-/

namespace FeatureFlags.Settings

/-- Documents that settings can be read from. -/
class Source (δ : Type) where
  /-- Whether a document stands for nothing. -/
  isNothing : δ → Bool
  /-- The text that a document is. -/
  text? : δ → Option String
  /-- The whole number that a document is. -/
  whole? : δ → Option Int
  /-- What a document gives for a record whose fields have these names. -/
  given? : List String → δ → Option (Given δ)
  /-- The name of the variant that a document is, under the given tag or as its first item, and a
  document of what else it says. -/
  variant? : String → δ → Option (String × δ)

namespace Source

variable {δ : Type} [Source δ]

/-- Applies a reading to anything but a document that stands for nothing. -/
def nullable? {α : Type} (read : δ → Option α) (d : δ) : Option (Option α) :=
  if isNothing d then some none else (read d).map some

/-- The whole number up to `high` that a document is. -/
def upTo? (high : Nat) (d : δ) : Option Nat := do
  let i ← whole? d
  guard (0 ≤ i ∧ i ≤ high)
  return i.toNat

end Source

/-! ## Settings in JSON -/

/-- A JSON document and the number of brackets and braces that may be opened in it. -/
structure Placed where
  room : Nat
  doc : Json.Doc

namespace Placed

open Json (Doc)

/-- The settings that a document holds. -/
def ofDoc (doc : Doc) : Placed := ⟨Json.maxDepth, doc⟩

/-- What a document gives for a record. -/
def given? (names : List String) (p : Placed) : Option (Given Placed) :=
  (p.doc.given? (names.map fun name => [name]) p.room).map fun
    | .byName fields => .byName (fields.map fun field => field.map (Placed.mk (p.room - 1)))
    | .byPosition items => .byPosition (items.map (Placed.mk (p.room - 1)))

mutual

/-- Whether everything in a document has a meaning: texts, numbers and the depth. -/
def isReadable (room : Nat) : Doc → Bool
  | .number n => (Json.float? n).isSome
  | .string raw => (Json.text? raw).isSome
  | .array items => 0 < room && areReadable (room - 1) items
  | .object members => 0 < room && membersAreReadable (room - 1) members
  | _ => true

/-- Whether all items of an array have a meaning. -/
def areReadable (room : Nat) : List Doc → Bool
  | [] => true
  | item :: items => isReadable room item && areReadable room items

/-- Whether all members of an object have a meaning. -/
def membersAreReadable (room : Nat) : List (Bytes × Doc) → Bool
  | [] => true
  | (raw, value) :: members =>
    (Json.text? raw).isSome && isReadable room value && membersAreReadable room members

end

/-- The variant that a document is. All of the document has to be readable, also the members that
the variant does not ask for. -/
def variant? (tag : String) (p : Placed) : Option (String × Placed) := do
  guard (isReadable p.room p.doc)
  match p.doc with
  | .object members =>
    let isTag (m : Bytes × Doc) : Bool := Json.text? m.1 = some tag
    match members.filter isTag with
    | [(_, .string raw)] =>
      return (← Json.text? raw, ⟨p.room, .object (members.filter fun m => !isTag m)⟩)
    | _ => none
  | .array (.string raw :: items) => return (← Json.text? raw, ⟨p.room, .array items⟩)
  | _ => none

instance : Source Placed where
  isNothing p := match p.doc with
    | .null => true
    | _ => false
  text? p := p.doc.text?
  whole? p := p.doc.int?
  given? := given?
  variant? := variant?

end Placed

end FeatureFlags.Settings
