import FeatureFlags.Json.Number
import FeatureFlags.Json.Reader
import FeatureFlags.Json.Writer
import FeatureFlags.Store.Key
import FeatureFlags.Value

/-!
# Feature records

The record of one feature in one scope, as it is kept in a store: the value and its kind, where the
feature belongs, and a note on what it is for and who changed it last. In a request to write a
record, an empty field stands for what is already stored.
-/

namespace FeatureFlags

open Json (Doc)

/-- The record of a feature in a scope. -/
structure Record where
  kind : Option Kind
  key : String
  ns : String
  scope : String
  value : Option Value
  comment : String
  updatedBy : String
deriving DecidableEq

namespace Record

/-- The record of a feature of which only the value is known. -/
def ofValue (key : String) (value : Value) : Record :=
  ⟨some value.kind, key, "", "", some value, "", ""⟩

/-- The scope that the record belongs to. -/
def scopeName (r : Record) : String :=
  Store.Key.scopeOrDefault r.scope

/-- The key that the record belongs under. -/
def storeKey (r : Record) : String :=
  Store.Key.ofFeature r.ns r.scopeName r.key

/-! ## Documents -/

/-- The document of a record. Fields that are not there are null. -/
def toDoc (r : Record) : Doc :=
  .object [
    (Json.rawOf "feature_type", r.kind.elim .null Kind.toDoc),
    (Json.rawOf "key", .ofString r.key),
    (Json.rawOf "namespace", .ofString r.ns),
    (Json.rawOf "scope", .ofString r.scope),
    (Json.rawOf "value", r.value.elim .null Value.toDoc),
    (Json.rawOf "comment", .ofString r.comment),
    (Json.rawOf "updated_by", .ofString r.updatedBy)]

/-- The stored form of a record. -/
def write (r : Record) : Bytes :=
  r.toDoc.write .compact

/-- The record that a document is. Only the key has to be given. -/
def ofDoc? (room : Nat) (doc : Doc) : Option Record := do
  let given ← doc.given? [["feature_type"], ["key"], ["namespace"], ["scope"], ["value"],
    ["comment"], ["updated_by"]] room
  let kind ← given.optional? 0 none (Doc.nullable? (Kind.ofDoc? (room - 1)))
  let key ← given.required? 1 Doc.text?
  let ns ← given.optional? 2 "" Doc.text?
  let scope ← given.optional? 3 "" Doc.text?
  let value ← given.optional? 4 none (Doc.nullable? Value.ofDoc?)
  let comment ← given.optional? 5 "" Doc.text?
  let updatedBy ← given.optional? 6 "" Doc.text?
  return ⟨kind, key, ns, scope, value, comment, updatedBy⟩

/-- The record that bytes are. -/
def parse? (bytes : Bytes) : Option Record :=
  (Doc.ofBytes? bytes).bind (ofDoc? Json.maxDepth)

end Record

end FeatureFlags
