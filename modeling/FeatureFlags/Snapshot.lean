import FeatureFlags.FeatureMap.Document
import FeatureFlags.Record

/-!
# Snapshots

The feature map of what a store holds for a namespace. Every record stands where its key says, not
where the record itself says: the last segment of the key is the feature and the segments before it
are the scope. The snapshot's version is the fingerprint of its features, so it changes exactly when
they do.
-/

namespace FeatureFlags.Snapshot

open Store

/-- Why entries have no snapshot. -/
inductive Error where
  /-- Under a key of the namespace there is no record. -/
  | badRecord (key : String)
deriving DecidableEq, Repr

/-- Files the record of an entry into a map. Entries outside the namespace, records without a value
and keys without a feature count for nothing. -/
def file (ns : String) (m : FeatureMap) (entry : Entry) : Except Error FeatureMap :=
  match Path.after? (Key.featuresPrefix ns) entry.key with
  | none => .ok m
  | some path =>
    match Record.parse? entry.bytes with
    | none => .error (.badRecord entry.key)
    | some record =>
      match record.value with
      | none => .ok m
      | some value =>
        let (scope, name) := Path.splitLast path
        .ok (if name = "" then m else m.insert scope name value)

/-- The features of all entries, filed one after the other. -/
def collect (ns : String) (entries : List Entry) : Except Error FeatureMap :=
  entries.foldlM (file ns) (.empty ns)

/-- A map with its own fingerprint for a version. -/
def stamp (m : FeatureMap) (lastModified : Int64) : FeatureMap :=
  m.setInfo ⟨m.fingerprint, lastModified⟩

/-- The snapshot of the entries of a store. -/
def build (ns : String) (entries : List Entry) : Except Error FeatureMap :=
  (collect ns entries).map (stamp · 0)

end FeatureFlags.Snapshot
