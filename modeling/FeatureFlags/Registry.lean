import FeatureFlags.Metric
import FeatureFlags.Snapshot
import FeatureFlags.Store.Basic

/-!
# The registry of features

Validated reading and writing of the records of one namespace in a store. A record that is written
takes from the stored one what it leaves empty, and the kind of a feature never changes.

* `Registry.complete` — the record that a request to write amounts to, or why it is refused.
-/

namespace FeatureFlags.Registry

variable {σ : Type} [Store σ]

/-- Why the registry refused. -/
inductive Error where
  /-- The kind of a feature would change. -/
  | kindChange
  /-- A new feature has no value. -/
  | noValue
  /-- A feature has no name. -/
  | emptyKey
  /-- The name of a feature has a slash in it. -/
  | slashInKey (key : String)
  /-- The value is not of the kind that the feature has. -/
  | kindMismatch (kind : Kind)
  /-- There is no record under a store key. -/
  | notFound (storeKey : String)
  /-- What is stored is not what it should be. -/
  | badDocument
  | store (e : Store.Error)
  | snapshot (e : Snapshot.Error)
deriving DecidableEq, Repr

/-- The text of an error of the registry itself. -/
def Error.message? : Error → Option String
  | kindChange => some "cannot change the type of an existing feature"
  | noValue => some "value cannot be empty for a new feature"
  | emptyKey => some "feature key cannot be empty"
  | slashInKey key => some s!"feature key cannot contain '/': {key}"
  | kindMismatch kind => some s!"value does not match feature type {kind.name}"
  | notFound key => some s!"{key} not found"
  | store e => e.message?
  | badDocument | snapshot _ => none

/-! ## Records -/

/-- The record under a store key, if there is one. -/
def stored? (store : σ) (storeKey : String) : Except Error (Option Record) :=
  match Store.get? store storeKey with
  | .error e => .error (.store e)
  | .ok none => .ok none
  | .ok (some bytes) =>
    match Record.parse? bytes with
    | some record => .ok (some record)
    | none => .error .badDocument

/-- The record of a feature in a scope. -/
def get (ns key scope : String) (store : σ) : Except Error Record :=
  match stored? store (Store.Key.ofFeature ns scope key) with
  | .error e => .error e
  | .ok none => .error (.notFound (Store.Key.ofFeature ns scope key))
  | .ok (some record) => .ok record

/-- The records of a scope whose names begin with a text. -/
def list (ns start scope : String) (store : σ) : Except Error (List Record) :=
  match Store.list store (Path.join [Store.Key.scopePrefix ns scope, start]) with
  | .error e => .error (.store e)
  | .ok entries =>
    match entries.mapM fun e => Record.parse? e.bytes with
    | some records => .ok records
    | none => .error .badDocument

/-- A record in its place: of the namespace, and with a scope. -/
def place (ns : String) (r : Record) : Record :=
  { r with ns := ns, scope := r.scopeName }

/-- A record with what it leaves empty filled in from the stored one. -/
def fill (r old : Record) : Except Error Record :=
  let r := { r with
    comment := if r.comment = "" then old.comment else r.comment
    value := r.value.or old.value }
  -- A kind that neither of them declares is left to the value.
  match r.kind, old.kind with
  | some new, some kind => if new ≠ kind then .error .kindChange else .ok r
  | some _, none => .ok r
  | none, kind => .ok { r with kind := kind }

/-- A record with the kind of its value, if it has one. -/
def withKind (r : Record) : Except Error Record :=
  match r.value with
  | none => .ok r
  | some value =>
    match r.kind with
    | none => .ok { r with kind := some value.kind }
    | some kind => if kind ≠ value.kind then .error (.kindMismatch kind) else .ok r

/-- What a record amounts to, given the stored one. -/
def complete (r : Record) : Option Record → Except Error Record
  | some old => do withKind (← fill r old)
  | none => if r.value.isNone then .error .noValue else withKind r

/-- The record that a request to write amounts to. -/
def prepare (ns : String) (r : Record) (store : σ) : Except Error Record :=
  if r.key = "" then .error .emptyKey
  else if r.key.toList.contains '/' then .error (.slashInKey r.key)
  else do complete (place ns r) (← stored? store (place ns r).storeKey)

/-- Writes a record and tells what was written. -/
def set (ns : String) (r : Record) (store : σ) : Except Error Record × σ :=
  match prepare ns r store with
  | .error e => (.error e, store)
  | .ok r =>
    match Store.set store r.storeKey r.write with
    | (.ok (), store) => (.ok r, store)
    | (.error e, store) => (.error (.store e), store)

/-- Deletes a record and tells what it was. It is deleted from where it says that it stands. -/
def delete (ns key scope : String) (store : σ) : Except Error Record × σ :=
  match get ns key scope store with
  | .error e => (.error e, store)
  | .ok record =>
    match Store.delete store record.storeKey with
    | (.ok (), store) => (.ok record, store)
    | (.error e, store) => (.error (.store e), store)

/-! ## The info block and the snapshot -/

/-- The stored info block; without one it is the info of nothing. -/
def info (ns : String) (store : σ) : Except Error Info :=
  match Store.get? store (Store.Key.ofInfo ns) with
  | .error e => .error (.store e)
  | .ok none | .ok (some []) => .ok Info.none
  | .ok (some bytes) =>
    match (Json.Doc.ofBytes? bytes).bind (Info.ofDoc? Json.maxDepth) with
    | some info => .ok info
    | none => .error .badDocument

/-- Stores an info block. -/
def setInfo (ns : String) (info : Info) (store : σ) : Except Error Unit × σ :=
  let (outcome, store) := Store.set store (Store.Key.ofInfo ns) info.write
  (outcome.mapError .store, store)

/-- The snapshot of everything in the namespace. -/
def snapshot (ns : String) (store : σ) : Except Error FeatureMap :=
  match Store.list store (Store.Key.featuresPrefix ns) with
  | .error e => .error (.store e)
  | .ok entries => (Snapshot.build ns entries).mapError .snapshot

/-! ## Measurements -/

/-- What a write measures. -/
def setMeasurements (outcome : Except Error Record) : List Measurement :=
  if outcome.toBool then [.occurred .storeWrites (some ("op", "set"))] else []

/-- What a deletion measures. -/
def deleteMeasurements (outcome : Except Error Record) : List Measurement :=
  if outcome.toBool then [.occurred .storeWrites (some ("op", "delete"))] else []

/-- What building a snapshot measures. -/
def snapshotMeasurements (outcome : Except Error FeatureMap) : List Measurement :=
  if outcome.toBool then [.occurred .builds none] else []

end FeatureFlags.Registry
