import FeatureFlags.Files.Folder
import FeatureFlags.Registry

/-!
# Publishing snapshots

The publisher keeps the feature file current. It remembers the version that it wrote last and writes
again only when the snapshot has another one; nobody else writes the file.
-/

namespace FeatureFlags

/-- Writes the feature file. -/
structure Publisher where
  /-- The path of the feature file. -/
  output : List String
  lastVersion : Option String
deriving DecidableEq, Repr

namespace Publisher

/-- Why the file is not current. -/
inductive Error where
  /-- There is no snapshot. -/
  | registry (e : Registry.Error)
  /-- The file cannot be written. -/
  | write (e : FileError)
deriving DecidableEq, Repr

/-- A publisher that has not written anything. -/
def new (output : List String) : Publisher := ⟨output, none⟩

/-- Takes the version of a file that is there already for the one written last, so that a restart
does not write it again. -/
def prime (p : Publisher) (folder : Folder) : Publisher :=
  match folder.read p.output with
  | .error _ => p
  | .ok bytes =>
    match FeatureMap.parse bytes with
    | .error _ => p
    | .ok m => if m.version = "" then p else { p with lastVersion := some m.version }

/-- The map that a snapshot is published as, which says when that was. -/
def published (snapshot : FeatureMap) (now : Int64) : FeatureMap :=
  snapshot.setInfo ⟨snapshot.version, now⟩

section

variable (write : Folder.Writer) (p : Publisher) (now : Int64) (folder : Folder)

/-- Writes a snapshot unless its version was written last. Tells whether it was written. -/
def publishBy (snapshot : FeatureMap) : Except Error Bool × Publisher × Folder :=
  if p.lastVersion = some snapshot.version then (.ok false, p, folder)
  else
    -- Only a version that is in the file is remembered, so a failed write is tried again.
    match write folder p.output (published snapshot now).write with
    | (.ok (), folder) => (.ok true, { p with lastVersion := some snapshot.version }, folder)
    | (.error e, folder) => (.error (.write e), p, folder)

/-- Writes the snapshot of a store, if there is one. -/
def syncBy (snapshot : Except Registry.Error FeatureMap) :
    Except Error Bool × Publisher × Folder :=
  match snapshot with
  | .error e => (.error (.registry e), p, folder)
  | .ok snapshot => p.publishBy write now folder snapshot

end

/-- Writes a snapshot to the folder unless its version was written last. -/
def publish (p : Publisher) (snapshot : FeatureMap) (now : Int64) (folder : Folder) :
    Except Error Bool × Publisher × Folder :=
  p.publishBy Folder.write now folder snapshot

/-- Writes the snapshot of a store to the folder, if there is one. -/
def sync (p : Publisher) (snapshot : Except Registry.Error FeatureMap) (now : Int64)
    (folder : Folder) : Except Error Bool × Publisher × Folder :=
  p.syncBy Folder.write now folder snapshot

/-- What a sync measures, the build of the snapshot included. -/
def syncMeasurements (snapshot : Except Registry.Error FeatureMap) (outcome : Except Error Bool) :
    List Measurement :=
  Registry.snapshotMeasurements snapshot ++
  (if snapshot.toBool then [.saw .buildDuration none] else []) ++
  (match outcome with
    | .ok true => [.occurred .fileWrites none]
    | _ => [])

end Publisher

end FeatureFlags
