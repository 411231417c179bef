import FeatureFlags.Publisher
import FeatureFlags.Store.Directory
import FeatureFlags.Store.Memory

/-!
# Sites

A store of one of the backends, and the folder in which the feature file is written. A store in a
directory lives in that same folder.
-/

namespace FeatureFlags

/-- A store and the folder of the feature file. -/
inductive Site where
  | memory (store : MemoryStore) (folder : Folder)
  | directory (store : DirectoryStore)

namespace Site

/-- The folder in which the feature file is written. -/
def folder : Site → Folder
  | memory _ folder => folder
  | directory store => store.folder

/-- The site with another folder. -/
def withFolder (s : Site) (folder : Folder) : Site :=
  match s with
  | memory store _ => memory store folder
  | directory store => directory { store with folder := folder }

instance : Store Site where
  get?
    | memory store _, key => Store.get? store key
    | directory store, key => Store.get? store key
  list
    | memory store _, start => Store.list store start
    | directory store, start => Store.list store start
  set
    | memory store folder, key, bytes =>
      let (outcome, store) := Store.set store key bytes
      (outcome, memory store folder)
    | directory store, key, bytes =>
      let (outcome, store) := Store.set store key bytes
      (outcome, directory store)
  delete
    | memory store folder, key =>
      let (outcome, store) := Store.delete store key
      (outcome, memory store folder)
    | directory store, key =>
      let (outcome, store) := Store.delete store key
      (outcome, directory store)

/-- How often the store has changed, if it can tell. -/
def generation? : Site → Option Nat
  | memory store _ => some store.generation
  | directory _ => none

/-- Brings the feature file up to date. -/
def sync (s : Site) (ns : String) (p : Publisher) (now : Int64) :
    Except Publisher.Error Bool × Publisher × Site :=
  let (outcome, p, folder) := p.sync (Registry.snapshot ns s) now s.folder
  (outcome, p, s.withFolder folder)

/-- What bringing the feature file up to date measures. -/
def syncMeasurements (s : Site) (ns : String) (p : Publisher) (now : Int64) : List Measurement :=
  Publisher.syncMeasurements (Registry.snapshot ns s) (s.sync ns p now).1

end Site

end FeatureFlags
