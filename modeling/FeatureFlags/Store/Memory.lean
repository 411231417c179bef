import FeatureFlags.Store.Basic

/-!
# Stores in memory

The entries are kept in order, so that those whose keys begin with a text stand side by side. Every
change is counted, and whoever follows the store compares the count with the one seen last.
-/

namespace FeatureFlags

/-- A store in the memory of the process. -/
structure MemoryStore where
  entries : SortedMap Bytes
  /-- How often the entries have changed. -/
  generation : Nat

namespace MemoryStore

/-- The store without entries. -/
def empty : MemoryStore := ⟨.empty, 0⟩

instance : Inhabited MemoryStore := ⟨empty⟩

/-- The entries whose keys begin with a text: those from that text on, up to the first that does not
begin with it. -/
def range (s : MemoryStore) (start : String) : List Store.Entry :=
  ((s.entries.toList.dropWhile fun e => e.1 < start).takeWhile fun e =>
    Path.startsWith e.1 start).map fun e => ⟨e.1, e.2⟩

/-- Puts an entry in, without counting the change yet. -/
def put (s : MemoryStore) (key : String) (bytes : Bytes) : MemoryStore :=
  { s with entries := s.entries.insert key bytes }

/-- Takes an entry out, without counting the change yet. -/
def drop (s : MemoryStore) (key : String) : MemoryStore :=
  { s with entries := s.entries.erase key }

/-- Counts a change. -/
def notify (s : MemoryStore) : MemoryStore :=
  { s with generation := s.generation + 1 }

/-- Holds bytes under a key from now on. -/
def set (s : MemoryStore) (key : String) (bytes : Bytes) : Except Store.Error Unit × MemoryStore :=
  if Store.Key.isValid key then (.ok (), (s.put key bytes).notify)
  else (.error (.invalidKey key), s)

/-- Forgets what is under a key. Nothing is counted when there is nothing. -/
def delete (s : MemoryStore) (key : String) : MemoryStore :=
  if s.entries.contains key then (s.drop key).notify else s

instance : Store MemoryStore where
  get? s key := .ok (s.entries.get? key)
  list s start := .ok (s.range start)
  set := set
  delete s key := (.ok (), s.delete key)

/-! ## Following a store -/

/-- Somebody who follows a store, and the count of changes seen last. -/
structure Follower where
  seen : Nat
deriving DecidableEq, Repr

namespace Follower

/-- Follows a store from now on. -/
def of (s : MemoryStore) : Follower := ⟨s.generation⟩

/-- Whether the store has changed since. -/
def isBehind (f : Follower) (s : MemoryStore) : Bool :=
  f.seen ≠ s.generation

end Follower

end MemoryStore

end FeatureFlags
