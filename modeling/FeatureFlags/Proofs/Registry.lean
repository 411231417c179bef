import FeatureFlags.Proofs.Registry.Verdict
import FeatureFlags.Proofs.SortedMap
import FeatureFlags.Proofs.Store.Memory

/-!
# Runs of the registry

Whatever is written and deleted through the registry of one namespace, starting with an empty store,
every entry of the store is a record of that namespace in its own place: its key is the store key of
the record, and the record has a scope and a name. So a record is found again under its path, and
there is at most one record at a path.

* `Request.apply_wellKept` — one request keeps the store well kept, whether it is granted or not.
* `run_wellKept` — so does every run.
* `eq_of_path_eq` — at most one record is at a path.
-/

namespace FeatureFlags

/-! ## Places of records -/

/-- The key of a feature in a scope behind the part that all keys of the namespace have in common. -/
theorem Store.Key.ofFeature_eq (ns scope name : String) :
    ofFeature ns scope name = featuresPrefix ns ++ (scopeOrDefault scope ++ "/" ++ name) := by
  rw [ofFeature, scopePrefix, featuresPrefix, Path.join_pair, Path.join_triple, Path.join_triple]
  simp only [String.append_assoc, String.append_empty]

namespace Record

/-- The segments under which the features of a map have the value of a record. -/
def path (r : Record) : List String :=
  Path.segments r.scope ++ [r.key]

/-- Whether a record of a namespace belongs under a key. -/
structure IsPlaced (r : Record) (ns key : String) : Prop where
  storeKey : r.storeKey = key
  ns : r.ns = ns
  scope : r.scope ≠ ""
  key_ne : r.key ≠ ""
  no_slash : '/' ∉ r.key.toList
  valid : Store.Key.isValid key = true

variable {r r' : Record} {ns key key' : String}

theorem path_eq_iff {scope name : String} :
    r.path = Path.segments scope ++ [name] ↔ r.scope = scope ∧ r.key = name := by
  unfold path
  constructor
  · intro h
    obtain ⟨hScope, hName⟩ := List.append_inj' h rfl
    exact ⟨Path.segments_injective hScope, List.singleton_inj.1 hName⟩
  · rintro ⟨rfl, rfl⟩
    rfl

theorem scopeName_of_ne (h : r.scope ≠ "") : r.scopeName = r.scope := by
  rw [scopeName, Store.Key.scopeOrDefault, if_neg h]

/-- The key of a record behind the part that all keys of its namespace have in common. -/
theorem storeKey_eq (h : r.scope ≠ "") :
    r.storeKey = Store.Key.featuresPrefix r.ns ++ (r.scope ++ "/" ++ r.key) := by
  have hScope : Store.Key.scopeOrDefault r.scope = r.scope := scopeName_of_ne h
  rw [storeKey, scopeName_of_ne h, Store.Key.ofFeature_eq, hScope]

/-- The segments of what a placed record's key says behind the common part. -/
theorem segments_path (h : r.IsPlaced ns key) :
    Path.segments (r.scope ++ "/" ++ r.key) = r.path := by
  rw [Path.segments_append, Path.segments_of_not_mem h.no_slash]
  rfl

theorem join_path (h : r.IsPlaced ns key) : Path.join r.path = r.scope ++ "/" ++ r.key := by
  rw [← segments_path h, Path.join_segments]

theorem key_eq_of_isPlaced (h : r.IsPlaced ns key) :
    key = Store.Key.featuresPrefix ns ++ (r.scope ++ "/" ++ r.key) := by
  rw [← h.storeKey, storeKey_eq h.scope, h.ns]

/-- A path says where a record is. -/
theorem key_eq_of_path_eq (h : r.IsPlaced ns key) (h' : r'.IsPlaced ns key')
    (hPath : r.path = r'.path) : key = key' := by
  rw [key_eq_of_isPlaced h, key_eq_of_isPlaced h', ← join_path h, ← join_path h', hPath]

end Record

/-! ## What a store holds -/

namespace MemoryStore

/-- The records that a store holds, in the order of their keys. -/
def records (s : MemoryStore) : List Record :=
  s.entries.toList.filterMap fun e => Record.parse? e.2

/-- The record of a feature in a scope, if the store holds one. -/
def recordOf? (s : MemoryStore) (scope key : String) : Option Record :=
  s.records.find? fun r => r.scope = scope ∧ r.key = key

/-- Whether every entry is a record of a namespace in its place. -/
def WellKept (ns : String) (s : MemoryStore) : Prop :=
  ∀ key bytes, s.entries.get? key = some bytes →
    ∃ r, Record.parse? bytes = some r ∧ r.IsPlaced ns key

variable {ns : String} {s : MemoryStore}

theorem wellKept_empty (ns : String) : empty.WellKept ns := by
  intro key bytes h
  cases h

theorem mem_records_iff {r : Record} :
    r ∈ s.records ↔
      ∃ key bytes, s.entries.get? key = some bytes ∧ Record.parse? bytes = some r := by
  unfold records
  rw [List.mem_filterMap]
  constructor
  · rintro ⟨⟨key, bytes⟩, hMem, hParse⟩
    exact ⟨key, bytes, SortedMap.mem_toList_iff.1 hMem, hParse⟩
  · rintro ⟨key, bytes, hGet, hParse⟩
    exact ⟨(key, bytes), SortedMap.mem_toList_iff.2 hGet, hParse⟩

/-- Every record that a well kept store holds is in its place. -/
theorem WellKept.isPlaced (h : s.WellKept ns) {r : Record} (hr : r ∈ s.records) :
    ∃ key bytes, s.entries.get? key = some bytes ∧ Record.parse? bytes = some r ∧
      r.IsPlaced ns key := by
  obtain ⟨key, bytes, hGet, hParse⟩ := mem_records_iff.1 hr
  obtain ⟨r', hParse', hPlaced⟩ := h key bytes hGet
  rw [hParse] at hParse'
  cases hParse'
  exact ⟨key, bytes, hGet, hParse, hPlaced⟩

/-- At most one record is at a path. -/
theorem eq_of_path_eq (h : s.WellKept ns) {r r' : Record} (hr : r ∈ s.records)
    (hr' : r' ∈ s.records) (hPath : r.path = r'.path) : r = r' := by
  obtain ⟨key, bytes, hGet, hParse, hPlaced⟩ := h.isPlaced hr
  obtain ⟨key', bytes', hGet', hParse', hPlaced'⟩ := h.isPlaced hr'
  have hKey := Record.key_eq_of_path_eq hPlaced hPlaced' hPath
  subst hKey
  rw [hGet] at hGet'
  cases hGet'
  rw [hParse] at hParse'
  exact Option.some.inj hParse'

theorem recordOf?_eq_some_iff (h : s.WellKept ns) {scope key : String} {r : Record} :
    s.recordOf? scope key = some r ↔ r ∈ s.records ∧ r.path = Path.segments scope ++ [key] := by
  unfold recordOf?
  constructor
  · intro hFind
    have hBoth := List.find?_some hFind
    obtain ⟨rfl, rfl⟩ := of_decide_eq_true hBoth
    exact ⟨List.mem_of_find?_eq_some hFind, rfl⟩
  · rintro ⟨hMem, hPath⟩
    obtain ⟨hScope, hKey⟩ := Record.path_eq_iff.1 hPath
    cases hFind : s.records.find? fun r => r.scope = scope ∧ r.key = key with
    | none =>
      have hNot := List.find?_eq_none.1 hFind r hMem
      exact absurd (decide_eq_true ⟨hScope, hKey⟩) hNot
    | some r' =>
      have hBoth := List.find?_some hFind
      obtain ⟨rfl, rfl⟩ := of_decide_eq_true hBoth
      rw [eq_of_path_eq h (List.mem_of_find?_eq_some hFind) hMem hPath.symm]

end MemoryStore

/-! ## Requests -/

namespace Registry

/-- A request to change the records of a namespace. -/
inductive Request where
  | set (r : Record)
  | delete (key scope : String)

/-- The store after a request, whether it was granted or not. -/
def Request.apply (ns : String) (s : MemoryStore) : Request → MemoryStore
  | .set r => (Registry.set ns r s).2
  | .delete key scope => (Registry.delete ns key scope s).2

/-- The store after a list of requests, beginning with the empty store. -/
def run (ns : String) (requests : List Request) : MemoryStore :=
  requests.foldl (Request.apply ns) .empty

/-- Whether two records belong in the same place. -/
def SamePlace (r r' : Record) : Prop :=
  r'.key = r.key ∧ r'.ns = r.ns ∧ r'.scope = r.scope

variable {ns : String} {r r' : Record} {s : MemoryStore}

/-- A record that is written belongs where the request wants it. -/
theorem samePlace_of_prepare (h : prepare ns r s = .ok r') : SamePlace (place ns r) r' := by
  obtain ⟨old, -, -, rfl⟩ := exists_of_prepare h
  exact ⟨rfl, rfl, rfl⟩

/-- A record that is written belongs under its own store key. -/
theorem isPlaced_of_prepare (h : prepare ns r s = .ok r')
    (hValid : Store.Key.isValid r'.storeKey = true) : r'.IsPlaced ns r'.storeKey := by
  obtain ⟨hKey', hNs', hScope'⟩ := samePlace_of_prepare h
  obtain ⟨old, -, hRefusal, -⟩ := exists_of_prepare h
  obtain ⟨hKey, hSlash, -⟩ := of_refusal?_eq_none hRefusal
  exact ⟨rfl, hNs', hScope' ▸ scopeOrDefault_ne r.scope, hKey' ▸ hKey, hKey' ▸ hSlash, hValid⟩

/-- What has been prepared is written, unless the store refuses its key. -/
theorem set_eq (ns : String) (r : Record) (s : MemoryStore) :
    Registry.set ns r s =
      match prepare ns r s with
      | .error e => (.error e, s)
      | .ok r' =>
        if Store.Key.isValid r'.storeKey = true then
          (.ok r', (s.put r'.storeKey r'.write).notify)
        else (.error (.store (.invalidKey r'.storeKey)), s) := by
  unfold Registry.set
  cases prepare ns r s with
  | error e => rfl
  | ok r' =>
    -- the store refuses keys that it could not hold
    by_cases hValid : Store.Key.isValid r'.storeKey = true
    · have hSet : Store.set s r'.storeKey r'.write =
          (.ok (), (s.put r'.storeKey r'.write).notify) := if_pos hValid
      simp only [hSet, if_pos hValid]
    · have hSet : Store.set s r'.storeKey r'.write = (.error (.invalidKey r'.storeKey), s) :=
        if_neg hValid
      simp only [hSet, if_neg hValid]

/-- What is told was written has been prepared. -/
theorem prepare_of_set (h : (Registry.set ns r s).1 = .ok r') : prepare ns r s = .ok r' := by
  rw [set_eq] at h
  cases hPrepare : prepare ns r s with
  | error e =>
    rw [hPrepare] at h
    cases h
  | ok prepared =>
    rw [hPrepare] at h
    dsimp only at h
    split at h
    · cases h
      rfl
    · cases h

/-- What writing a record does to a store: nothing, or one entry in its place. -/
theorem set_cases (ns : String) (r : Record) (s : MemoryStore) :
    (Registry.set ns r s).2 = s ∨
    ∃ r' : Record, r'.IsPlaced ns r'.storeKey ∧
      Registry.set ns r s = (.ok r', (s.put r'.storeKey r'.write).notify) := by
  rw [set_eq]
  cases hPrepare : prepare ns r s with
  | error e => exact .inl rfl
  | ok r' =>
    by_cases hValid : Store.Key.isValid r'.storeKey = true
    · exact .inr ⟨r', isPlaced_of_prepare hPrepare hValid, if_pos hValid⟩
    · exact .inl (congrArg Prod.snd (if_neg hValid))

/-- What is deleted is the record that is found, from where it says that it stands. -/
theorem delete_eq (ns key scope : String) (s : MemoryStore) :
    Registry.delete ns key scope s =
      match Registry.get ns key scope s with
      | .error e => (.error e, s)
      | .ok r => (.ok r, s.delete r.storeKey) := by
  unfold Registry.delete
  cases Registry.get ns key scope s with
  | error e => rfl
  | ok r => rfl

/-- What deleting a record does to a store: nothing, or one entry less. -/
theorem delete_cases (ns key scope : String) (s : MemoryStore) :
    (Registry.delete ns key scope s).2 = s ∨
    ∃ key', (Registry.delete ns key scope s).2 = (s.drop key').notify := by
  rw [delete_eq]
  cases Registry.get ns key scope s with
  | error e => exact .inl rfl
  | ok r =>
    by_cases hContains : s.entries.contains r.storeKey = true
    · exact .inr ⟨r.storeKey, if_pos hContains⟩
    · exact .inl (if_neg hContains)

theorem wellKept_put {ns : String} {s : MemoryStore} (h : s.WellKept ns) {r : Record}
    (hPlaced : r.IsPlaced ns r.storeKey) :
    ((s.put r.storeKey r.write).notify).WellKept ns := by
  -- under its own key the record is found again, and all else is as before
  refine MemoryStore.forall_put h ⟨_, Record.parse?_write r, ?_⟩
  exact ⟨hPlaced.storeKey, hPlaced.ns, hPlaced.scope, hPlaced.key_ne, hPlaced.no_slash,
    hPlaced.valid⟩

theorem wellKept_drop {ns : String} {s : MemoryStore} (h : s.WellKept ns) (gone : String) :
    ((s.drop gone).notify).WellKept ns :=
  MemoryStore.forall_drop h gone

/-- One request keeps a store well kept, whether it is granted or not. -/
theorem Request.apply_wellKept {ns : String} {s : MemoryStore} (h : s.WellKept ns)
    (request : Request) : (request.apply ns s).WellKept ns := by
  cases request with
  | set r =>
    rcases set_cases ns r s with hSame | ⟨r', hPlaced, hSet⟩
    · rw [Request.apply, hSame]
      exact h
    · rw [Request.apply, hSet]
      exact wellKept_put h hPlaced
  | delete key scope =>
    rcases delete_cases ns key scope s with hSame | ⟨gone, hDelete⟩
    · rw [Request.apply, hSame]
      exact h
    · rw [Request.apply, hDelete]
      exact wellKept_drop h gone

/-- After every run the store is well kept. -/
theorem run_wellKept (ns : String) (requests : List Request) : (run ns requests).WellKept ns := by
  suffices hFold : ∀ s : MemoryStore, s.WellKept ns →
      (requests.foldl (Request.apply ns) s).WellKept ns from
    hFold .empty (MemoryStore.wellKept_empty ns)
  induction requests with
  | nil => exact fun s h => h
  | cons request requests ih => exact fun s h => ih _ (request.apply_wellKept h)

end Registry

end FeatureFlags
