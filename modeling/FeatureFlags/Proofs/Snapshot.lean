import FeatureFlags.Proofs.FeatureMap.Merged
import FeatureFlags.Proofs.Registry
import FeatureFlags.Proofs.Snapshot.Filing

/-!
# What snapshots hold

A snapshot files the value of every record of a namespace under the record's path, in the order of
the store keys. On the way to a record comes before the record, so a value is displaced exactly when
another record with a value lies below it, where it turns into a scope; nothing else is lost, and
nothing is in a snapshot that no record has put there.

* `leafAt_snapshot` — the values of a snapshot are those of the records that no other one lies
  below.
* `Registry.snapshot_run` — a snapshot never fails and holds what the records say.
-/

namespace FeatureFlags

namespace Record

/-- Where the value of a record is filed. -/
def leaf? (r : Record) : Option (Tree.Leaf Value) :=
  r.value.map fun v => ⟨Path.segments r.scope, r.key, v⟩

theorem path_of_leaf? {r : Record} {l : Tree.Leaf Value} (h : r.leaf? = some l) :
    l.path = r.path ∧ r.value = some l.value := by
  unfold leaf? at h
  obtain ⟨v, hv, rfl⟩ := Option.map_eq_some_iff.1 h
  exact ⟨rfl, hv⟩

/-- Whether a record with a value lies below another record's path. -/
def LiesBelow (r' r : Record) : Prop :=
  r'.value.isSome = true ∧ r.path <+: r'.path ∧ r'.path ≠ r.path

end Record

namespace Snapshot

open Store

variable {ns : String}

/-! ## Filing records -/

/-- An entry that is a record in its place contributes the record's value, at the record's path. -/
theorem leafOf?_of_isPlaced {key : String} {bytes : Bytes} {r : Record}
    (hParse : Record.parse? bytes = some r) (hPlaced : r.IsPlaced ns key) :
    leafOf? ns ⟨key, bytes⟩ = r.leaf? := by
  -- the key says the scope and the name again
  have hKey := Record.key_eq_of_isPlaced hPlaced
  have hValid := hPlaced.valid
  rw [hKey] at hValid ⊢
  rw [leafOf?_eq hValid hParse, Record.segments_path hPlaced, Record.path, List.dropLast_concat,
    List.getLastD_concat]
  rfl

/-! ## The whole store -/

/-- The leaves that a store's records make. -/
def leaves (s : MemoryStore) : List (Tree.Leaf Value) :=
  s.records.filterMap Record.leaf?

variable {s : MemoryStore}

/-- All entries of a well kept store are listed for its namespace. -/
theorem range_featuresPrefix (h : s.WellKept ns) :
    s.range (Key.featuresPrefix ns) = s.entries.toList.map fun e => ⟨e.1, e.2⟩ := by
  rw [MemoryStore.range_eq_filter, List.filter_eq_self.2]
  rintro ⟨key, bytes⟩ hMem
  obtain ⟨r, -, hPlaced⟩ := h key bytes (SortedMap.mem_toList_iff.1 hMem)
  exact Path.startsWith_iff.2 ⟨_, Record.key_eq_of_isPlaced hPlaced⟩

/-- The entries of a well kept store contribute the leaves of its records. -/
theorem leavesOf_eq (h : s.WellKept ns) : leavesOf ns s = leaves s := by
  rw [leavesOf, range_featuresPrefix h, leaves, MemoryStore.records, List.filterMap_map,
    List.filterMap_filterMap]
  apply List.filterMap_congr
  rintro ⟨key, bytes⟩ hMem
  obtain ⟨r, hParse, hPlaced⟩ := h key bytes (SortedMap.mem_toList_iff.1 hMem)
  show leafOf? ns ⟨key, bytes⟩ = (Record.parse? bytes).bind Record.leaf?
  rw [leafOf?_of_isPlaced hParse hPlaced, hParse, Option.bind_some]

/-- The records of a well kept store come in an order in which none stands on the way to one before
it. -/
theorem ordered_leaves (h : s.WellKept ns) : Tree.Ordered (leaves s) := by
  rw [← leavesOf_eq h]
  apply ordered_leavesOf
  intro key bytes hGet
  obtain ⟨r, -, hPlaced⟩ := h key bytes hGet
  exact hPlaced.valid

/-- A well kept store has a snapshot, with the values of its records at their paths. -/
theorem snapshot_eq (h : s.WellKept ns) :
    ∃ m, Registry.snapshot ns s = .ok m ∧ m.root = ns ∧
      m.features = (FeatureMap.empty ns).features.insertAll (leaves s) := by
  rw [← leavesOf_eq h]
  apply snapshot_of_isReadable
  intro e he _
  obtain ⟨r, hParse, -⟩ := h e.key e.bytes (MemoryStore.mem_range_iff.1 he).1
  simp [hParse]

theorem mem_leaves_iff {l : Tree.Leaf Value} :
    l ∈ leaves s ↔ ∃ r ∈ s.records, r.leaf? = some l := by
  unfold leaves
  exact List.mem_filterMap

/-- The values of a snapshot are those of the records that no other one lies below. -/
theorem leafAt_snapshot (h : s.WellKept ns) {m : FeatureMap}
    (hFeatures : m.features = (FeatureMap.empty ns).features.insertAll (leaves s))
    {q : List String} {v : Value} :
    m.features.leafAt q = some v ↔
      ∃ r ∈ s.records, r.path = q ∧ r.value = some v ∧ ∀ r' ∈ s.records, ¬ r'.LiesBelow r := by
  rw [hFeatures, Tree.leafAt_insertAll (leafAt_emptyMap ns) (ordered_leaves h), Tree.IsLeft]
  constructor
  · rintro ⟨⟨l, hl, hPath, hValue⟩, hAll⟩
    obtain ⟨r, hr, hLeaf⟩ := mem_leaves_iff.1 hl
    obtain ⟨hPath', hValue'⟩ := Record.path_of_leaf? hLeaf
    refine ⟨r, hr, hPath'.symm.trans hPath, hValue ▸ hValue', ?_⟩
    rintro r' hr' ⟨hSome, hBelow, hNe⟩
    obtain ⟨v', hv'⟩ := Option.isSome_iff_exists.1 hSome
    have hLeaf' : r'.leaf? = some ⟨Path.segments r'.scope, r'.key, v'⟩ := by
      rw [Record.leaf?, hv', Option.map_some]
    have hPath'' := (Record.path_of_leaf? hLeaf').1
    have hEq := hAll _ (mem_leaves_iff.2 ⟨r', hr', hLeaf'⟩)
      (by rw [← hPath, hPath', hPath'']; exact hBelow)
    exact hNe (by rw [← hPath'', hEq, ← hPath, hPath'])
  · rintro ⟨r, hr, hPath, hValue, hNone⟩
    have hLeaf : r.leaf? = some ⟨Path.segments r.scope, r.key, v⟩ := by
      rw [Record.leaf?, hValue, Option.map_some]
    refine ⟨⟨_, mem_leaves_iff.2 ⟨r, hr, hLeaf⟩, hPath, rfl⟩, fun l hl hBelow => ?_⟩
    obtain ⟨r', hr', hLeaf'⟩ := mem_leaves_iff.1 hl
    obtain ⟨hPath', hValue'⟩ := Record.path_of_leaf? hLeaf'
    -- a leaf of another path below would be that of another record below
    by_contra hNe
    exact hNone r' hr' ⟨by rw [hValue']; rfl, by rw [hPath, ← hPath']; exact hBelow,
      by rw [hPath, ← hPath']; exact hNe⟩

/-- Whether no record of a store stands on the way to another one. -/
def AreApart (s : MemoryStore) : Prop :=
  ∀ r ∈ s.records, ∀ r' ∈ s.records, r.path <+: r'.path → r'.path = r.path

/-- Where no record stands on the way to another one, every scope has the values of its records. -/
theorem get?_inScope_snapshot (h : s.WellKept ns) {m : FeatureMap}
    (hFeatures : m.features = (FeatureMap.empty ns).features.insertAll (leaves s))
    (hApart : AreApart s) (scope name : String) :
    (m.inScope scope).get? name = (s.recordOf? scope name).bind Record.value := by
  -- a value in a scope is a leaf at the scope's path and the name
  rw [FeatureMap.get?_inScope]
  apply Option.ext
  intro v
  rw [leafAt_snapshot h hFeatures, Option.bind_eq_some_iff]
  constructor
  · rintro ⟨r, hr, hPath, hv, -⟩
    exact ⟨r, (MemoryStore.recordOf?_eq_some_iff h).2 ⟨hr, hPath⟩, hv⟩
  · rintro ⟨r, hFound, hv⟩
    obtain ⟨hr, hPath⟩ := (MemoryStore.recordOf?_eq_some_iff h).1 hFound
    refine ⟨r, hr, hPath, hv, ?_⟩
    rintro r' hr' ⟨-, hBelow, hNe⟩
    exact hNe (hApart r hr r' hr' hBelow)

end Snapshot

/-! ## Snapshots of runs -/

namespace Registry

/-- After every run a snapshot can be taken. A record's value is found in its scope under its name,
unless another record with a value lies below it; then nothing is found there. And whatever value is
anywhere in the snapshot is the value of exactly one record, at that record's path. -/
theorem snapshot_run (ns : String) (requests : List Request) :
    ∃ m, snapshot ns (run ns requests) = .ok m ∧
      (∀ r ∈ (run ns requests).records, ∀ v, r.value = some v →
        ((∀ r' ∈ (run ns requests).records, ¬ r'.LiesBelow r) →
          (m.inScope r.scope).get? r.key = some v) ∧
        ((∃ r' ∈ (run ns requests).records, r'.LiesBelow r) →
          (m.inScope r.scope).get? r.key = none)) ∧
      ∀ path v, m.features.leafAt path = some v →
        ∃! r, r ∈ (run ns requests).records ∧ r.path = path ∧ r.value = some v := by
  have hKept := run_wellKept ns requests
  obtain ⟨m, hSnapshot, -, hFeatures⟩ := Snapshot.snapshot_eq hKept
  refine ⟨m, hSnapshot, fun r hr v hv => ⟨fun hFree => ?_, ?_⟩, fun path v hLeaf => ?_⟩
  · rw [FeatureMap.get?_inScope, Snapshot.leafAt_snapshot hKept hFeatures]
    exact ⟨r, hr, rfl, hv, hFree⟩
  · rintro ⟨r', hr', hBelow⟩
    rw [FeatureMap.get?_inScope, Option.eq_none_iff_forall_ne_some]
    intro v' hLeaf
    obtain ⟨r₁, hr₁, hPath, -, hFree⟩ := (Snapshot.leafAt_snapshot hKept hFeatures).1 hLeaf
    have hSame : r₁ = r := MemoryStore.eq_of_path_eq hKept hr₁ hr hPath
    subst hSame
    exact hFree r' hr' hBelow
  · obtain ⟨r, hr, hPath, hv, -⟩ := (Snapshot.leafAt_snapshot hKept hFeatures).1 hLeaf
    refine ⟨r, ⟨hr, hPath, hv⟩, ?_⟩
    rintro r' ⟨hr', hPath', -⟩
    exact MemoryStore.eq_of_path_eq hKept hr' hr (hPath'.trans hPath.symm)

/-- What the registry answers to a request. -/
def Request.answer (ns : String) (s : MemoryStore) : Request → Except Error Record
  | .set r => (Registry.set ns r s).1
  | .delete key scope => (Registry.delete ns key scope s).1

/-- Whether a store grants all of a list of requests, each after those before it. -/
def areGranted (ns : String) (s : MemoryStore) : List Request → Bool
  | [] => true
  | request :: requests =>
    (request.answer ns s).toBool && areGranted ns (request.apply ns s) requests

/-- Two features, the second one below the first: what is a name for the first is a scope for the
second. -/
def shadowing : List Request :=
  [.set { Record.ofValue "y" (.bool true) with scope := "x" },
   .set { Record.ofValue "z" (.bool true) with scope := "x/y" }]

/-- Values can be displaced although every request is granted. -/
theorem not_forall_get?_snapshot_run :
    ¬ ∀ (ns : String) (requests : List Request), areGranted ns .empty requests = true →
      ∃ m, snapshot ns (run ns requests) = .ok m ∧
        ∀ r ∈ (run ns requests).records, ∀ v, r.value = some v →
          (m.inScope r.scope).get? r.key = some v := by
  intro h
  obtain ⟨m, hSnapshot, hAll⟩ := h "dcdr" shadowing (by decide +kernel)
  have hRecord : ∃ r ∈ (run "dcdr" shadowing).records,
      r.scope = "x" ∧ r.key = "y" ∧ r.value = some (.bool true) := by decide +kernel
  obtain ⟨r, hr, hScope, hKey, hValue⟩ := hRecord
  have hFound := hAll r hr (.bool true) hValue
  rw [hScope, hKey] at hFound
  -- the scope `x/y` has taken the place of the value
  have hLost : (snapshot "dcdr" (run "dcdr" shadowing)).toOption.all
      (fun m => ((m.inScope "x").get? "y").isNone) = true := by decide +kernel
  rw [hSnapshot] at hLost
  have hNone : ((m.inScope "x").get? "y").isNone = true := hLost
  rw [hFound] at hNone
  cases hNone

end Registry

end FeatureFlags
