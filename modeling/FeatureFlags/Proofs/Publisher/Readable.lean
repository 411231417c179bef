import FeatureFlags.Proofs.FeatureMap.RoundTrip
import FeatureFlags.Proofs.Json.Finite
import FeatureFlags.Proofs.Publisher

/-!
# Which published files can be read

Records are checked one by one when they are written: the key has to be one, and the value has to be
of its kind. Only the published file shows all records in one document, and a document may not be
nested too deep. Neither names nor values are an obstacle, but a scope with too many segments is, and
no record is refused for that. While such a record has a value, no client can read the file.

* `isSome_reread_of_parse?` — the value of a stored record can be published.
* `holdsRecords_runAll` — whoever writes, the store holds nothing but records under keys.
* `parse_sync_iff` — the file that a sync writes can be read exactly if no scope is too deep.
-/

namespace FeatureFlags

/-! ## Values of stored records -/

/-- The value of a stored record can be published and read again. -/
theorem Record.isSome_reread_of_parse? {bytes : Bytes} {r : Record} {v : Value}
    (h : Record.parse? bytes = some r) (hValue : r.value = some v) : v.reread.isSome = true := by
  obtain ⟨doc, -, hDoc⟩ := Option.bind_eq_some_iff.1 h
  simp only [Record.ofDoc?, Option.bind_eq_bind, Option.bind_eq_some_iff, Option.pure_def,
    Option.some.injEq] at hDoc
  obtain ⟨given, -, kind, -, key, -, ns, -, scope, -, value, hGiven, comment, -, updatedBy, -,
    rfl⟩ := hDoc
  have hRead : value = some v := hValue
  subst hRead
  -- a value that is not missing has been read from a document
  unfold Given.optional? at hGiven
  split at hGiven
  · next doc' _ =>
    unfold Json.Doc.nullable? at hGiven
    split at hGiven
    · cases hGiven
    · obtain ⟨v', hOfDoc, hSame⟩ := Option.map_eq_some_iff.1 hGiven
      cases hSame
      exact Value.isSome_reread hOfDoc
  · cases hGiven

/-! ## Registries of several namespaces on one store -/

/-- Whether every entry of a store is a record under a key. -/
def MemoryStore.HoldsRecords (s : MemoryStore) : Prop :=
  ∀ key bytes, s.entries.get? key = some bytes →
    Store.Key.isValid key = true ∧ (Record.parse? bytes).isSome = true

namespace Registry

/-- The store after a list of requests to the registries of namespaces, beginning with the empty
store. -/
def runAll (requests : List (String × Request)) : MemoryStore :=
  requests.foldl (fun s request => request.2.apply request.1 s) .empty

variable {s : MemoryStore}

theorem holdsRecords_put (h : s.HoldsRecords) {r : Record}
    (hValid : Store.Key.isValid r.storeKey = true) :
    ((s.put r.storeKey r.write).notify).HoldsRecords := by
  refine MemoryStore.forall_put h ⟨hValid, ?_⟩
  rw [Record.parse?_write]
  rfl

theorem holdsRecords_drop (h : s.HoldsRecords) (gone : String) :
    ((s.drop gone).notify).HoldsRecords :=
  MemoryStore.forall_drop h gone

theorem Request.apply_holdsRecords (h : s.HoldsRecords) (ns : String) (request : Request) :
    (request.apply ns s).HoldsRecords := by
  cases request with
  | set r =>
    rcases set_cases ns r s with hSame | ⟨r', hPlaced, hSet⟩
    · rw [Request.apply, hSame]
      exact h
    · rw [Request.apply, hSet]
      exact holdsRecords_put h hPlaced.valid
  | delete key scope =>
    rcases delete_cases ns key scope s with hSame | ⟨gone, hDelete⟩
    · rw [Request.apply, hSame]
      exact h
    · rw [Request.apply, hDelete]
      exact holdsRecords_drop h gone

theorem holdsRecords_runAll (requests : List (String × Request)) :
    (runAll requests).HoldsRecords := by
  suffices hFold : ∀ s : MemoryStore, s.HoldsRecords →
      (requests.foldl (fun s request => request.2.apply request.1 s) s).HoldsRecords by
    refine hFold .empty ?_
    intro key bytes hGet
    cases hGet
  induction requests with
  | nil => exact fun s h => h
  | cons request requests ih => exact fun s h => ih _ (request.2.apply_holdsRecords h request.1)

/-- The first record of a store is granted, if it has a name, a scope, a value and a key. -/
theorem set_empty {ns : String} {r : Record} {v : Value} (hName : r.key ≠ "")
    (hSlash : '/' ∉ r.key.toList) (hScope : r.scope ≠ "") (hValue : r.value = some v)
    (hKind : r.kind = some v.kind)
    (hValid : Store.Key.isValid { r with ns := ns : Record }.storeKey = true) :
    Registry.set ns r .empty = (.ok { r with ns := ns },
      (MemoryStore.empty.put { r with ns := ns : Record }.storeKey
        { r with ns := ns : Record }.write).notify) := by
  have hPlace : place ns r = { r with ns := ns } := by
    rw [place, Record.scopeName_of_ne hScope]
  have hStored : ∀ key, stored? MemoryStore.empty key = .ok none := fun _ => rfl
  have hKept : withKind { r with ns := ns } = .ok { r with ns := ns } := by
    simp [withKind, hValue, hKind]
  have hPrepare : prepare ns r MemoryStore.empty = .ok { r with ns := ns } := by
    unfold prepare
    rw [if_neg hName, if_neg (by simpa using hSlash), hPlace, hStored]
    show (if r.value.isNone then _ else withKind { r with ns := ns }) = _
    rw [hKept, hValue]
    rfl
  have hSet : ∀ bytes, Store.set MemoryStore.empty { r with ns := ns : Record }.storeKey bytes =
      (.ok (), (MemoryStore.empty.put { r with ns := ns : Record }.storeKey bytes).notify) :=
    fun bytes => if_pos hValid
  unfold Registry.set
  rw [hPrepare]
  simp only [hSet]

end Registry

/-! ## What is published of such a store -/

namespace Snapshot

open Store

variable {ns : String} {s : MemoryStore} {m : FeatureMap}

/-- There is always a snapshot of such a store, and it is made of the leaves of its namespace. -/
theorem snapshot_of_holdsRecords (ns : String) (h : s.HoldsRecords) :
    ∃ m, Registry.snapshot ns s = .ok m ∧
      m.features = (FeatureMap.empty ns).features.insertAll (leavesOf ns s) := by
  have hReadable : ∀ e ∈ s.range (Key.featuresPrefix ns), IsReadable ns e := by
    intro e he _
    exact (h e.key e.bytes (MemoryStore.mem_range_iff.1 he).1).2
  obtain ⟨m, hSnapshot, -, hFeatures⟩ := snapshot_of_isReadable hReadable
  exact ⟨m, hSnapshot, hFeatures⟩

theorem features_snapshot (h : s.HoldsRecords) (hSnapshot : Registry.snapshot ns s = .ok m) :
    m.features = (FeatureMap.empty ns).features.insertAll (leavesOf ns s) := by
  obtain ⟨m', hSame, hFeatures⟩ := snapshot_of_holdsRecords ns h
  cases hSnapshot.symm.trans hSame
  exact hFeatures

/-- The leaves of a namespace are the values of the records under its keys. -/
theorem mem_leavesOf_iff (h : s.HoldsRecords) {path : List String} {v : Value} :
    (∃ l ∈ leavesOf ns s, l.path = path ∧ l.value = v) ↔
      ∃ key bytes r, s.entries.get? (Key.featuresPrefix ns ++ key) = some bytes ∧
        Record.parse? bytes = some r ∧ r.value = some v ∧ Path.segments key = path := by
  constructor
  · rintro ⟨l, hl, rfl, rfl⟩
    obtain ⟨e, he, hLeaf⟩ := List.mem_filterMap.1 hl
    have hGet := (MemoryStore.mem_range_iff.1 he).1
    obtain ⟨key, r, hKey, hParse, hValue, hPath⟩ := of_leafOf? (h e.key e.bytes hGet).1 hLeaf
    rw [hKey] at hGet
    exact ⟨key, e.bytes, r, hGet, hParse, hValue, hPath.symm⟩
  · rintro ⟨key, bytes, r, hGet, hParse, hValue, rfl⟩
    have hLeaf := leafOf?_eq (h _ bytes hGet).1 hParse
    rw [hValue] at hLeaf
    have hStarts : Path.startsWith (Key.featuresPrefix ns ++ key) (Key.featuresPrefix ns) = true :=
      Path.startsWith_iff.2 ⟨key, rfl⟩
    exact ⟨_, List.mem_filterMap.2 ⟨⟨_, bytes⟩, MemoryStore.mem_range_iff.2 ⟨hGet, hStarts⟩, hLeaf⟩,
      path_leaf (Path.segments_ne_nil key) v, rfl⟩

/-- Whether no record of a namespace that has a value has too many segments in its scope. Its key
ends with those of the scope and the name. -/
def IsShallow (ns : String) (s : MemoryStore) : Prop :=
  ∀ key bytes r, s.entries.get? (Key.featuresPrefix ns ++ key) = some bytes →
    Record.parse? bytes = some r → r.value.isSome = true →
    (Path.segments key).length ≤ scopeLimit + 1

/-- The height of a snapshot says whether a scope is too deep. -/
theorem height_snapshot_le_iff (h : s.HoldsRecords) (hSnapshot : Registry.snapshot ns s = .ok m) :
    m.features.height ≤ FeatureMap.heightLimit ↔ IsShallow ns s := by
  have hEmpty : (FeatureMap.empty ns).features.height ≤ FeatureMap.heightLimit := by
    show 2 ≤ 125
    decide
  have hOrdered : Tree.Ordered (leavesOf ns s) :=
    ordered_leavesOf fun key bytes hGet => (h key bytes hGet).1
  rw [features_snapshot h hSnapshot,
    Tree.height_insertAll_le_iff (leafAt_emptyMap ns) hEmpty hOrdered]
  constructor
  · intro hLeaves key bytes r hGet hParse hSome
    obtain ⟨v, hValue⟩ := Option.isSome_iff_exists.1 hSome
    obtain ⟨l, hl, hPath, -⟩ := (mem_leavesOf_iff h).2 ⟨key, bytes, r, hGet, hParse, hValue, rfl⟩
    rw [← hPath]
    exact hLeaves l hl
  · intro hShallow l hl
    obtain ⟨key, bytes, r, hGet, hParse, hValue, hPath⟩ :=
      (mem_leavesOf_iff h).1 ⟨l, hl, rfl, rfl⟩
    rw [← hPath]
    exact hShallow key bytes r hGet hParse (by simp [hValue])

/-- Whatever is in a snapshot can be published and read again. -/
theorem forall_isSome_reread (h : s.HoldsRecords) (hSnapshot : Registry.snapshot ns s = .ok m) :
    m.features.Forall fun v => v.reread.isSome = true := by
  have hEmpty : (FeatureMap.empty ns).features.Forall fun v => v.reread.isSome = true :=
    ⟨trivial, trivial⟩
  rw [features_snapshot h hSnapshot]
  refine Tree.forall_insertAll hEmpty ?_
  intro l hl
  obtain ⟨_, _, r, -, hParse, hValue, -⟩ := (mem_leavesOf_iff h).1 ⟨l, hl, rfl, rfl⟩
  exact Record.isSome_reread_of_parse? hParse hValue

end Snapshot

namespace Publisher

open Registry (Request runAll)

/-- The file that a sync writes can be read exactly if no record with a value has a scope that is
too deep. Nothing else that can be asked of the registries of any namespaces stands in the way of
reading it. -/
theorem parse_sync_iff (requests : List (String × Request)) (ns : String) (p : Publisher)
    (now : Int64) (folder : Folder)
    (h : (p.sync (Registry.snapshot ns (runAll requests)) now folder).1 = .ok true) :
    ∃ bytes, (p.sync (Registry.snapshot ns (runAll requests)) now folder).2.2.read p.output =
        .ok bytes ∧
      ((∃ m, FeatureMap.parse bytes = .ok m) ↔ Snapshot.IsShallow ns (runAll requests)) := by
  have hHolds := Registry.holdsRecords_runAll requests
  cases hSnapshot : Registry.snapshot ns (runAll requests) with
  | error e =>
    rw [hSnapshot] at h
    cases h
  | ok m =>
    rw [hSnapshot] at h
    refine ⟨_, read_of_publish h, ?_⟩
    -- publishing changes the info block only
    have hFeatures : (published m now).features = m.features := rfl
    have hValues := Snapshot.forall_isSome_reread hHolds hSnapshot
    rw [FeatureMap.exists_parse_write_iff, hFeatures,
      Snapshot.height_snapshot_le_iff hHolds hSnapshot]
    exact and_iff_right hValues

/-- A scope with one segment too many. -/
def deepScope : String :=
  Path.join (List.replicate (Snapshot.scopeLimit + 1) "s")

/-- A record in a scope that is too deep. -/
def deepRecord : Record :=
  { Record.ofValue "f" (.bool true) with scope := deepScope, ns := "dcdr" }

theorem segments_deepScope :
    Path.segments deepScope = List.replicate (Snapshot.scopeLimit + 1) "s" := by
  refine Path.segments_join (by simp) ?_
  intro segment hSegment
  rw [List.eq_of_mem_replicate hSegment]
  decide

theorem segments_deepPath : Path.segments (deepScope ++ "/" ++ "f") =
    List.replicate (Snapshot.scopeLimit + 1) "s" ++ ["f"] := by
  rw [Path.segments_append, segments_deepScope, Path.segments_of_not_mem (by decide)]

theorem deepScope_ne : deepRecord.scope ≠ "" := by
  intro hEmpty
  have hSegments : Path.segments deepScope = Path.segments "" := congrArg Path.segments hEmpty
  rw [segments_deepScope] at hSegments
  exact absurd hSegments (by decide +kernel)

theorem storeKey_deepRecord : deepRecord.storeKey =
    Store.Key.featuresPrefix "dcdr" ++ (deepScope ++ "/" ++ "f") :=
  Record.storeKey_eq deepScope_ne

/-- The request for it is granted. -/
theorem set_deepRecord : Registry.set "dcdr" deepRecord .empty =
    (.ok deepRecord, (MemoryStore.empty.put deepRecord.storeKey deepRecord.write).notify) := by
  refine Registry.set_empty (by decide) (by decide) deepScope_ne rfl rfl ?_
  show Store.Key.isValid deepRecord.storeKey = true
  rw [storeKey_deepRecord, Store.Key.isValid, Snapshot.segments_featuresPrefix_append,
    segments_deepPath]
  decide +kernel

/-- A single granted request can make the file unreadable. -/
theorem not_parse_sync_deepRecord :
    (Registry.set "dcdr" deepRecord MemoryStore.empty).1 = .ok deepRecord ∧
      ((new ["decider.json"]).sync (Registry.snapshot "dcdr" (runAll [("dcdr", .set deepRecord)]))
        1757030409 .empty).1 = .ok true ∧
      ∃ bytes, ((new ["decider.json"]).sync
          (Registry.snapshot "dcdr" (runAll [("dcdr", .set deepRecord)])) 1757030409 .empty).2.2.read
            ["decider.json"] = .ok bytes ∧
        ¬∃ m, FeatureMap.parse bytes = .ok m := by
  have hGranted : (Registry.set "dcdr" deepRecord MemoryStore.empty).1 = .ok deepRecord := by
    rw [set_deepRecord]
  have hWritten : ((new ["decider.json"]).sync
      (Registry.snapshot "dcdr" (runAll [("dcdr", .set deepRecord)])) 1757030409 .empty).1 =
        .ok true := by
    obtain ⟨m, hSnapshot, -⟩ := Snapshot.snapshot_of_holdsRecords "dcdr"
      (Registry.holdsRecords_runAll [("dcdr", .set deepRecord)])
    rw [hSnapshot]
    show ((new ["decider.json"]).publish m 1757030409 .empty).1 = .ok true
    rw [publish_fst, if_neg (by simp [new])]
    rfl
  obtain ⟨bytes, hRead, hIff⟩ := parse_sync_iff [("dcdr", .set deepRecord)] "dcdr"
    (new ["decider.json"]) 1757030409 .empty hWritten
  refine ⟨hGranted, hWritten, bytes, hRead, ?_⟩
  rw [hIff]
  intro hShallow
  -- the record is found under its key, which has too many segments
  have hRun : ∀ ns r, runAll [(ns, .set r)] = (Registry.set ns r MemoryStore.empty).2 :=
    fun _ _ => rfl
  have hGet : (runAll [("dcdr", .set deepRecord)]).entries.get?
      (Store.Key.featuresPrefix "dcdr" ++ (deepScope ++ "/" ++ "f")) = some deepRecord.write := by
    rw [hRun, set_deepRecord, ← storeKey_deepRecord, MemoryStore.get?_put, if_pos rfl]
  have hReread : (deepRecord.value.bind Value.reread).isSome = true := rfl
  have hLength := hShallow _ _ _ hGet (Record.parse?_write deepRecord) hReread
  rw [segments_deepPath, List.length_append, List.length_replicate] at hLength
  exact absurd hLength (by decide)

end Publisher

end FeatureFlags
