import FeatureFlags.Proofs.Store.Memory
import FeatureFlags.Proofs.Tree.Insertion
import FeatureFlags.Registry

/-!
# Filing entries

What a snapshot does with a list of entries, whoever has written them. An entry of the namespace
whose record has a value is a leaf, at the path that its key says; all other entries count for
nothing, unless they hold no record.

* `leafOf?` — what an entry contributes.
* `build_eq_ok_iff` — when entries have a snapshot, and that it is made of what they contribute, in
  their order.
* `ordered_leafOf?` — entries in the order of their keys do not displace what was filed before them
  below them.
* `snapshot_of_isReadable` — the snapshot of a store.
-/

namespace FeatureFlags.Snapshot

open Store

variable {ns : String} {e : Entry}

/-! ## One entry -/

/-- The leaf that an entry contributes, if it contributes any. -/
def leafOf? (ns : String) (e : Entry) : Option (Tree.Leaf Value) := do
  let path ← Path.after? (Key.featuresPrefix ns) e.key
  let v ← (← Record.parse? e.bytes).value
  let (scope, name) := Path.splitLast path
  if name = "" then none else some ⟨Path.solidSegments scope, name, v⟩

/-- Whether an entry lets a snapshot be made: in the namespace there are only records. -/
def IsReadable (ns : String) (e : Entry) : Prop :=
  Path.startsWith e.key (Key.featuresPrefix ns) = true → (Record.parse? e.bytes).isSome = true

/-- What filing a readable entry does: its leaf is put in, if it has one. -/
theorem file_eq_ok (h : IsReadable ns e) (m : FeatureMap) :
    ∃ m', file ns m e = .ok m' ∧ m'.root = m.root ∧
      m'.features = m.features.insertAll (leafOf? ns e).toList := by
  unfold file leafOf?
  cases hAfter : Path.after? (Key.featuresPrefix ns) e.key with
  | none => exact ⟨m, rfl, rfl, rfl⟩
  | some path =>
    have hStarts : Path.startsWith e.key (Key.featuresPrefix ns) = true :=
      Path.startsWith_iff.2 ⟨path, Path.after?_eq_some_iff.1 hAfter⟩
    obtain ⟨r, hParse⟩ := Option.isSome_iff_exists.1 (h hStarts)
    simp only [hParse, Option.bind_eq_bind, Option.bind_some]
    cases r.value with
    | none => exact ⟨m, rfl, rfl, rfl⟩
    | some v =>
      simp only [Option.bind_some]
      -- a key that ends with a slash names no feature
      by_cases hName : (Path.splitLast path).2 = ""
      · rw [if_pos hName, if_pos hName]
        exact ⟨m, rfl, rfl, rfl⟩
      · rw [if_neg hName, if_neg hName, Option.toList_some, Tree.insertAll, List.foldl_cons,
          List.foldl_nil]
        refine ⟨_, rfl, ?_, ?_⟩
        · rw [FeatureMap.insert]
        · rw [FeatureMap.insert]

theorem isReadable_of_file {m m' : FeatureMap} (h : file ns m e = .ok m') : IsReadable ns e := by
  intro hStarts
  obtain ⟨path, hKey⟩ := Path.startsWith_iff.1 hStarts
  unfold file at h
  rw [Path.after?_eq_some_iff.2 hKey] at h
  cases hParse : Record.parse? e.bytes with
  | none => simp [hParse] at h
  | some r => rfl

/-! ## The map to begin with -/

/-- At first there is nothing but an empty default scope. -/
theorem lookup_emptyMap (ns : String) (q : List String) :
    (FeatureMap.empty ns).features.lookup q =
      if q = [defaultScope] then some (.branch .empty) else none := by
  show (Tree.branch defaultScope Tree.empty Tree.empty : Scope).lookup q = _
  match q with
  | [] => rfl
  | [name] => simp [Tree.lookup, Tree.get?]
  | name :: next :: q =>
    -- what is in the default scope is in the empty tree
    have hChild : (Tree.branch defaultScope Tree.empty Tree.empty : Scope).child name = .empty := by
      rw [Tree.child, Tree.get?, Tree.get?]
      split_ifs <;> rfl
    rw [Tree.lookup_cons _ _ (List.cons_ne_nil _ _), hChild, Tree.lookup_empty, if_neg (by simp)]

theorem leafAt_emptyMap (ns : String) (q : List String) :
    (FeatureMap.empty ns).features.leafAt q = none := by
  rw [Tree.leafAt, lookup_emptyMap]
  split_ifs <;> rfl

/-! ## Many entries -/

theorem insertAll_append {α : Type} (t : Tree α) (l l' : List (Tree.Leaf α)) :
    t.insertAll (l ++ l') = (t.insertAll l).insertAll l' :=
  List.foldl_append

theorem foldlM_file {entries : List Entry} (h : ∀ e ∈ entries, IsReadable ns e) (m : FeatureMap) :
    ∃ m', entries.foldlM (file ns) m = .ok m' ∧ m'.root = m.root ∧
      m'.features = m.features.insertAll (entries.filterMap (leafOf? ns)) := by
  induction entries generalizing m with
  | nil => exact ⟨m, rfl, rfl, rfl⟩
  | cons e entries ih =>
    obtain ⟨m₁, hFile, hRoot, hFeatures⟩ := file_eq_ok (h e List.mem_cons_self) m
    obtain ⟨m₂, hRest, hRoot', hFeatures'⟩ := ih (fun e he => h e (List.mem_cons_of_mem _ he)) m₁
    refine ⟨m₂, ?_, hRoot'.trans hRoot, ?_⟩
    · rw [List.foldlM_cons, hFile]
      exact hRest
    · have hLeaves : (e :: entries).filterMap (leafOf? ns) =
          (leafOf? ns e).toList ++ entries.filterMap (leafOf? ns) := by
        rw [List.filterMap_cons]
        cases leafOf? ns e <;> rfl
      rw [hFeatures', hFeatures, hLeaves, insertAll_append]

theorem isReadable_of_foldlM_file {entries : List Entry} {m m' : FeatureMap}
    (h : entries.foldlM (file ns) m = .ok m') : ∀ e ∈ entries, IsReadable ns e := by
  induction entries generalizing m with
  | nil => simp
  | cons e entries ih =>
    rw [List.foldlM_cons] at h
    cases hFile : file ns m e with
    | error err =>
      rw [hFile] at h
      cases h
    | ok next =>
      rw [hFile] at h
      exact List.forall_mem_cons.2 ⟨isReadable_of_file hFile, ih h⟩

/-- Entries have a snapshot when they are readable. It is made of what they contribute, and its
version is its own fingerprint. -/
theorem build_eq_ok_iff {entries : List Entry} {m : FeatureMap} :
    build ns entries = .ok m ↔ (∀ e ∈ entries, IsReadable ns e) ∧ m.root = ns ∧
      m.info = some ⟨m.fingerprint, 0⟩ ∧
      m.features =
        (FeatureMap.empty ns).features.insertAll (entries.filterMap (leafOf? ns)) := by
  constructor
  · intro h
    unfold build at h
    cases hCollect : collect ns entries with
    | error err =>
      rw [hCollect] at h
      cases h
    | ok filed =>
      have hReadable := isReadable_of_foldlM_file hCollect
      obtain ⟨filed', hFold, hRoot, hFeatures⟩ := foldlM_file hReadable (.empty ns)
      rw [collect, hFold] at hCollect
      cases hCollect
      rw [collect, hFold] at h
      cases h
      exact ⟨hReadable, hRoot, rfl, hFeatures⟩
  · rintro ⟨hReadable, hRoot, hInfo, hFeatures⟩
    obtain ⟨filed, hFold, hRoot', hFeatures'⟩ := foldlM_file hReadable (.empty ns)
    -- the version is said by the features alone
    have hSame : filed.features = m.features := hFeatures'.trans hFeatures.symm
    have hStamp : stamp filed 0 = m := by
      refine FeatureMap.ext (hRoot'.trans hRoot.symm) ?_ hSame
      rw [hInfo, FeatureMap.fingerprint, ← hSame]
      rfl
    rw [build, collect, hFold, ← hStamp]
    rfl

/-- A snapshot of readable entries is made of what they contribute. -/
theorem build_eq {entries : List Entry} (h : ∀ e ∈ entries, IsReadable ns e) :
    ∃ m, build ns entries = .ok m ∧ m.root = ns ∧
      m.features =
        (FeatureMap.empty ns).features.insertAll (entries.filterMap (leafOf? ns)) := by
  obtain ⟨filed, -, hRoot, hFeatures⟩ := foldlM_file h (.empty ns)
  exact ⟨stamp filed 0, build_eq_ok_iff.2 ⟨h, hRoot, rfl, hFeatures⟩, hRoot, hFeatures⟩

/-! ## Entries under valid keys -/

/-- The segments of a key of the namespace end with those of the path that it says. -/
theorem segments_featuresPrefix_append (ns path : String) :
    Path.segments (Key.featuresPrefix ns ++ path) =
      Path.segments ns ++ (Path.segments Key.featuresSegment ++ Path.segments path) := by
  have hSplit : Key.featuresPrefix ns ++ path =
      ns ++ "/" ++ (Key.featuresSegment ++ "/" ++ path) := by
    rw [Key.featuresPrefix, Path.join_triple]
    simp only [String.append_assoc, String.append_empty]
  rw [hSplit, Path.segments_append, Path.segments_append]

/-- No segment of a path that a valid key says is empty. -/
theorem ne_empty_of_isValid {path : String}
    (h : Key.isValid (Key.featuresPrefix ns ++ path) = true) :
    ∀ segment ∈ Path.segments path, segment ≠ "" := by
  intro segment hSegment
  apply Key.ne_empty_of_isValid h
  rw [segments_featuresPrefix_append, List.mem_append, List.mem_append]
  exact .inr (.inr hSegment)

/-- An entry under a valid key contributes the value of its record, at the path that the key
says. -/
theorem leafOf?_eq {path : String} {bytes : Bytes} {r : Record}
    (hValid : Key.isValid (Key.featuresPrefix ns ++ path) = true)
    (hParse : Record.parse? bytes = some r) :
    leafOf? ns ⟨Key.featuresPrefix ns ++ path, bytes⟩ = r.value.map fun v =>
      ⟨(Path.segments path).dropLast, (Path.segments path).getLastD "", v⟩ := by
  have hAfter : Path.after? (Key.featuresPrefix ns) (Key.featuresPrefix ns ++ path) = some path :=
    Path.after?_eq_some_iff.2 rfl
  have hNe := ne_empty_of_isValid hValid
  have hLast : (Path.segments path).getLastD "" ≠ "" := by
    rw [List.getLastD_eq_getLast?, List.getLast?_eq_some_getLast (Path.segments_ne_nil path)]
    exact hNe _ (List.getLast_mem _)
  -- none of the segments before the last one is dropped
  have hFolder : Path.solidSegments (Path.join (Path.segments path).dropLast) =
      (Path.segments path).dropLast := by
    rw [Path.solidSegments_join, List.filter_eq_self]
    · intro segment hSegment
      exact decide_eq_true (hNe segment (List.dropLast_subset _ hSegment))
    · intro segment hSegment
      exact Path.slash_not_mem_of_mem_segments (List.dropLast_subset _ hSegment)
  unfold leafOf? Path.splitLast
  simp only [hAfter, hParse, Option.bind_eq_bind, Option.bind_some, if_neg hLast, hFolder]
  cases r.value <;> rfl

theorem path_leaf {α : Type} {path : List String} (h : path ≠ []) (a : α) :
    (Tree.Leaf.mk path.dropLast (path.getLastD "") a).path = path := by
  rw [Tree.Leaf.path, List.getLastD_eq_getLast?, List.getLast?_eq_some_getLast h]
  exact List.dropLast_append_getLast h

/-- What a leaf of an entry under a valid key says of the entry. -/
theorem of_leafOf? (hValid : Key.isValid e.key = true) {l : Tree.Leaf Value}
    (h : leafOf? ns e = some l) :
    ∃ path r, e.key = Key.featuresPrefix ns ++ path ∧ Record.parse? e.bytes = some r ∧
      r.value = some l.value ∧ l.path = Path.segments path := by
  obtain ⟨key, bytes⟩ := e
  obtain ⟨path, hAfter, hRest⟩ := Option.bind_eq_some_iff.1 h
  obtain ⟨r, hParse, -⟩ := Option.bind_eq_some_iff.1 hRest
  have hKey : key = Key.featuresPrefix ns ++ path := Path.after?_eq_some_iff.1 hAfter
  subst hKey
  rw [leafOf?_eq hValid hParse] at h
  obtain ⟨v, hv, rfl⟩ := Option.map_eq_some_iff.1 h
  exact ⟨path, r, rfl, hParse, hv, path_leaf (Path.segments_ne_nil path) v⟩

/-- Entries in the order of their keys: what comes on the way to a leaf comes before it. -/
theorem ordered_leafOf? {entries : List Entry}
    (hSorted : entries.Pairwise fun e e' => e.key < e'.key)
    (hValid : ∀ e ∈ entries, Key.isValid e.key = true) :
    Tree.Ordered (entries.filterMap (leafOf? ns)) := by
  unfold Tree.Ordered
  rw [List.pairwise_filterMap]
  refine List.Pairwise.imp_of_mem ?_ hSorted
  intro e e' he he' hLt l hl l' hl' hPrefix
  obtain ⟨path, _, hKey, -, -, hPath⟩ := of_leafOf? (hValid e he) hl
  obtain ⟨path', _, hKey', -, -, hPath'⟩ := of_leafOf? (hValid e' he') hl'
  rw [hPath, hPath'] at hPrefix
  -- the longer path continues the shorter one, and so does its key
  obtain ⟨rest, hRest⟩ := Path.startsWith_iff.1 (Path.startsWith_of_segments_isPrefix hPrefix)
  have hStarts : Path.startsWith e.key e'.key = true := by
    rw [Path.startsWith_iff, hKey, hKey', hRest]
    exact ⟨rest, (String.append_assoc ..).symm⟩
  exact MemoryStore.not_lt_of_startsWith hStarts hLt

/-! ## Stores -/

/-- The leaves that the entries of a store contribute. -/
def leavesOf (ns : String) (s : MemoryStore) : List (Tree.Leaf Value) :=
  (s.range (Key.featuresPrefix ns)).filterMap (leafOf? ns)

variable {s : MemoryStore}

/-- A store in whose namespace there are only records has a snapshot, which is made of their
leaves. -/
theorem snapshot_of_isReadable (h : ∀ e ∈ s.range (Key.featuresPrefix ns), IsReadable ns e) :
    ∃ m, Registry.snapshot ns s = .ok m ∧ m.root = ns ∧
      m.features = (FeatureMap.empty ns).features.insertAll (leavesOf ns s) := by
  obtain ⟨m, hBuild, hRoot, hFeatures⟩ := build_eq h
  have hList : Store.list s (Key.featuresPrefix ns) = .ok (s.range (Key.featuresPrefix ns)) := rfl
  refine ⟨m, ?_, hRoot, hFeatures⟩
  unfold Registry.snapshot
  simp only [hList, hBuild]
  rfl

theorem ordered_leavesOf (h : ∀ key bytes, s.entries.get? key = some bytes →
    Key.isValid key = true) : Tree.Ordered (leavesOf ns s) := by
  apply ordered_leafOf? (s.pairwise_range _)
  intro e he
  exact h e.key e.bytes (MemoryStore.mem_range_iff.1 he).1

end FeatureFlags.Snapshot
