import FeatureFlags.Proofs.Snapshot

/-!
# Everything that the registry writes

The registry of a namespace writes records and an info block, and it relies on what it finds later:
what a record leaves empty is filled in from the stored one, and a record is deleted from where it
says that it stands. So a record that is written has to be one that can be relied on. It is in its
place, it has a kind, and its value is of that kind; the info block stands apart from all records.

* `isTyped_of_prepare` — a record that is written has a kind, if those before it have.
* `Change.apply_isSound` — one change keeps the store sound, whether it is granted or not.
* `isSound_changed` — so does every sequence of changes, and a snapshot can always be taken.
-/

namespace FeatureFlags

/-! ## Kinds of records -/

/-- What comes back of a value is of the same kind. -/
theorem Value.kind_of_reread {v v' : Value} (h : v.reread = some v') : v'.kind = v.kind := by
  cases v with
  | bool b =>
    cases h
    rfl
  | number x =>
    change ofDoc? (Json.Doc.ofFloat x) = some v' at h
    unfold Json.Doc.ofFloat at h
    split at h
    · -- a number is read as a number, if it is read at all
      obtain ⟨y, -, rfl⟩ := Option.map_eq_some_iff.1 h
      rfl
    · cases h

namespace Record

/-- Whether a record has a kind, and its value is of that kind if it has one. -/
def IsTyped (r : Record) : Prop :=
  ∃ kind, r.kind = some kind ∧ ∀ v, r.value = some v → v.kind = kind

theorem IsTyped.kind_isSome {r : Record} (h : r.IsTyped) : r.kind.isSome = true := by
  obtain ⟨kind, hKind, -⟩ := h
  simp [hKind]

/-- What comes back of a record has the kind that the record has. -/
theorem IsTyped.reread {r : Record} (h : r.IsTyped) :
    IsTyped { r with value := r.value.bind Value.reread } := by
  obtain ⟨kind, hKind, hValue⟩ := h
  refine ⟨kind, hKind, ?_⟩
  intro v hv
  obtain ⟨v₀, hv₀, hReread⟩ := Option.bind_eq_some_iff.1 hv
  rw [Value.kind_of_reread hReread]
  exact hValue v₀ hv₀

end Record

namespace Registry

/-! ## Records that are written -/

variable {ns : String} {r r' : Record} {s : MemoryStore}

/-- A record that is written has a kind, if the one in its place has. -/
theorem isTyped_of_prepare (h : prepare ns r s = .ok r')
    (hStored : ∀ old, stored? s (place ns r).storeKey = .ok (some old) → old.IsTyped) :
    r'.IsTyped := by
  obtain ⟨old, hFound, hRefusal, rfl⟩ := exists_of_prepare h
  cases hValue : (typed (laidOver ns r old)).value with
  | some v =>
    refine ⟨v.kind, kind_of_prepare h hValue, ?_⟩
    intro v' hv'
    rw [Option.some.inj (hValue.symm.trans hv')]
  | none =>
    obtain ⟨-, -, hSame, hNew, -⟩ := of_refusal?_eq_none hRefusal
    cases old with
    | none => exact absurd ⟨rfl, (Option.or_eq_none_iff.1 hValue).1⟩ hNew
    | some old =>
      -- the stored record lends its kind to one without a value
      rw [← storeKey_place] at hFound
      obtain ⟨kind, hKind, -⟩ := hStored old hFound
      exact ⟨kind, kind_laidOver hSame hKind, by simp [hValue]⟩

theorem stored?_eq_some_iff {key : String} :
    stored? s key = .ok (some r) ↔
      ∃ bytes, s.entries.get? key = some bytes ∧ Record.parse? bytes = some r := by
  have hGet : Store.get? s key = .ok (s.entries.get? key) := rfl
  unfold stored?
  rw [hGet]
  cases s.entries.get? key with
  | none => simp
  | some bytes =>
    cases hParse : Record.parse? bytes with
    | none => simp [hParse]
    | some record => simp [hParse]

/-- A registry answers with the record that is stored under the key. -/
theorem get_eq_ok_iff {name scope : String} :
    Registry.get ns name scope s = .ok r ↔
      stored? s (Store.Key.ofFeature ns scope name) = .ok (some r) := by
  unfold Registry.get
  cases stored? s (Store.Key.ofFeature ns scope name) with
  | error e => simp
  | ok found =>
    cases found with
    | none => simp
    | some record => simp

/-! ## Changes -/

/-- A change of what is stored for a namespace. -/
inductive Change where
  | records (request : Request)
  | setInfo (info : Info)

/-- The store after a change, whether it was granted or not. -/
def Change.apply (ns : String) (s : MemoryStore) : Change → MemoryStore
  | .records request => request.apply ns s
  | .setInfo info => (Registry.setInfo ns info s).2

/-- The store after a list of changes, beginning with the empty store. -/
def changed (ns : String) (changes : List Change) : MemoryStore :=
  changes.foldl (Change.apply ns) .empty

/-- Whether all that is stored among the records of a namespace are records of it in their places,
each with a kind. -/
def IsSound (ns : String) (s : MemoryStore) : Prop :=
  ∀ key bytes, s.entries.get? key = some bytes →
    Path.startsWith key (Store.Key.featuresPrefix ns) = true →
    ∃ r, Record.parse? bytes = some r ∧ r.IsPlaced ns key ∧ r.IsTyped

theorem isSound_empty (ns : String) : IsSound ns .empty := by
  intro key bytes h
  cases h

/-- Where the records of a namespace stand, the store key of a record is. -/
theorem startsWith_storeKey (hScope : r.scope ≠ "") (hNs : r.ns = ns) :
    Path.startsWith r.storeKey (Store.Key.featuresPrefix ns) = true := by
  rw [Path.startsWith_iff, Record.storeKey_eq hScope, hNs]
  exact ⟨_, rfl⟩

/-- The info block is not among the records. -/
theorem not_startsWith_ofInfo (ns : String) :
    ¬ Path.startsWith (Store.Key.ofInfo ns) (Store.Key.featuresPrefix ns) = true := by
  intro h
  obtain ⟨path, hKey⟩ := Path.startsWith_iff.1 h
  have hSegments := congrArg Path.segments hKey
  have hInfo : Path.segments "info" = ["info"] := Path.segments_of_not_mem (by decide)
  have hFeatures : Path.segments Store.Key.featuresSegment = [Store.Key.featuresSegment] :=
    Path.segments_of_not_mem (by decide)
  rw [Store.Key.ofInfo, Path.join_pair, Path.segments_append, hInfo,
    Snapshot.segments_featuresPrefix_append, hFeatures] at hSegments
  -- behind the namespace one key goes on with `info` and the other one with `features`
  have hTail := List.append_cancel_left hSegments
  exact absurd (List.cons.inj hTail).1 (by decide)

/-- Puts a sound entry in, or one that is not among the records. -/
theorem isSound_put (h : IsSound ns s) {key : String} {bytes : Bytes}
    (hEntry : Path.startsWith key (Store.Key.featuresPrefix ns) = true →
      ∃ r, Record.parse? bytes = some r ∧ r.IsPlaced ns key ∧ r.IsTyped) :
    IsSound ns ((s.put key bytes).notify) :=
  MemoryStore.forall_put h hEntry

theorem isSound_drop (h : IsSound ns s) (gone : String) : IsSound ns ((s.drop gone).notify) :=
  MemoryStore.forall_drop h gone

theorem isSound_set (h : IsSound ns s) (r : Record) : IsSound ns (Registry.set ns r s).2 := by
  rcases set_cases ns r s with hSame | ⟨r', hPlaced, hSet⟩
  · rw [hSame]
    exact h
  · have hPrepare : prepare ns r s = .ok r' := prepare_of_set (by rw [hSet])
    -- what is found in the place of the record is sound, so it can be relied on
    have hTyped : r'.IsTyped := by
      refine isTyped_of_prepare hPrepare ?_
      intro old hStored
      obtain ⟨bytes, hGet, hParse⟩ := stored?_eq_some_iff.1 hStored
      have hStarts := startsWith_storeKey (r := place ns r) (scopeOrDefault_ne r.scope) rfl
      obtain ⟨found, hFound, -, hTyped⟩ := h _ bytes hGet hStarts
      rw [hParse] at hFound
      cases hFound
      exact hTyped
    rw [hSet]
    refine isSound_put h ?_
    intro _
    refine ⟨_, Record.parse?_write r', ?_, hTyped.reread⟩
    exact ⟨hPlaced.storeKey, hPlaced.ns, hPlaced.scope, hPlaced.key_ne, hPlaced.no_slash,
      hPlaced.valid⟩

theorem isSound_delete (h : IsSound ns s) (key scope : String) :
    IsSound ns (Registry.delete ns key scope s).2 := by
  rcases delete_cases ns key scope s with hSame | ⟨gone, hDelete⟩
  · rw [hSame]
    exact h
  · rw [hDelete]
    exact isSound_drop h gone

theorem isSound_setInfo (h : IsSound ns s) (info : Info) :
    IsSound ns (Registry.setInfo ns info s).2 := by
  show IsSound ns (MemoryStore.set s (Store.Key.ofInfo ns) info.write).2
  unfold MemoryStore.set
  split
  · refine isSound_put h ?_
    intro hStarts
    exact absurd hStarts (not_startsWith_ofInfo ns)
  · exact h

/-- One change keeps the store sound, whether it is granted or not. -/
theorem Change.apply_isSound (h : IsSound ns s) (change : Change) :
    IsSound ns (change.apply ns s) := by
  cases change with
  | records request =>
    cases request with
    | set r => exact isSound_set h r
    | delete key scope => exact isSound_delete h key scope
  | setInfo info => exact isSound_setInfo h info

/-- After every sequence of changes the store is sound. -/
theorem isSound_changed (ns : String) (changes : List Change) :
    IsSound ns (changed ns changes) := by
  suffices hFold : ∀ s : MemoryStore, IsSound ns s →
      IsSound ns (changes.foldl (Change.apply ns) s) from hFold .empty (isSound_empty ns)
  induction changes with
  | nil => exact fun s h => h
  | cons change changes ih => exact fun s h => ih _ (change.apply_isSound h)

/-- Of a sound store a snapshot can be taken. -/
theorem exists_snapshot (h : IsSound ns s) : ∃ m, snapshot ns s = .ok m := by
  have hReadable : ∀ e ∈ s.range (Store.Key.featuresPrefix ns), Snapshot.IsReadable ns e := by
    intro e he hStarts
    obtain ⟨r, hParse, -⟩ := h e.key e.bytes (MemoryStore.mem_range_iff.1 he).1 hStarts
    simp [hParse]
  obtain ⟨m, hSnapshot, -⟩ := Snapshot.snapshot_of_isReadable hReadable
  exact ⟨m, hSnapshot⟩

/-- Whatever has been asked of the registry of a namespace, granted or not: all that is stored among
the records of the namespace can be read as a record that belongs under its own key, is of that
namespace, has a name without a slash, and has a kind, of which its value is if it has one. So there
is always a snapshot. -/
theorem records_changed (ns : String) (changes : List Change) :
    (∀ key bytes, (changed ns changes).entries.get? key = some bytes →
      Path.startsWith key (Store.Key.featuresPrefix ns) = true →
      ∃ r, Record.parse? bytes = some r ∧ r.storeKey = key ∧ r.ns = ns ∧ r.key ≠ "" ∧
        '/' ∉ r.key.toList ∧
        ∃ kind, r.kind = some kind ∧ ∀ v, r.value = some v → v.kind = kind) ∧
    ∃ m, snapshot ns (changed ns changes) = .ok m := by
  have hSound := isSound_changed ns changes
  refine ⟨?_, exists_snapshot hSound⟩
  intro key bytes hGet hStarts
  obtain ⟨r, hParse, hPlaced, hTyped⟩ := hSound key bytes hGet hStarts
  exact ⟨r, hParse, hPlaced.storeKey, hPlaced.ns, hPlaced.key_ne, hPlaced.no_slash, hTyped⟩

end Registry

end FeatureFlags
