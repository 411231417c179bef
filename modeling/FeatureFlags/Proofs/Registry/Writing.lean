import FeatureFlags.Proofs.Registry.Changes

/-!
# What a request to write comes to

A request to write that is refused leaves the store as it is; one that is granted is laid over the
record in its place and changes that entry only. A kind that a record declares is never replaced by
another one, so nothing but a deletion can take the kind from a record.

* `set_of_prepare_ok` — what is written once it has been prepared.
* `Request.kindAt?_apply` — one request leaves a declared kind as it is, or takes the record away.
* `set_outcome` — the whole of what a request does, and what follows for runs.
-/

namespace FeatureFlags

/-! ## Records under keys -/

/-- What comes back of a record that is written and read. -/
def Record.reread (r : Record) : Record :=
  { r with value := r.value.bind Value.reread }

namespace MemoryStore

/-- The record under a key, if there is one that can be read. -/
def recordAt? (s : MemoryStore) (key : String) : Option Record :=
  (s.entries.get? key).bind Record.parse?

/-- The kind that the record under a key declares. -/
def kindAt? (s : MemoryStore) (key : String) : Option Kind :=
  (s.recordAt? key).bind Record.kind

/-- Whether there is nothing under a key or a record that can be read. -/
def IsReadableAt (s : MemoryStore) (key : String) : Prop :=
  ∀ bytes, s.entries.get? key = some bytes → (Record.parse? bytes).isSome = true

variable {s : MemoryStore} {key : String} {r : Record}

theorem recordAt?_eq_some_iff :
    s.recordAt? key = some r ↔
      ∃ bytes, s.entries.get? key = some bytes ∧ Record.parse? bytes = some r :=
  Option.bind_eq_some_iff

theorem recordAt?_put (s : MemoryStore) (r : Record) (stored key : String) :
    ((s.put stored r.write).notify).recordAt? key =
      if key = stored then some r.reread else s.recordAt? key := by
  unfold recordAt?
  rw [get?_put]
  split
  · exact Record.parse?_write r
  · rfl

theorem recordAt?_drop (s : MemoryStore) (gone key : String) :
    ((s.drop gone).notify).recordAt? key = if key = gone then none else s.recordAt? key := by
  unfold recordAt?
  rw [get?_drop]
  split
  · rfl
  · rfl

end MemoryStore

namespace Registry

variable {ns : String} {r r' : Record} {s : MemoryStore} {key : String}

theorem stored?_of_isReadableAt (h : s.IsReadableAt key) :
    stored? s key = .ok (s.recordAt? key) := by
  have hGet : Store.get? s key = .ok (s.entries.get? key) := rfl
  unfold stored? MemoryStore.recordAt?
  rw [hGet]
  cases hBytes : s.entries.get? key with
  | none => rfl
  | some bytes =>
    obtain ⟨record, hParse⟩ := Option.isSome_iff_exists.1 (h bytes hBytes)
    simp only [hParse, Option.bind_some]

theorem stored?_eq_ok_some_iff : stored? s key = .ok (some r) ↔ s.recordAt? key = some r := by
  rw [stored?_eq_some_iff, MemoryStore.recordAt?_eq_some_iff]

/-! ## Requests to write -/

/-- A request that is refused changes nothing. -/
theorem set_of_prepare_error {e : Error} (h : prepare ns r s = .error e) :
    Registry.set ns r s = (.error e, s) := by
  rw [set_eq, h]

/-- What has been prepared stands in its place from then on. -/
theorem set_of_prepare_ok (h : prepare ns r s = .ok r')
    (hValid : Store.Key.isValid r'.storeKey = true) :
    Registry.set ns r s = (.ok r', (s.put r'.storeKey r'.write).notify) := by
  rw [set_eq, h]
  exact if_pos hValid

/-- What is told was written has been written. -/
theorem set_eq_of_ok (h : (Registry.set ns r s).1 = .ok r') :
    Registry.set ns r s = (.ok r', (s.put r'.storeKey r'.write).notify) := by
  have hPrepare := prepare_of_set h
  by_cases hValid : Store.Key.isValid r'.storeKey = true
  · exact set_of_prepare_ok hPrepare hValid
  · rw [set_eq, hPrepare] at h
    dsimp only at h
    rw [if_neg hValid] at h
    cases h

/-- A request that fails, for whatever reason, changes nothing. -/
theorem set_of_error {e : Error} (h : (Registry.set ns r s).1 = .error e) :
    (Registry.set ns r s).2 = s := by
  rcases set_cases ns r s with hSame | ⟨r', -, hSet⟩
  · exact hSame
  · rw [hSet] at h
    cases h

/-! ## Kinds in the course of time -/

variable {kind : Kind}

/-- What is written keeps every declared kind, also that of the record in its place. -/
theorem kindAt?_put (hPrepare : prepare ns r s = .ok r') (h : s.kindAt? key = some kind) :
    ((s.put r'.storeKey r'.write).notify).kindAt? key = some kind := by
  obtain ⟨found, hStored, hRefusal, rfl⟩ := exists_of_prepare hPrepare
  rw [storeKey_laidOver, MemoryStore.kindAt?, MemoryStore.recordAt?_put]
  split
  · next hKey =>
    subst hKey
    obtain ⟨old, hOld, hKind⟩ := Option.bind_eq_some_iff.1 h
    have hFound : stored? s (address ns r) = .ok (some old) := stored?_eq_ok_some_iff.2 hOld
    obtain rfl : found = some old := Except.ok.inj (hStored.symm.trans hFound)
    obtain ⟨-, -, hSame, -⟩ := of_refusal?_eq_none hRefusal
    exact kind_laidOver hSame hKind
  · exact h

/-- One request leaves a declared kind as it is, or takes the record away. -/
theorem Request.kindAt?_apply (request : Request) (h : s.kindAt? key = some kind)
    (hThere : (request.apply ns s).entries.contains key = true) :
    (request.apply ns s).kindAt? key = some kind := by
  cases request with
  | set r =>
    rcases set_cases ns r s with hSame | ⟨r', -, hSet⟩
    · rw [Request.apply, hSame]
      exact h
    · have hPrepare : prepare ns r s = .ok r' := prepare_of_set (by rw [hSet])
      rw [Request.apply, hSet]
      exact kindAt?_put hPrepare h
  | delete name scope =>
    rcases delete_cases ns name scope s with hSame | ⟨gone, hDelete⟩
    · rw [Request.apply, hSame]
      exact h
    · rw [Request.apply, hDelete] at hThere ⊢
      -- the record is still there, so it is another one that is gone
      have hKey : key ≠ gone := by
        rintro rfl
        rw [SortedMap.contains, MemoryStore.get?_drop, if_pos rfl] at hThere
        cases hThere
      rw [MemoryStore.kindAt?, MemoryStore.recordAt?_drop, if_neg hKey]
      exact h

/-- As long as a record is there, its kind stays what it has once been declared to be. -/
theorem kindAt?_foldl (requests : List Request) (h : s.kindAt? key = some kind)
    (hThere : ∀ n, ((requests.take n).foldl (Request.apply ns) s).entries.contains key = true) :
    (requests.foldl (Request.apply ns) s).kindAt? key = some kind := by
  -- the store in which the run begins varies, and its record is there with the kind
  induction requests generalizing s with
  | nil => exact h
  | cons request requests ih =>
    have hFirst : (request.apply ns s).entries.contains key = true := hThere 1
    refine ih (request.kindAt?_apply h hFirst) ?_
    intro n
    exact hThere (n + 1)

/-- In a store that the registry alone has written every record has a kind. -/
theorem isSome_kindAt?_run (requests : List Request)
    (hThere : (run ns requests).entries.contains key = true) :
    ((run ns requests).kindAt? key).isSome = true := by
  obtain ⟨bytes, hGet⟩ := Option.isSome_iff_exists.1 hThere
  obtain ⟨placed, -, hPlaced⟩ := run_wellKept ns requests key bytes hGet
  have hStarts : Path.startsWith key (Store.Key.featuresPrefix ns) = true := by
    rw [← hPlaced.storeKey]
    exact startsWith_storeKey hPlaced.scope hPlaced.ns
  have hSound : IsSound ns (run ns requests) := by
    have hChanged := isSound_changed ns (requests.map .records)
    rwa [changed, List.foldl_map] at hChanged
  obtain ⟨r, hParse, -, hTyped⟩ := hSound key bytes hGet hStarts
  have hRecord : (run ns requests).recordAt? key = some r :=
    MemoryStore.recordAt?_eq_some_iff.2 ⟨bytes, hGet, hParse⟩
  rw [MemoryStore.kindAt?, hRecord]
  exact hTyped.kind_isSome

/-! ## The whole of a request -/

/-- A request to write is laid over the record in its place, if that can be read. Either it is
refused for the first check that fails, and the store stays as it is, or what it comes to is told
and stored, with a scope, and no other entry changes. So in every run the kind of a record stays as
it has been declared for as long as the record is there, and if nobody but the registry has written
to the store, then every record has a kind. -/
theorem set_outcome (ns : String) :
    (∀ (s : MemoryStore) (r : Record), s.IsReadableAt (address ns r) →
      (r.key ≠ "" → '/' ∉ r.key.toList → Store.Key.isValid (address ns r) = true) →
      (∀ e, refusal? ns r (s.recordAt? (address ns r)) = some e →
        Registry.set ns r s = (.error e, s)) ∧
      (refusal? ns r (s.recordAt? (address ns r)) = none →
        ∃ g s', Registry.set ns r s = (.ok g, s') ∧
          g = typed (laidOver ns r (s.recordAt? (address ns r))) ∧ g.scope ≠ "" ∧
          ∀ key, s'.entries.get? key =
            if key = address ns r then some g.write else s.entries.get? key)) ∧
    (∀ (s : MemoryStore) (requests : List Request) (key : String) (kind : Kind),
      s.kindAt? key = some kind →
      (∀ n, ((requests.take n).foldl (Request.apply ns) s).entries.contains key = true) →
      (requests.foldl (Request.apply ns) s).kindAt? key = some kind) ∧
    ∀ (requests : List Request) (key : String),
      (run ns requests).entries.contains key = true →
      ((run ns requests).kindAt? key).isSome = true := by
  refine ⟨?_, ?_, ?_⟩
  · intro s r hReadable hValid
    -- what is found in the place of the record decides, be it nothing or a record
    have hPrepare := prepare_of_stored (stored?_of_isReadableAt hReadable)
    constructor
    · intro e hRefusal
      rw [hRefusal] at hPrepare
      exact set_of_prepare_error hPrepare
    · intro hRefusal
      rw [hRefusal] at hPrepare
      obtain ⟨hKey, hSlash, -⟩ := of_refusal?_eq_none hRefusal
      have hSet := set_of_prepare_ok hPrepare (by
        rw [storeKey_laidOver]
        exact hValid hKey hSlash)
      rw [storeKey_laidOver] at hSet
      exact ⟨_, _, hSet, rfl, scopeOrDefault_ne r.scope, MemoryStore.get?_put s _ _⟩
  · intro s requests key kind h hThere
    exact kindAt?_foldl requests h hThere
  · intro requests key hThere
    exact isSome_kindAt?_run requests hThere

/-- A store with one record, of a switch. -/
def switchStore : MemoryStore :=
  run "dcdr" [.set { Record.ofValue "new_ui" (.bool true) with comment := "launch" }]

/-- A request that gives a note only. -/
def renote : Record :=
  ⟨none, "new_ui", "", "", none, "everybody", "ops"⟩

/-- A request that would make a number of the switch. -/
def rescale : Record :=
  .ofValue "new_ui" (.number 0.5)

/-- A new note is laid over the record, a number is refused, and the record stays a switch. -/
theorem set_outcome_switchStore :
    (Registry.set "dcdr" renote switchStore).1 =
      .ok ⟨some .boolean, "new_ui", "dcdr", "default", some (.bool true), "everybody", "ops"⟩ ∧
    Registry.set "dcdr" rescale switchStore = (.error .kindChange, switchStore) ∧
    ([.set renote, .set rescale].foldl (Request.apply "dcdr") switchStore).kindAt?
      "dcdr/features/default/new_ui" = some .boolean := by
  obtain ⟨hOutcome, hRuns, -⟩ := set_outcome "dcdr"
  have hReadable : ∀ key, switchStore.IsReadableAt key := by
    intro key bytes hGet
    obtain ⟨r, hParse, -⟩ := run_wellKept "dcdr" _ key bytes hGet
    rw [hParse]
    rfl
  have hRecord : switchStore.recordAt? "dcdr/features/default/new_ui" =
      some ⟨some .boolean, "new_ui", "dcdr", "default", some (.bool true), "launch", ""⟩ := by
    decide +kernel
  refine ⟨?_, ?_, ?_⟩
  · have hAddress : address "dcdr" renote = "dcdr/features/default/new_ui" := by decide +kernel
    obtain ⟨-, hGranted⟩ :=
      hOutcome switchStore renote (hReadable _) fun _ _ => by decide +kernel
    rw [hAddress, hRecord] at hGranted
    obtain ⟨g, s', hSet, rfl, -⟩ := hGranted (by decide +kernel)
    rw [hSet]
    exact congrArg Except.ok (by decide +kernel)
  · have hAddress : address "dcdr" rescale = "dcdr/features/default/new_ui" := by decide +kernel
    obtain ⟨hRefused, -⟩ :=
      hOutcome switchStore rescale (hReadable _) fun _ _ => by decide +kernel
    rw [hAddress, hRecord] at hRefused
    exact hRefused .kindChange (by decide +kernel)
  · refine hRuns switchStore _ _ .boolean (by decide +kernel) fun n => ?_
    match n with
    | 0 => decide +kernel
    | 1 => decide +kernel
    | n + 2 =>
      simp only [List.take_succ_cons, List.take_nil]
      decide +kernel

end Registry

end FeatureFlags
