import FeatureFlags.Proofs.Registry.Neighbours

/-!
# What a deletion takes away

A record is looked up where it is asked for, but it is deleted from where it says that it stands.
The two places are one for every record that a registry has written. Others may have put a record
under a key that is not its own, or may have left out its namespace: then the deletion is granted and
the record is still there, and if there is an entry under the key that the record names, it is that
one that is gone.

* `get?_delete` — the entry that a deletion takes away.
* `removes_delete_iff` — when it is the one that was asked for.
-/

namespace FeatureFlags.Registry

variable {ns name scope key : String} {r : Record} {s : MemoryStore}

/-- A record is not found just when there is nothing under its key. -/
theorem get_eq_notFound_iff :
    Registry.get ns name scope s = .error (.notFound (Store.Key.ofFeature ns scope name)) ↔
      s.entries.get? (Store.Key.ofFeature ns scope name) = none := by
  have hGet : Store.get? s (Store.Key.ofFeature ns scope name) =
      .ok (s.entries.get? (Store.Key.ofFeature ns scope name)) := rfl
  unfold Registry.get stored?
  rw [hGet]
  cases s.entries.get? (Store.Key.ofFeature ns scope name) with
  | none => simp
  | some bytes =>
    -- whatever is there is a record or an unreadable document
    cases hParse : Record.parse? bytes with
    | none => simp [hParse]
    | some found => simp [hParse]

/-- A deletion that is refused takes nothing away. -/
theorem delete_of_error {e : Error} (h : (Registry.delete ns name scope s).1 = .error e) :
    (Registry.delete ns name scope s).2 = s := by
  rw [delete_eq] at h ⊢
  cases hGet : Registry.get ns name scope s with
  | error e' => rfl
  | ok r =>
    rw [hGet] at h
    cases h

/-- A deletion that is granted has found the record, and takes away what is under the record's own
key. -/
theorem delete_of_ok (h : (Registry.delete ns name scope s).1 = .ok r) :
    Registry.get ns name scope s = .ok r ∧
      (Registry.delete ns name scope s).2 = s.delete r.storeKey := by
  rw [delete_eq] at h ⊢
  cases hGet : Registry.get ns name scope s with
  | error e =>
    rw [hGet] at h
    cases h
  | ok found =>
    rw [hGet] at h
    cases h
    exact ⟨rfl, rfl⟩

/-- Whether the record of a feature, and nothing else, is gone between two moments. -/
structure Removes (ns name scope : String) (s t : MemoryStore) : Prop where
  notFound : Registry.get ns name scope t =
    .error (.notFound (Store.Key.ofFeature ns scope name))
  others : ∀ key, key ≠ Store.Key.ofFeature ns scope name →
    t.entries.get? key = s.entries.get? key

theorem removes_delete (ns name scope : String) (s : MemoryStore) :
    Removes ns name scope s (s.delete (Store.Key.ofFeature ns scope name)) where
  notFound := by
    rw [get_eq_notFound_iff, MemoryStore.get?_delete, if_pos rfl]
  others := by
    intro key hKey
    rw [MemoryStore.get?_delete, if_neg hKey]

/-- Deleting a record from somewhere else does not remove it. -/
theorem not_removes_delete (hGet : Registry.get ns name scope s = .ok r)
    (hKey : key ≠ Store.Key.ofFeature ns scope name) :
    ¬ Removes ns name scope s (s.delete key) := by
  intro hRemoves
  have hGone := get_eq_notFound_iff.1 hRemoves.notFound
  rw [MemoryStore.get?_delete, if_neg (Ne.symm hKey), ← get_eq_notFound_iff, hGet] at hGone
  cases hGone

/-- A deletion that is refused leaves the store as it is. One that is granted takes away what is
under the key that the record found names as its own, and nothing else. So it removes exactly what
was asked for if and only if the record has been found where it says that it stands, and as every
record does that a registry has written. -/
theorem removes_delete_iff (ns name scope : String) (s : MemoryStore) :
    (∀ e, (Registry.delete ns name scope s).1 = .error e →
      (Registry.delete ns name scope s).2 = s) ∧
    ∀ r, (Registry.delete ns name scope s).1 = .ok r →
      (∀ key, (Registry.delete ns name scope s).2.entries.get? key =
        if key = r.storeKey then none else s.entries.get? key) ∧
      (Removes ns name scope s (Registry.delete ns name scope s).2 ↔
        r.storeKey = Store.Key.ofFeature ns scope name) ∧
      (IsFiled s → Removes ns name scope s (Registry.delete ns name scope s).2) := by
  refine ⟨fun e h => delete_of_error h, ?_⟩
  intro r h
  obtain ⟨hGet, hStore⟩ := delete_of_ok h
  rw [hStore]
  have hIff : Removes ns name scope s (s.delete r.storeKey) ↔
      r.storeKey = Store.Key.ofFeature ns scope name := by
    constructor
    · intro hRemoves
      by_contra hKey
      exact not_removes_delete hGet hKey hRemoves
    · intro hKey
      rw [hKey]
      exact removes_delete ns name scope s
  refine ⟨MemoryStore.get?_delete s r.storeKey, hIff, ?_⟩
  -- in a filed store whatever is found says where it has been found
  intro hFiled
  exact hIff.2 (storeKey_of_get hFiled hGet)

/-- A record without a namespace, as somebody else may have stored it. -/
def foreign : Record :=
  { Record.ofValue "new_ui" (.bool true) with scope := "default" }

/-- It is stored where the registry of a namespace looks for it. -/
def foreignStore : MemoryStore :=
  (MemoryStore.empty.put "dcdr/features/default/new_ui" foreign.write).notify

/-- The registry deletes it, and it is still there. -/
theorem removes_delete_foreign :
    (Registry.delete "dcdr" "new_ui" "" foreignStore).1 = .ok foreign ∧
      ¬ Removes "dcdr" "new_ui" "" foreignStore
        (Registry.delete "dcdr" "new_ui" "" foreignStore).2 := by
  have hGranted : (Registry.delete "dcdr" "new_ui" "" foreignStore).1 = .ok foreign := by
    decide +kernel
  obtain ⟨-, hOk⟩ := removes_delete_iff "dcdr" "new_ui" "" foreignStore
  obtain ⟨-, hIff, -⟩ := hOk foreign hGranted
  refine ⟨hGranted, ?_⟩
  rw [hIff]
  decide +kernel

end FeatureFlags.Registry
