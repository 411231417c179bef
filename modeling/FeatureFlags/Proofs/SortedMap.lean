import FeatureFlags.SortedMap

/-!
# Entries of sorted maps

A sorted map answers a name with the entry that it has of it, and a map that is laid over another
one wins.

* `mem_toList_iff` — the entries are what is answered.
* `get?_extend` — what is laid over a map wins.
-/

namespace FeatureFlags.SortedMap

universe u v

variable {α : Type u} {β : Type v}

theorem lookup_map (f : α → β) (entries : List (String × α)) (name : String) :
    (entries.map fun e => (e.1, f e.2)).lookup name = (entries.lookup name).map f := by
  induction entries with
  | nil => rfl
  | cons head rest ih =>
    rw [List.map_cons, lookup_cons_eq_ite, lookup_cons_eq_ite, ih]
    by_cases hName : name = head.1
    · rw [if_pos hName, if_pos hName]
      rfl
    · rw [if_neg hName, if_neg hName]

theorem mem_toList_iff {m : SortedMap α} {name : String} {x : α} :
    (name, x) ∈ m.toList ↔ m.get? name = some x := by
  constructor
  · exact lookup_eq_some_of_mem m.sorted
  · intro h
    obtain ⟨entries, sorted⟩ := m
    change entries.lookup name = some x at h
    change (name, x) ∈ entries
    induction entries with
    | nil => cases h
    | cons head rest ih =>
      rw [lookup_cons_eq_ite] at h
      split at h
      · next hName =>
        cases h
        rw [hName]
        exact List.mem_cons_self
      · exact List.mem_cons_of_mem _ (ih (List.pairwise_cons.1 sorted).2 h)

theorem get?_foldl_insert (m : SortedMap α) {entries : List (String × α)}
    (hSorted : entries.Pairwise fun e e' => e.1 < e'.1) (name : String) :
    (entries.foldl (fun m e => m.insert e.1 e.2) m).get? name =
      (entries.lookup name).or (m.get? name) := by
  induction entries generalizing m with
  | nil => rfl
  | cons head rest ih =>
    obtain ⟨hHead, hRest⟩ := List.pairwise_cons.1 hSorted
    rw [List.foldl_cons, ih _ hRest, get?_insert, lookup_cons_eq_ite]
    -- no name comes twice, so what is put in first is not replaced
    by_cases hName : name = head.1
    · rw [if_pos hName, if_pos hName, hName, lookup_eq_none_of_lt hHead]
      rfl
    · rw [if_neg hName, if_neg hName]

/-- What is laid over a map wins. -/
theorem get?_extend (m top : SortedMap α) (name : String) :
    (m.extend top).get? name = (top.get? name).or (m.get? name) :=
  get?_foldl_insert m top.sorted name

/-- Every entry has been there before or been put in. -/
theorem mem_of_mem_foldl_insert (m : SortedMap α) {entries : List (String × α)} {e : String × α}
    (h : e ∈ (entries.foldl (fun m e => m.insert e.1 e.2) m).toList) :
    e ∈ entries ∨ e ∈ m.toList := by
  induction entries generalizing m with
  | nil => exact .inr h
  | cons head rest ih =>
    rcases ih _ h with hRest | hInserted
    · exact .inl (List.mem_cons_of_mem _ hRest)
    · rcases mem_insertEntry hInserted with rfl | hOld
      · exact .inl List.mem_cons_self
      · exact .inr hOld

/-- The entries of a map that is made of a list are entries of the list. -/
theorem mem_of_mem_ofList {entries : List (String × α)} {e : String × α}
    (h : e ∈ (ofList entries).toList) : e ∈ entries := by
  rcases mem_of_mem_foldl_insert empty h with hEntry | hEmpty
  · exact hEntry
  · cases hEmpty

end FeatureFlags.SortedMap
