import FeatureFlags.Proofs.Store.Interchange

/-!
# Listings of stores in directories

Whoever lists a store expects the keys that can be read, all of those that begin with the text asked
for. A store in a directory reads a key by its path and lists by walking through the directories, so
the two have to agree about which files there are. They do, whatever calls have been made before and
whether these succeeded, but for one thing: a listing leaves out names that begin with a point, and
keys may have such names.

* `Store.IsListing` — what is expected of a listing.
* `IsFiled` — what all calls keep: every file stands at the path of a key.
* `IsSound.exists_list_eq` — what a listing shows.
* `isListing_list_iff` — when it shows what is expected.
-/

namespace FeatureFlags

namespace Store

variable {σ : Type} [Store σ]

/-- A store after calls that are made one after the other. -/
def run (s : σ) (calls : List Call) : σ :=
  calls.foldl (fun s call => (call.perform s).2) s

/-- Whether entries are those that a listing should show: the ones that can be read and whose keys
begin with a text, each once and in increasing order of the keys. -/
structure IsListing (s : σ) (start : String) (listed : List Entry) : Prop where
  mem_iff : ∀ e, e ∈ listed ↔
    Store.get? s e.key = .ok (some e.bytes) ∧ Path.startsWith e.key start = true
  increasing : listed.Pairwise fun e e' => e.key < e'.key

end Store

namespace DirectoryStore

open Store (Call)

variable {t : Folder} {d : DirectoryStore} {key : String} {path folders : List String}
  {name : String} {bytes : Bytes}

/-! ## What calls keep -/

/-- Whether a directory is in order and every file in it stands at the path of a key, under names
that the file system takes. -/
structure IsFiled (t : Folder) : Prop where
  sorted : t.Sorted
  files : ∀ path bytes, t.leafAt path = some bytes →
    (∃ key, Store.Key.isValid key = true ∧ Path.segments key = path) ∧
      ∀ n ∈ path, FileError.IsName n

namespace IsFiled

theorem isDirectory (h : IsFiled t) : IsDirectory t :=
  IsKeyed.isDirectory (fun path bytes hLeaf => (h.files path bytes hLeaf).1) h.sorted

theorem empty : IsFiled .empty where
  sorted := trivial
  files path bytes hLeaf := by simp at hLeaf

theorem insertAt (h : IsFiled t) (hValid : Store.Key.isValid key = true)
    (hSegments : Path.segments key = folders ++ [name]) (hFree : Folder.IsFree t folders name)
    (bytes : Bytes) : IsFiled (t.insertAt folders name bytes) where
  sorted := Tree.sorted_insertAt h.sorted folders name bytes
  files path b hLeaf := by
    by_cases hPath : path = folders ++ [name]
    · exact ⟨⟨key, hValid, hSegments.trans hPath.symm⟩, hPath ▸ hFree.isName⟩
    · obtain ⟨hMeets, hApart⟩ := Tree.leafAt_insertAt_of_ne t folders name bytes hPath
      by_cases hMeet : Tree.Meets (folders ++ [name]) path
      · rw [hMeets hMeet] at hLeaf
        cases hLeaf
      · rw [hApart hMeet] at hLeaf
        exact h.files path b hLeaf

theorem grown (h : IsFiled t) (hOpen : t.IsOpen path) : IsFiled (t.grown path) where
  sorted := Tree.sorted_grown h.sorted path
  files q b hLeaf := by
    rw [Tree.leafAt_grown hOpen] at hLeaf
    exact h.files q b hLeaf

theorem removeFile (h : IsFiled t) (hLeaf : t.leafAt path = some bytes) :
    IsFiled (Folder.removeFile t path) where
  sorted := Folder.sorted_removeFile h.sorted path
  files q b hLeft := by
    rw [Folder.leafAt_removeFile hLeaf] at hLeft
    split at hLeft
    · cases hLeft
    · exact h.files q b hLeft

end IsFiled

/-- Whether a store's directory is there or can be made, and its files are those of keys. -/
structure IsSound (d : DirectoryStore) : Prop where
  isReady : d.IsReady
  isFiled : IsFiled d.content

theorem IsSound.set (h : d.IsSound) (key : String) (bytes : Bytes) : (d.set key bytes).2.IsSound := by
  by_cases hValid : Store.Key.isValid key = true
  · obtain ⟨folders, name, hSegments⟩ := Path.exists_segments_eq key
    rcases set_cases h.isReady hValid hSegments bytes with
      ⟨hFree, d', hSet, hReady, hContent⟩ | ⟨-, e, d', hSet, hReady, made, -, hOpen, hContent⟩
    · rw [hSet]
      exact ⟨hReady, hContent ▸ h.isFiled.insertAt hValid hSegments hFree bytes⟩
    · rw [hSet]
      exact ⟨hReady, hContent ▸ h.isFiled.grown hOpen⟩
  · rw [DirectoryStore.set, pathOf_of_not_isValid hValid]
    exact h

theorem IsSound.delete (h : d.IsSound) (key : String) : (d.delete key).2.IsSound := by
  by_cases hValid : Store.Key.isValid key = true
  · obtain ⟨folders, name, hSegments⟩ := Path.exists_segments_eq key
    rcases delete_cases h.isReady hValid hSegments with
      ⟨bytes, d', hLeaf, hDelete, hReady, hContent⟩ | hSame
    · rw [hDelete]
      exact ⟨hReady, hContent ▸ h.isFiled.removeFile hLeaf⟩
    · rwa [hSame]
  · rw [DirectoryStore.delete, pathOf_of_not_isValid hValid]
    exact h

theorem IsSound.perform (h : d.IsSound) (call : Call) : (call.perform d).2.IsSound := by
  cases call with
  | get key => exact h
  | set key bytes => exact h.set key bytes
  | delete key => exact h.delete key
  | list start => exact h

theorem IsSound.run (h : d.IsSound) (calls : List Call) : (Store.run d calls).IsSound := by
  induction calls generalizing d with
  | nil => exact h
  | cons call calls ih => exact ih (h.perform call)

theorem IsFresh.isSound (h : d.IsFresh) : d.IsSound := by
  obtain ⟨hReady, hEmpty⟩ := h.isReady
  exact ⟨hReady, hEmpty ▸ IsFiled.empty⟩

/-! ## What a listing shows -/

/-- In a store whose files are those of keys the file of a key is what is found under it. -/
theorem IsSound.get?_eq_some_iff (h : d.IsSound) :
    d.get? key = .ok (some bytes) ↔ d.content.leafAt (Path.segments key) = some bytes := by
  rw [h.isReady.get?_eq_some_iff]
  refine ⟨fun hFound => hFound.2.2, fun hLeaf => ?_⟩
  obtain ⟨⟨other, hValid, hSegments⟩, hNames⟩ := h.isFiled.files _ _ hLeaf
  rw [Path.segments_injective hSegments] at hValid
  exact ⟨hValid, hNames, hLeaf⟩

/-- A listing shows what is found, but for what is hidden, in increasing order of the keys. -/
theorem IsSound.exists_list_eq (h : d.IsSound) (start : String) :
    ∃ listed, d.list start = .ok listed ∧ listed.Pairwise (fun e e' => e.key < e'.key) ∧
      ∀ e, e ∈ listed ↔ d.get? e.key = .ok (some e.bytes) ∧ IsShown (Path.segments e.key) ∧
        Path.startsWith e.key start = true := by
  refine ⟨_, h.isReady.list_eq start, ?_, fun e => ?_⟩
  · exact pairwise_inOrder h.isFiled.isDirectory.nodup_keys_collect
  · rw [mem_inOrder, h.isFiled.isDirectory.mem_collect_iff, h.get?_eq_some_iff]

/-- After any calls, made on a store whose directory is empty or not there, a listing shows what is
expected if nothing that can be read is hidden; otherwise it shows the rest of it. -/
theorem isListing_list_iff (d : DirectoryStore) (hFresh : d.IsFresh) (calls : List Call)
    (start : String) :
    ∃ listed, Store.list (Store.run d calls) start = .ok listed ∧
      listed.Pairwise (fun e e' => e.key < e'.key) ∧
      (∀ e, e ∈ listed ↔ Store.get? (Store.run d calls) e.key = .ok (some e.bytes) ∧
        IsShown (Path.segments e.key) ∧ Path.startsWith e.key start = true) ∧
      (Store.IsListing (Store.run d calls) start listed ↔
        ∀ key bytes, Store.get? (Store.run d calls) key = .ok (some bytes) →
          Path.startsWith key start = true → IsShown (Path.segments key)) := by
  obtain ⟨listed, hList, hIncreasing, hMem⟩ := (hFresh.isSound.run calls).exists_list_eq start
  refine ⟨listed, hList, hIncreasing, hMem, fun hListing key bytes hGet hStarts => ?_, ?_⟩
  · have hListed := (hListing.mem_iff ⟨key, bytes⟩).2 ⟨hGet, hStarts⟩
    exact ((hMem _).1 hListed).2.1
  · intro hShown
    refine ⟨fun e => ?_, hIncreasing⟩
    rw [hMem e]
    exact and_congr_right fun hGet => and_iff_right_of_imp (hShown e.key e.bytes hGet)

/-- A key that begins with a point is read but not listed. -/
theorem not_isListing_list_dotted :
    unmade.IsFresh ∧
      Store.get? (Store.run unmade [.set ".a" [49]]) ".a" = .ok (some [49]) ∧
      ∃ listed, Store.list (Store.run unmade [.set ".a" [49]]) "" = .ok listed ∧
        ¬ Store.IsListing (Store.run unmade [.set ".a" [49]]) "" listed := by
  have hFresh : unmade.IsFresh := ⟨by decide, .inr rfl⟩
  have hGet : Store.get? (Store.run unmade [.set ".a" [49]]) ".a" = .ok (some [49]) := by
    decide +kernel
  refine ⟨hFresh, hGet, ?_⟩
  obtain ⟨listed, hList, -, -, hIff⟩ := isListing_list_iff unmade hFresh [.set ".a" [49]] ""
  refine ⟨listed, hList, fun hListing => ?_⟩
  exact absurd (hIff.1 hListing ".a" [49] hGet (by decide)) (by decide +kernel)

end DirectoryStore

end FeatureFlags
