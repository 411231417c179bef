import FeatureFlags.Proofs.Store.Walk

/-!
# Stores in directories

The files of a store stand at the paths of keys. What a call comes to depends only on what is in the
directory of the store, which may have to be made first.

* `IsKeyed.isDirectory` — files at the paths of keys are found by the walk of a listing.
* `get?_eq_some_iff`, `set_cases`, `delete_cases` — what the calls of a store come to.
-/

namespace FeatureFlags.DirectoryStore

variable {start key : String} {t : Folder}

/-! ## Files of keys -/

/-- Whether every file has the path of a key. -/
def IsKeyed (t : Folder) : Prop :=
  ∀ path bytes, t.leafAt path = some bytes →
    ∃ key, Store.Key.isValid key = true ∧ Path.segments key = path

/-- The segments of keys are names that files can have. -/
theorem IsKeyed.isDirectory (h : IsKeyed t) (hSorted : t.Sorted) : IsDirectory t where
  distinct := hSorted.distinct
  names file hFile name hName := by
    obtain ⟨key, hValid, hPath⟩ := h _ _ ((Tree.mem_filed_iff hSorted.distinct).1 hFile)
    rw [← hPath] at hName
    exact ⟨Store.Key.ne_empty_of_isValid hValid name hName,
      Path.slash_not_mem_of_mem_segments hName⟩

/-! ## The directory of a store -/

/-- What is in the directory of a store; nothing before it has been made. -/
def content (s : DirectoryStore) : Folder :=
  s.folder.inside s.base

/-- Whether the directory of a store is there or can be made. -/
structure IsReady (s : DirectoryStore) : Prop where
  isName : ∀ n ∈ s.base, FileError.IsName n
  isOpen : s.folder.IsOpen s.base

variable {s : DirectoryStore} {folders : List String} {name : String}

theorem pathOf_of_isValid (hValid : Store.Key.isValid key = true) :
    s.pathOf key = .ok (s.base ++ Path.segments key) :=
  if_pos hValid

theorem pathOf_of_not_isValid (hNot : ¬ Store.Key.isValid key = true) :
    s.pathOf key = .error (.invalidKey key) :=
  if_neg hNot

theorem IsReady.holds (h : s.IsReady) : s.Holds s.content :=
  Folder.walk_of_isOpen h.isName h.isOpen

/-- A listing shows what is in the directory, also when that has not been made yet. -/
theorem IsReady.list_eq (h : s.IsReady) (start : String) :
    s.list start = .ok (inOrder (collect start "" s.content)) :=
  h.holds.list_eq start

/-- A place for a file in the directory is one in the folder. -/
theorem IsReady.isFree_iff (h : s.IsReady) :
    Folder.IsFree s.folder (s.base ++ folders) name ↔ Folder.IsFree s.content folders name := by
  have hBranch : s.folder.HasBranch ((s.base ++ folders) ++ [name]) ↔
      s.content.HasBranch (folders ++ [name]) := by
    rw [List.append_assoc, Tree.hasBranch_append _ _ (by simp), content]
  constructor
  · rintro ⟨hName, hOpen, hNoFolder⟩
    rw [List.append_assoc] at hName
    exact ⟨fun n hn => hName n (List.mem_append_right _ hn), (Tree.isOpen_append.1 hOpen).2,
      fun hThere => hNoFolder (hBranch.2 hThere)⟩
  · rintro ⟨hName, hOpen, hNoFolder⟩
    refine ⟨fun n hn => ?_, Tree.isOpen_append.2 ⟨h.isOpen, hOpen⟩,
      fun hThere => hNoFolder (hBranch.1 hThere)⟩
    rw [List.append_assoc] at hn
    exact (List.mem_append.1 hn).elim (h.isName n) (hName n)

/-- A key is found if there is a file at its path, under names that the file system takes. -/
theorem IsReady.get?_eq_some_iff (h : s.IsReady) {bytes : Bytes} :
    s.get? key = .ok (some bytes) ↔ Store.Key.isValid key = true ∧
      (∀ n ∈ Path.segments key, FileError.IsName n) ∧
        s.content.leafAt (Path.segments key) = some bytes := by
  have hRead : s.folder.read (s.base ++ Path.segments key) = .ok bytes ↔
      (∀ n ∈ Path.segments key, FileError.IsName n) ∧
        s.content.leafAt (Path.segments key) = some bytes := by
    rw [Folder.read_eq_ok_iff, Tree.leafAt_append _ _ (Path.segments_ne_nil key), content]
    refine and_congr_left fun _ => ⟨fun hNames n hn => hNames n (List.mem_append_right _ hn), ?_⟩
    intro hNames n hn
    exact (List.mem_append.1 hn).elim (h.isName n) (hNames n)
  rw [← hRead, get?, pathOf]
  by_cases hValid : Store.Key.isValid key = true
  · simp only [if_pos hValid]
    cases hOutcome : s.folder.read (s.base ++ Path.segments key) with
    | ok b => simp [hValid]
    | error e => cases e <;> simp
  · simp [hValid]

section

variable (hReady : s.IsReady) (hValid : Store.Key.isValid key = true)
  (hSegments : Path.segments key = folders ++ [name])
  (hFree : Folder.IsFree s.content folders name)

include hSegments hValid in
theorem pathOf_eq : s.pathOf key = .ok ((s.base ++ folders) ++ [name]) := by
  rw [pathOf_of_isValid hValid, hSegments, List.append_assoc]

include hSegments in
theorem leafAt_content : s.folder.leafAt ((s.base ++ folders) ++ [name]) =
    s.content.leafAt (Path.segments key) := by
  rw [hSegments, content, List.append_assoc, Tree.leafAt_append _ _ (by simp)]

include hReady in
/-- Directories made on the way to a place for files make no difference to the directory, but for
those that are in it. -/
theorem exists_content_grown {made : List String} (hOnWay : made <+: s.base ++ folders)
    (hOpen : s.folder.IsOpen made) :
    ({ s with folder := s.folder.grown made } : DirectoryStore).IsReady ∧
      ∃ inner, inner <+: folders ∧ s.content.IsOpen inner ∧
        ({ s with folder := s.folder.grown made } : DirectoryStore).content =
          s.content.grown inner := by
  refine ⟨⟨hReady.isName, (Tree.isOpen_grown hOpen).2 hReady.isOpen⟩, ?_⟩
  rcases List.prefix_or_prefix_of_prefix hOnWay (List.prefix_append s.base folders) with
    hBefore | ⟨inner, rfl⟩
  · exact ⟨[], List.nil_prefix, Tree.isOpen_nil _, Tree.inside_grown_of_isPrefix _ hBefore⟩
  · exact ⟨inner, (List.prefix_append_right_inj _).1 hOnWay, (Tree.isOpen_append.1 hOpen).2,
      Tree.inside_grown_append _ _ _⟩

include hReady hValid hSegments in
/-- A key that can be held is held from then on. Otherwise no file changes, but directories may have
been made on the way to it. -/
theorem set_cases (bytes : Bytes) :
    Folder.IsFree s.content folders name ∧ (∃ s', s.set key bytes = (.ok (), s') ∧ s'.IsReady ∧
        s'.content = s.content.insertAt folders name bytes) ∨
      ¬ Folder.IsFree s.content folders name ∧ ∃ e s', s.set key bytes = (.error (.file e), s') ∧
        s'.IsReady ∧ ∃ made, made <+: folders ∧ s.content.IsOpen made ∧
          s'.content = s.content.grown made := by
  rw [← hReady.isFree_iff, set, pathOf_eq hValid hSegments]
  refine (Folder.write_cases s.folder (s.base ++ folders) name bytes).imp (And.imp_right ?_)
    (And.imp_right ?_)
  · intro hWrite
    refine ⟨{ s with folder := s.folder.insertAt (s.base ++ folders) name bytes }, ?_, ?_, ?_⟩
    · simp only [hWrite]
      rfl
    · refine ⟨hReady.isName, ?_⟩
      exact (Tree.isOpen_insertAt _ _ name bytes).of_isPrefix (List.prefix_append _ _)
    · exact Tree.inside_insertAt s.folder s.base folders name bytes
  · rintro ⟨e, made, hOnWay, -, hOpen, hWrite⟩
    obtain ⟨hStill, hContent⟩ := exists_content_grown hReady hOnWay hOpen
    refine ⟨e, { s with folder := s.folder.grown made }, ?_, hStill, hContent⟩
    simp only [hWrite]
    rfl

include hReady hSegments in
/-- A file is taken out of the folder, and so out of the directory in it. -/
theorem content_removeFile {bytes : Bytes}
    (hLeaf : s.content.leafAt (Path.segments key) = some bytes) :
    ({ s with folder := Folder.removeFile s.folder ((s.base ++ folders) ++ [name]) } :
        DirectoryStore).IsReady ∧
      ({ s with folder := Folder.removeFile s.folder ((s.base ++ folders) ++ [name]) } :
        DirectoryStore).content = Folder.removeFile s.content (Path.segments key) := by
  rw [← leafAt_content hSegments] at hLeaf
  refine ⟨⟨hReady.isName, Folder.isOpen_removeFile hLeaf hReady.isOpen⟩, ?_⟩
  rw [List.append_assoc, ← hSegments] at hLeaf ⊢
  exact Folder.inside_removeFile (Path.segments_ne_nil key) hLeaf

include hReady hValid hSegments in
/-- Deleting a key takes its file away, or changes nothing. -/
theorem delete_cases :
    (∃ bytes s', s.content.leafAt (Path.segments key) = some bytes ∧
        s.delete key = (.ok (), s') ∧ s'.IsReady ∧
        s'.content = Folder.removeFile s.content (Path.segments key)) ∨
      (s.delete key).2 = s := by
  rw [delete, pathOf_eq hValid hSegments]
  simp only [Folder.delete]
  cases hRead : s.folder.read ((s.base ++ folders) ++ [name]) with
  | error e => cases e <;> exact .inr rfl
  | ok bytes =>
    have hLeaf : s.content.leafAt (Path.segments key) = some bytes := by
      rw [← leafAt_content hSegments, (Folder.read_eq_ok_iff.1 hRead).2]
    exact .inl ⟨bytes, _, hLeaf, rfl, content_removeFile hReady hSegments hLeaf⟩

include hReady hValid hSegments hFree

theorem get?_of_isFree : s.get? key = .ok (s.content.leafAt (Path.segments key)) := by
  rw [get?, pathOf_eq hValid hSegments]
  simp only [Folder.read_of_isFree (hReady.isFree_iff.2 hFree), leafAt_content hSegments]
  cases s.content.leafAt (Path.segments key) with
  | none => rfl
  | some bytes => rfl

theorem set_of_isFree (bytes : Bytes) : ∃ s', s.set key bytes = (.ok (), s') ∧ s'.IsReady ∧
    s'.content = s.content.insertAt folders name bytes := by
  rcases set_cases hReady hValid hSegments bytes with ⟨-, hSet⟩ | ⟨hNot, -⟩
  · exact hSet
  · exact absurd hFree hNot

theorem delete_of_isFree : ∃ s', s.delete key = (.ok (), s') ∧ s'.IsReady ∧
    s'.content = if (s.content.leafAt (Path.segments key)).isSome then
      Folder.removeFile s.content (Path.segments key) else s.content := by
  have hDelete := Folder.delete_of_isFree (hReady.isFree_iff.2 hFree)
  rw [leafAt_content hSegments] at hDelete
  rw [delete, pathOf_eq hValid hSegments]
  simp only [hDelete]
  cases hLeaf : s.content.leafAt (Path.segments key) with
  | none => exact ⟨s, rfl, hReady, rfl⟩
  | some bytes => exact ⟨_, rfl, content_removeFile hReady hSegments hLeaf⟩

end

end FeatureFlags.DirectoryStore
