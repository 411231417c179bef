import FeatureFlags.Proofs.Files.Free
import Mathlib.Data.List.Induction

/-!
# Spare directories

A file that is written and deleted again leaves the directories on its way behind, and so does one
that could not be written. Two folders may then have the same files and yet differ, because one of
them has directories that the other could do without. Hardly any operation tells them apart: it has
to be about a spare directory itself, or to find in one that the next name is too long. Anything
else comes to the same in both, and leaves directories that are spare as they were before, or makes
them where they were missing.

* `HasSpare` — one folder has what the other has, and some directories more.
* `HasSpare.read_of_not_stops`, `HasSpare.read_of_stops` — which files are read alike.
* `HasSpare.write_of_not_isSpare`, `HasSpare.write_of_isSpare` — which files are written alike.
* `hasSpare_grown`, `hasSpare_removeFile_insertAt` — where spare directories come from.
-/

namespace FeatureFlags.Folder

open FileError (IsName isTooLong hasNul)

variable {t t' : Folder} {made path dir rest folders : List String} {name : String} {bytes : Bytes}

/-! ## How far a path leads -/

/-- Whether a directory is reached on a path that the file system takes. -/
structure Reaches (t : Folder) (dir : List String) : Prop where
  short : ∀ n ∈ dir, isTooLong n = false
  there : dir = [] ∨ t.HasBranch dir

theorem reaches_nil (t : Folder) : t.Reaches [] :=
  ⟨by simp, .inl rfl⟩

theorem Reaches.concat (h : t.Reaches dir) (hShort : isTooLong name = false)
    (hBranch : t.HasBranch (dir ++ [name])) : t.Reaches (dir ++ [name]) := by
  refine ⟨fun n hn => ?_, .inr hBranch⟩
  rcases List.mem_append.1 hn with hn | hn
  · exact h.short n hn
  · rwa [List.mem_singleton.1 hn]

/-- From a directory that is reached a path goes on inside it. -/
theorem Reaches.walk_append (h : t.Reaches dir) (rest : List String) :
    t.walk (dir ++ rest) = walk (t.inside dir) rest := by
  induction dir generalizing t with
  | nil => rfl
  | cons n dir ih =>
    have hFirst : t.HasBranch [n] :=
      (h.there.resolve_left (by simp)).of_isPrefix (by simp) (by simp)
    obtain ⟨inner, hGet⟩ := hFirst
    rw [Tree.lookup] at hGet
    have hChild : t.child n = inner := by rw [Tree.child, hGet]
    have hInner : Reaches inner dir := by
      refine ⟨fun m hm => h.short m (List.mem_cons_of_mem _ hm), ?_⟩
      by_cases hNil : dir = []
      · exact .inl hNil
      · obtain ⟨below, hBelow⟩ := h.there.resolve_left (by simp)
        rw [Tree.lookup_cons t n hNil, hChild] at hBelow
        exact .inr ⟨below, hBelow⟩
    rw [List.cons_append, walk, h.short n List.mem_cons_self, hGet, Tree.inside, hChild]
    exact ih hInner

/-- A path leads to a directory from which it does not go on to another one. -/
theorem exists_reaches (t : Folder) (path : List String) :
    ∃ dir rest, path = dir ++ rest ∧ t.Reaches dir ∧
      (rest = [] ∨ ∃ n after, rest = n :: after ∧
        (isTooLong n = true ∨ isTooLong n = false ∧ ¬ t.HasBranch (dir ++ [n]))) := by
  -- by induction from the end of the path: one more name is entered, or it is what stops
  induction path using List.reverseRecOn with
  | nil => exact ⟨[], [], rfl, reaches_nil t, .inl rfl⟩
  | append_singleton path last ih =>
    obtain ⟨dir, rest, rfl, hReaches, rfl | ⟨n, after, rfl, hStop⟩⟩ := ih
    · rw [List.append_nil]
      cases hLong : isTooLong last with
      | true => exact ⟨dir, [last], rfl, hReaches, .inr ⟨last, [], rfl, .inl hLong⟩⟩
      | false =>
        by_cases hBranch : t.HasBranch (dir ++ [last])
        · exact ⟨dir ++ [last], [], by simp, hReaches.concat hLong hBranch, .inl rfl⟩
        · exact ⟨dir, [last], rfl, hReaches, .inr ⟨last, [], rfl, .inr ⟨hLong, hBranch⟩⟩⟩
    · exact ⟨dir, n :: after ++ [last], by simp, hReaches, .inr ⟨n, after ++ [last], rfl, hStop⟩⟩

/-- Behind the last directory that is reached there is a file, or nothing. -/
theorem Reaches.walk_cons (h : t.Reaches dir) (hShort : isTooLong name = false)
    (hNot : ¬ t.HasBranch (dir ++ [name])) (rest : List String) :
    t.walk (dir ++ name :: rest) = match t.leafAt (dir ++ [name]) with
      | none => .error .notFound
      | some bytes => if rest = [] then .ok (.leaf bytes) else .error .notADirectory := by
  rw [h.walk_append, walk, hShort, Tree.leafAt_append t dir (by simp), Tree.leafAt_singleton]
  rw [Tree.hasBranch_append t dir (by simp)] at hNot
  cases hGet : (t.inside dir).get? name with
  | none => rfl
  | some item =>
    cases item with
    | leaf bytes => rfl
    | branch inner => exact absurd ⟨inner, hGet⟩ hNot

theorem Reaches.walk_of_isTooLong (h : t.Reaches dir) (hLong : isTooLong name = true)
    (rest : List String) : t.walk (dir ++ name :: rest) = .error .nameTooLong := by
  rw [h.walk_append, walk, if_pos hLong]

theorem Reaches.walk_self (h : t.Reaches dir) : t.walk dir = .ok (.branch (t.inside dir)) := by
  have hWalk := h.walk_append []
  rwa [List.append_nil] at hWalk

/-! ## Folders with the same files -/

/-- Whether the second of two folders has the files and the directories of the first, and besides
only the directories on a path. -/
structure HasSpare (made : List String) (t t' : Folder) : Prop where
  isName : ∀ n ∈ made, IsName n
  leafAt_eq : ∀ q, t'.leafAt q = t.leafAt q
  hasBranch_iff : ∀ q, t'.HasBranch q ↔ t.HasBranch q ∨ (q ≠ [] ∧ q <+: made)

/-- Whether a directory is one of those on a path and not in a folder itself. -/
structure IsSpare (made : List String) (t : Folder) (dir : List String) : Prop where
  ne_nil : dir ≠ []
  isPrefix : dir <+: made
  missing : ¬ t.HasBranch dir

/-- Whether a path leads to a spare directory and no further: it ends there, or has a name next that
is too long. -/
def Stops (made : List String) (t : Folder) (path : List String) : Prop :=
  path.any hasNul = false ∧ ∃ dir rest, path = dir ++ rest ∧ IsSpare made t dir ∧
    ∀ n ∈ rest.head?, isTooLong n = true

/-- Directories that are made on an open way are spare. -/
theorem hasSpare_grown (hNames : ∀ n ∈ made, IsName n) (hOpen : t.IsOpen made) :
    HasSpare made t (t.grown made) where
  isName := hNames
  leafAt_eq := Tree.leafAt_grown hOpen
  hasBranch_iff := Tree.hasBranch_grown hOpen

/-- When a new file has been put in its place and taken away again, the directories on its way are
spare. -/
theorem hasSpare_removeFile_insertAt (hFree : IsFree t folders name)
    (hNone : t.leafAt (folders ++ [name]) = none) (bytes : Bytes) :
    HasSpare folders t (removeFile (t.insertAt folders name bytes) (folders ++ [name])) := by
  have hPut := Tree.leafAt_insertAt_self t folders name bytes
  -- below the place of the file there was nothing, since it was no directory
  have hBelow (rest : List String) (hRest : rest ≠ []) :
      t.lookup ((folders ++ [name]) ++ rest) = none := by
    rw [Option.eq_none_iff_forall_ne_some]
    intro item hItem
    exact hFree.noFolder (Tree.hasBranch_of_lookup (by simp) hRest hItem)
  refine ⟨fun n hn => hFree.isName n (List.mem_append_left _ hn), fun q => ?_, fun q => ?_⟩
  · rw [leafAt_removeFile hPut]
    by_cases hq : q = folders ++ [name]
    · rw [if_pos hq, hq, hNone]
    · rw [if_neg hq]
      obtain ⟨hMeets, hApart⟩ := Tree.leafAt_insertAt_of_ne t folders name bytes hq
      by_cases hMeet : Tree.Meets (folders ++ [name]) q
      · -- what had to give way to the file was not there
        rw [hMeets hMeet]
        symm
        rcases hMeet with ⟨rest, rfl⟩ | hOnWay
        · rw [Tree.leafAt, hBelow rest (by simpa using hq)]
        · rcases List.prefix_concat_iff.1 hOnWay with rfl | hOnWay
          · exact hNone
          · exact hFree.isOpen q hOnWay
      · exact hApart hMeet
  · rw [hasBranch_removeFile hPut, Tree.hasBranch_insertAt_iff, or_comm]
    refine or_congr_left (and_iff_left_of_imp ?_)
    rintro ⟨inner, hInner⟩ ⟨rest, rfl⟩
    by_cases hRest : rest = []
    · rw [hRest, List.append_nil] at hInner
      exact hFree.noFolder ⟨inner, hInner⟩
    · rw [hBelow rest hRest] at hInner
      cases hInner

namespace HasSpare

theorem isOpen_iff (h : HasSpare made t t') : t'.IsOpen path ↔ t.IsOpen path := by
  unfold Tree.IsOpen
  simp only [h.leafAt_eq]

/-! ## Reading -/

/-- A spare directory can be reached in the folder that has it. -/
theorem reaches (h : HasSpare made t t') (hSpare : IsSpare made t dir) : t'.Reaches dir where
  short n hn := (h.isName n (hSpare.isPrefix.subset hn)).1
  there := .inr ((h.hasBranch_iff dir).2 (.inr ⟨hSpare.ne_nil, hSpare.isPrefix⟩))

/-- No file is on the way to a spare directory or in its place. -/
theorem isOpen_of_isSpare (h : HasSpare made t t') (hSpare : IsSpare made t dir) :
    t.IsOpen dir := by
  intro p hp
  by_cases hNil : p = []
  · rw [hNil, Tree.leafAt_nil]
  · obtain ⟨inner, hInner⟩ :=
      (h.hasBranch_iff p).2 (.inr ⟨hNil, hp.trans hSpare.isPrefix⟩)
    rw [← h.leafAt_eq, Tree.leafAt, hInner]

/-- In the folder that has no spare directories nothing is found there. -/
theorem walk_of_isSpare (h : HasSpare made t t') (hSpare : IsSpare made t dir)
    (rest : List String) : t.walk (dir ++ rest) = .error .notFound := by
  obtain ⟨above, below, rfl, hReaches, rfl | ⟨n, after, rfl, hStop⟩⟩ := exists_reaches t dir
  · rw [List.append_nil] at hSpare
    exact absurd (hReaches.there.resolve_left hSpare.ne_nil) hSpare.missing
  · have hShort : isTooLong n = false := (h.reaches hSpare).short n (by simp)
    have hNot : ¬ t.HasBranch (above ++ [n]) := by
      rcases hStop with hLong | hStop
      · rw [hShort] at hLong
        cases hLong
      · exact hStop.2
    have hNotLeaf := h.isOpen_of_isSpare hSpare (above ++ [n]) (by simp)
    rw [List.append_assoc, List.cons_append, hReaches.walk_cons hShort hNot, hNotLeaf]

/-- A path that does not stop at a spare directory leads to the same in both folders, or to a
directory of both. -/
theorem read_of_not_stops (h : HasSpare made t t') (hNot : ¬ Stops made t path) :
    t'.read path = t.read path := by
  cases hNul : path.any hasNul with
  | true => rw [read, read, if_pos hNul, if_pos hNul]
  | false =>
    suffices hWalk : t'.walk path = t.walk path ∨
        (∃ inner, t.walk path = .ok (.branch inner)) ∧
          ∃ inner, t'.walk path = .ok (.branch inner) by
      rcases hWalk with hWalk | ⟨⟨inner, hWalk⟩, inner', hWalk'⟩
      · rw [read, read, hWalk]
      · rw [read, read, hWalk, hWalk']
    obtain ⟨dir, rest, rfl, hReaches', hStop⟩ := exists_reaches t' path
    by_cases hSpare : IsSpare made t dir
    · -- the path goes on behind the spare directory, where there is nothing
      left
      rw [h.walk_of_isSpare hSpare]
      rcases hStop with rfl | ⟨n, after, rfl, hLong | ⟨hShort, hMissing⟩⟩
      · exact absurd ⟨hNul, dir, [], rfl, hSpare, by simp⟩ hNot
      · exact absurd ⟨hNul, dir, n :: after, rfl, hSpare, by simpa using hLong⟩ hNot
      · have hNone : t'.leafAt (dir ++ [n]) = none := by
          rw [h.leafAt_eq, Option.eq_none_iff_forall_ne_some]
          intro b hb
          exact hSpare.missing
            (Tree.hasBranch_of_lookup hSpare.ne_nil (by simp) (Tree.leafAt_eq_some_iff.1 hb))
        rw [hReaches'.walk_cons hShort hMissing, hNone]
    · have hReaches : t.Reaches dir := by
        refine ⟨hReaches'.short, hReaches'.there.imp_right fun hThere => ?_⟩
        rcases (h.hasBranch_iff dir).1 hThere with hThere | ⟨hNe, hOn⟩
        · exact hThere
        · by_contra hMissing
          exact hSpare ⟨hNe, hOn, hMissing⟩
      rcases hStop with rfl | ⟨n, after, rfl, hLong | ⟨hShort, hMissing⟩⟩
      · rw [List.append_nil]
        exact .inr ⟨⟨_, hReaches.walk_self⟩, _, hReaches'.walk_self⟩
      · left
        rw [hReaches.walk_of_isTooLong hLong, hReaches'.walk_of_isTooLong hLong]
      · left
        have hMissing' : ¬ t.HasBranch (dir ++ [n]) :=
          fun hThere => hMissing ((h.hasBranch_iff _).2 (.inl hThere))
        rw [hReaches.walk_cons hShort hMissing', hReaches'.walk_cons hShort hMissing, h.leafAt_eq]

/-- At a spare directory nothing is found in one folder, and in the other something that is no
file. -/
theorem read_of_stops (h : HasSpare made t t') (hStops : Stops made t path) :
    t.read path = .error .notFound ∧ ∃ e, t'.read path = .error e ∧ e ≠ .notFound := by
  obtain ⟨hNul, dir, rest, rfl, hSpare, hNext⟩ := hStops
  have hReaches := h.reaches hSpare
  rw [read, read, hNul, h.walk_of_isSpare hSpare]
  refine ⟨rfl, ?_⟩
  cases rest with
  | nil =>
    rw [List.append_nil, hReaches.walk_self]
    exact ⟨.isADirectory, rfl, by simp⟩
  | cons n after =>
    rw [hReaches.walk_of_isTooLong (hNext n rfl)]
    exact ⟨.nameTooLong, rfl, by simp⟩

/-! ## Writing and deleting -/

theorem insertAt (h : HasSpare made t t') (hApart : ¬ folders ++ [name] <+: made)
    (bytes : Bytes) :
    HasSpare made (t.insertAt folders name bytes) (t'.insertAt folders name bytes) where
  isName := h.isName
  leafAt_eq q := by
    by_cases hq : q = folders ++ [name]
    · rw [hq, Tree.leafAt_insertAt_self, Tree.leafAt_insertAt_self]
    · obtain ⟨hMeets, hFar⟩ := Tree.leafAt_insertAt_of_ne t folders name bytes hq
      obtain ⟨hMeets', hFar'⟩ := Tree.leafAt_insertAt_of_ne t' folders name bytes hq
      by_cases hMeet : Tree.Meets (folders ++ [name]) q
      · rw [hMeets hMeet, hMeets' hMeet]
      · rw [hFar hMeet, hFar' hMeet, h.leafAt_eq]
  hasBranch_iff q := by
    rw [Tree.hasBranch_insertAt_iff, Tree.hasBranch_insertAt_iff, h.hasBranch_iff, or_and_right,
      ← or_assoc]
    refine or_congr_right (and_iff_left_of_imp ?_)
    rintro ⟨-, hOn⟩ hBelow
    exact hApart (hBelow.trans hOn)

theorem grown (h : HasSpare made t t') (hOpen : t.IsOpen path) :
    HasSpare made (t.grown path) (t'.grown path) where
  isName := h.isName
  leafAt_eq q := by
    rw [Tree.leafAt_grown hOpen, Tree.leafAt_grown (h.isOpen_iff.2 hOpen), h.leafAt_eq]
  hasBranch_iff q := by
    rw [Tree.hasBranch_grown hOpen, Tree.hasBranch_grown (h.isOpen_iff.2 hOpen), h.hasBranch_iff,
      or_right_comm]

theorem removeFile (h : HasSpare made t t') (hLeaf : t.leafAt path = some bytes) :
    HasSpare made (Folder.removeFile t path) (Folder.removeFile t' path) where
  isName := h.isName
  leafAt_eq q := by
    rw [leafAt_removeFile hLeaf, leafAt_removeFile ((h.leafAt_eq path).trans hLeaf), h.leafAt_eq]
  hasBranch_iff q := by
    rw [hasBranch_removeFile hLeaf, hasBranch_removeFile ((h.leafAt_eq path).trans hLeaf),
      h.hasBranch_iff]

/-- A file is written alike, but in the place of a spare directory. -/
theorem write_of_not_isSpare (h : HasSpare made t t') (hNot : ¬ IsSpare made t (folders ++ [name]))
    (bytes : Bytes) :
    (t'.write (folders ++ [name]) bytes).1 = (t.write (folders ++ [name]) bytes).1 ∧
      HasSpare made (t.write (folders ++ [name]) bytes).2
        (t'.write (folders ++ [name]) bytes).2 := by
  have hBranch : t'.HasBranch (folders ++ [name]) ↔ t.HasBranch (folders ++ [name]) := by
    rw [h.hasBranch_iff]
    refine or_iff_left_of_imp ?_
    rintro ⟨hNe, hOn⟩
    by_contra hMissing
    exact hNot ⟨hNe, hOn, hMissing⟩
  rcases write_alike h.leafAt_eq hBranch bytes with
    ⟨hFree, hWrite, hWrite'⟩ | ⟨-, e, new, -, -, hOpen, hWrite, hWrite'⟩
  · rw [hWrite, hWrite']
    refine ⟨rfl, h.insertAt (fun hOn => ?_) bytes⟩
    exact hNot ⟨by simp, hOn, hFree.noFolder⟩
  · rw [hWrite, hWrite']
    exact ⟨rfl, h.grown hOpen⟩

/-- In the place of a spare directory a file can be written if it is missing, and not if it is
there. -/
theorem write_of_isSpare (h : HasSpare made t t') (hSpare : IsSpare made t (folders ++ [name]))
    (bytes : Bytes) :
    (t.write (folders ++ [name]) bytes).1 = .ok () ∧
      ∃ e, (t'.write (folders ++ [name]) bytes).1 = .error e := by
  have hFree : IsFree t folders name :=
    ⟨fun n hn => h.isName n (hSpare.isPrefix.subset hn),
      (h.isOpen_of_isSpare hSpare).of_isPrefix (List.prefix_append _ _), hSpare.missing⟩
  have hNotFree : ¬ IsFree t' folders name :=
    fun hFree' => hFree'.noFolder ((h.reaches hSpare).there.resolve_left (by simp))
  constructor
  · rcases write_cases t folders name bytes with ⟨-, hWrite⟩ | ⟨hNot, -⟩
    · rw [hWrite]
    · exact absurd hFree hNot
  · rcases write_cases t' folders name bytes with ⟨hFree', -⟩ | ⟨-, e, new, -, -, -, hWrite⟩
    · exact absurd hFree' hNotFree
    · exact ⟨e, by rw [hWrite]⟩

end HasSpare

end FeatureFlags.Folder
