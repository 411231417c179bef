import FeatureFlags.Files.Folder
import FeatureFlags.Proofs.Tree.Inside
import FeatureFlags.Proofs.Tree.Members
import Mathlib.Data.List.Basic

/-!
# Places for files

A file can stand at a path if no other file is in its way, no directory has its name, and the file
system takes all names on the path. There everything is as it is said of trees: writing puts a leaf
in, reading looks it up, and deleting takes that one leaf away.

* `read_eq_ok_iff` — which files are read.
* `write_cases`, `write_alike` — what writing comes to, at such a place and at any other, and on
  what it depends.
* `read_of_isFree`, `delete_of_isFree` — what is done at such a place.
* `leafAt_removeFile`, `hasBranch_removeFile` — what is left when a file is taken away.
* `walk_of_isOpen` — a directory is there, or nothing is below it.
-/

namespace FeatureFlags

/-- Whether a file system takes a name. -/
def FileError.IsName (name : String) : Prop :=
  isTooLong name = false ∧ hasNul name = false

instance (name : String) : Decidable (FileError.IsName name) :=
  inferInstanceAs (Decidable (_ ∧ _))

namespace Folder

open FileError (IsName)

variable {t t' : Folder} {path folders : List String} {name : String} {bytes : Bytes}

/-- Whether a file can stand at a path. -/
structure IsFree (t : Folder) (folders : List String) (name : String) : Prop where
  isName : ∀ n ∈ folders ++ [name], IsName n
  isOpen : t.IsOpen folders
  noFolder : ¬ t.HasBranch (folders ++ [name])

theorem any_hasNul (h : ∀ n ∈ path, IsName n) : path.any FileError.hasNul = false := by
  rw [List.any_eq_false]
  intro n hn
  rw [(h n hn).2]
  exact Bool.false_ne_true

/-! ## Reading -/

/-- What stands at the end of an open way is what is looked up there. -/
theorem walk_append_singleton (hNames : ∀ n ∈ folders ++ [name], IsName n)
    (hOpen : t.IsOpen folders) :
    t.walk (folders ++ [name]) =
      (t.lookup (folders ++ [name])).elim (.error .notFound) .ok := by
  -- by induction on the directories; none of them is a file, and below a missing one is nothing
  induction folders generalizing t with
  | nil =>
    have hShort : FileError.isTooLong name = false := (hNames name (by simp)).1
    simp only [List.nil_append, walk, Tree.lookup, hShort]
    cases t.get? name with
    | none => rfl
    | some item => cases item <;> rfl
  | cons segment folders ih =>
    have hShort : FileError.isTooLong segment = false := (hNames segment (by simp)).1
    obtain ⟨hNotLeaf, hInner⟩ := Tree.isOpen_cons.1 hOpen
    have hStep := ih (fun n hn => hNames n (by simp_all)) hInner
    rw [List.cons_append, Tree.lookup_cons t segment (by simp), walk, hShort]
    rw [Tree.child] at hStep ⊢
    cases hGet : t.get? segment with
    | none => simp
    | some item =>
      cases item with
      | leaf b => exact absurd hGet (Tree.get?_ne_leaf hNotLeaf b)
      | branch inner =>
        rw [hGet] at hStep
        exact hStep

/-- A file below a directory is a file of that directory. -/
theorem walk_cons_eq_leaf_iff (hNe : path ≠ []) :
    t.walk (name :: path) = .ok (.leaf bytes) ↔
      FileError.isTooLong name = false ∧ walk (t.child name) path = .ok (.leaf bytes) := by
  -- an empty directory has no file, and so nothing lies below a file either
  have hEmpty : walk .empty path ≠ .ok (.leaf bytes) := by
    cases path with
    | nil => exact absurd rfl hNe
    | cons first rest =>
      rw [walk]
      split
      · simp
      · simp [Tree.get?]
  rw [walk]
  unfold Tree.child
  cases hLong : FileError.isTooLong name with
  | true => simp
  | false =>
    cases hGet : t.get? name with
    | none => simpa using hEmpty
    | some item =>
      cases item with
      | leaf b => simpa [hNe] using hEmpty
      | branch inner => simp

theorem walk_eq_leaf_iff :
    t.walk path = .ok (.leaf bytes) ↔
      (∀ n ∈ path, FileError.isTooLong n = false) ∧ t.leafAt path = some bytes := by
  induction path generalizing t with
  | nil => simp [walk]
  | cons name path ih =>
    by_cases hNil : path = []
    · subst hNil
      rw [walk, Tree.leafAt_singleton, List.forall_mem_singleton]
      cases FileError.isTooLong name with
      | true => simp
      | false =>
        cases t.get? name with
        | none => simp
        | some item => cases item <;> simp [walk]
    · rw [walk_cons_eq_leaf_iff hNil, ih, Tree.leafAt_cons t name hNil, List.forall_mem_cons,
        and_assoc]

/-- A file is read if it is there, under names that the file system takes. -/
theorem read_eq_ok_iff :
    t.read path = .ok bytes ↔ (∀ n ∈ path, IsName n) ∧ t.leafAt path = some bytes := by
  have hNames : (∀ n ∈ path, IsName n) ↔
      path.any FileError.hasNul = false ∧ ∀ n ∈ path, FileError.isTooLong n = false := by
    simp only [IsName, List.any_eq_false, Bool.not_eq_true]
    grind
  rw [hNames, and_assoc, ← walk_eq_leaf_iff, read]
  split
  · next hNul => simp [hNul]
  · next hNul =>
    rw [Bool.not_eq_true] at hNul
    split
    · next b hWalk => simp [hNul, hWalk]
    · next inner hWalk => simp [hWalk]
    · next e hWalk => simp [hWalk]

/-- A file in its place is read, and where none is, none is found. -/
theorem read_of_isFree (h : IsFree t folders name) :
    t.read (folders ++ [name]) =
      (t.leafAt (folders ++ [name])).elim (.error .notFound) .ok := by
  rw [read, any_hasNul h.isName, walk_append_singleton h.isName h.isOpen, Tree.leafAt]
  cases hLookup : t.lookup (folders ++ [name]) with
  | none => rfl
  | some item =>
    cases item with
    | leaf b => rfl
    | branch inner => exact absurd ⟨inner, hLookup⟩ h.noFolder

/-- At the end of an open way is a directory, or nothing yet. -/
theorem walk_of_isOpen (hNames : ∀ n ∈ path, IsName n) (hOpen : t.IsOpen path) :
    t.walk path = .ok (.branch (t.inside path)) ∨
      t.walk path = .error .notFound ∧ t.inside path = .empty := by
  rcases List.eq_nil_or_concat' path with rfl | ⟨folders, name, rfl⟩
  · exact .inl rfl
  · have hNotLeaf : t.leafAt (folders ++ [name]) = none := hOpen _ List.prefix_rfl
    have hWalk := walk_append_singleton hNames (hOpen.of_isPrefix (List.prefix_append _ _))
    rw [hWalk]
    cases hLookup : t.lookup (folders ++ [name]) with
    | none => exact .inr ⟨rfl, Tree.inside_eq_empty_of_lookup (by simp) (by simp [hLookup])⟩
    | some item =>
      cases item with
      | leaf b =>
        rw [Tree.leafAt, hLookup] at hNotLeaf
        cases hNotLeaf
      | branch inner =>
        rw [Tree.inside_eq_of_lookup hLookup]
        exact .inl rfl

/-- Where a directory is found, or nothing at all, no file is in the way. -/
theorem isOpen_of_walk {inner : Folder} (h : t.walk path = .ok (.branch inner) ∨
    t.walk path = .error .notFound ∧ inner = .empty) :
    t.IsOpen path ∧ t.inside path = inner := by
  induction path generalizing t with
  | nil =>
    -- the folder itself is always there
    rcases h with hThere | ⟨hMissing, -⟩
    · cases hThere
      exact ⟨Tree.isOpen_nil _, rfl⟩
    · cases hMissing
  | cons name path ih =>
    rw [Tree.isOpen_cons, Tree.inside, Tree.child, Tree.leafAt_singleton]
    rw [walk] at h
    split at h
    · simp at h
    · cases hGet : t.get? name with
      | none =>
        -- from here on nothing is there, so nothing is in the way
        rw [hGet] at h
        rcases h with hThere | ⟨-, rfl⟩
        · cases hThere
        · refine ⟨⟨rfl, ?_⟩, Tree.inside_empty path⟩
          intro p _
          exact Tree.leafAt_empty p
      | some item =>
        rw [hGet] at h
        cases item with
        | leaf b =>
          -- a file has been found, or it is in the way
          simp only at h
          split at h <;> simp at h
        | branch below =>
          obtain ⟨hOpen, hInside⟩ := ih h
          exact ⟨⟨rfl, hOpen⟩, hInside⟩

/-! ## Writing -/

/-- The first of the directories is entered if no file has its name. -/
theorem makeFolders_cons (hShort : FileError.isTooLong name = false)
    (hNotLeaf : t.leafAt [name] = none) (folders : List String) :
    makeFolders t (name :: folders) = ((makeFolders (t.child name) folders).1,
      t.put name (.branch (makeFolders (t.child name) folders).2)) := by
  rw [makeFolders, if_neg (by simp [hShort])]
  split
  · next b hGet => exact absurd hGet (Tree.get?_ne_leaf hNotLeaf b)
  · rfl

/-- A file of the first name stops it. -/
theorem makeFolders_of_leafAt (hShort : FileError.isTooLong name = false)
    (h : t.leafAt [name] = some bytes) (folders : List String) :
    makeFolders t (name :: folders) =
      (.error (if folders = [] then .exists_ else .notADirectory), t) := by
  rw [Tree.leafAt_eq_some_iff, Tree.lookup] at h
  rw [makeFolders, if_neg (by simp [hShort]), h]

/-- Whether directories can be made. -/
def CanMake (t : Folder) (folders : List String) : Prop :=
  (∀ n ∈ folders, FileError.isTooLong n = false) ∧ t.IsOpen folders

theorem canMake_cons : CanMake t (name :: folders) ↔
    (FileError.isTooLong name = false ∧ t.leafAt [name] = none) ∧
      CanMake (t.child name) folders := by
  rw [CanMake, CanMake, List.forall_mem_cons, Tree.isOpen_cons, and_and_and_comm]

/-- Directories that can be made are made, and otherwise those before the first that cannot. It
depends on the files alone, and not on the directories that are there already. -/
theorem makeFolders_alike (hLeaf : ∀ q, t'.leafAt q = t.leafAt q) (folders : List String) :
    (CanMake t folders ∧ makeFolders t folders = (.ok (), t.grown folders) ∧
        makeFolders t' folders = (.ok (), t'.grown folders)) ∨
      ¬ CanMake t folders ∧ ∃ e made, made <+: folders ∧ CanMake t made ∧
        makeFolders t folders = (.error e, t.grown made) ∧
        makeFolders t' folders = (.error e, t'.grown made) := by
  have hNil (t : Folder) : CanMake t [] := ⟨by simp, Tree.isOpen_nil t⟩
  induction folders generalizing t t' with
  | nil => exact .inl ⟨hNil t, rfl, rfl⟩
  | cons segment folders ih =>
    -- at the first directory it stops, or it is entered
    by_cases hLong : FileError.isTooLong segment = true
    · refine .inr ⟨fun hCan => ?_, .nameTooLong, [], List.nil_prefix, hNil t, ?_, ?_⟩
      · rw [(canMake_cons.1 hCan).1.1] at hLong
        cases hLong
      · rw [makeFolders, if_pos hLong, Tree.grown_nil]
      · rw [makeFolders, if_pos hLong, Tree.grown_nil]
    have hShort : FileError.isTooLong segment = false := Bool.eq_false_iff.2 hLong
    have hSame := hLeaf [segment]
    cases hFile : t.leafAt [segment] with
    | some b =>
      refine .inr ⟨fun hCan => ?_, if folders = [] then .exists_ else .notADirectory, [],
        List.nil_prefix, hNil t, ?_, ?_⟩
      · rw [(canMake_cons.1 hCan).1.2] at hFile
        cases hFile
      · rw [makeFolders_of_leafAt hShort hFile, Tree.grown_nil]
      · rw [makeFolders_of_leafAt hShort (hSame.trans hFile), Tree.grown_nil]
    | none =>
      have hInner (q : List String) : (t'.child segment).leafAt q = (t.child segment).leafAt q := by
        rw [← Tree.leafAt_cons_of_leafAt_eq_none hFile,
          ← Tree.leafAt_cons_of_leafAt_eq_none (hSame.trans hFile)]
        exact hLeaf (segment :: q)
      have hCan (folders : List String) :
          CanMake t (segment :: folders) ↔ CanMake (t.child segment) folders :=
        canMake_cons.trans (and_iff_right ⟨hShort, hFile⟩)
      rw [hCan, makeFolders_cons hShort hFile, makeFolders_cons hShort (hSame.trans hFile)]
      rcases ih hInner with ⟨hAll, hMade, hMade'⟩ | ⟨hNot, e, made, hOnWay, hAll, hMade, hMade'⟩
      · rw [hMade, hMade']
        exact .inl ⟨hAll, rfl, rfl⟩
      · rw [hMade, hMade']
        exact .inr ⟨hNot, e, segment :: made, by simpa using hOnWay, (hCan made).2 hAll, rfl, rfl⟩

/-- Whether a file of a name can be put into a directory that has been made. -/
def CanPlace (t : Folder) (folders : List String) (name : String) : Prop :=
  IsName name ∧ ¬ t.HasBranch (folders ++ [name])

theorem place_nil_of_hasBranch (hName : IsName name) (h : t.HasBranch [name]) :
    place t name bytes [] = (.error .isADirectory, t) := by
  obtain ⟨inner, hGet⟩ := h
  rw [Tree.lookup] at hGet
  rw [place, if_neg (by simp [hName.2]), if_neg (by simp [hName.1]), hGet]

theorem place_nil_of_not_hasBranch (hName : IsName name) (h : ¬ t.HasBranch [name]) :
    place t name bytes [] = (.ok (), t.insertAt [] name bytes) := by
  rw [place, if_neg (by simp [hName.2]), if_neg (by simp [hName.1])]
  split
  · next inner hGet => exact absurd ⟨inner, hGet⟩ h
  · rfl

/-- Why a name is not taken does not depend on the folder. -/
theorem exists_place_nil (hName : ¬ IsName name) (bytes : Bytes) :
    ∃ e, ∀ t : Folder, place t name bytes [] = (.error e, t) := by
  unfold place
  by_cases hNul : FileError.hasNul name = true
  · exact ⟨.nulInName, fun t => if_pos hNul⟩
  · by_cases hLong : FileError.isTooLong name = true
    · exact ⟨.nameTooLong, fun t => by rw [if_neg hNul, if_pos hLong]⟩
    · exact absurd ⟨Bool.eq_false_iff.2 hLong, Bool.eq_false_iff.2 hNul⟩ hName

/-- In directories that have been made a file is put where it would have been put without them, if
no directory has its name. -/
theorem place_grown_alike
    (hBranch : t'.HasBranch (folders ++ [name]) ↔ t.HasBranch (folders ++ [name]))
    (bytes : Bytes) :
    (CanPlace t folders name ∧
        place (t.grown folders) name bytes folders = (.ok (), t.insertAt folders name bytes) ∧
        place (t'.grown folders) name bytes folders = (.ok (), t'.insertAt folders name bytes)) ∨
      ¬ CanPlace t folders name ∧ ∃ e,
        place (t.grown folders) name bytes folders = (.error e, t.grown folders) ∧
        place (t'.grown folders) name bytes folders = (.error e, t'.grown folders) := by
  induction folders generalizing t t' with
  | nil =>
    rw [Tree.grown_nil, Tree.grown_nil]
    by_cases hName : IsName name
    · by_cases hThere : t.HasBranch [name]
      · refine .inr ⟨fun hCan => hCan.2 hThere, .isADirectory, ?_, ?_⟩
        · exact place_nil_of_hasBranch hName hThere
        · exact place_nil_of_hasBranch hName (hBranch.2 hThere)
      · refine .inl ⟨⟨hName, hThere⟩, ?_, ?_⟩
        · exact place_nil_of_not_hasBranch hName hThere
        · exact place_nil_of_not_hasBranch hName fun hThere' => hThere (hBranch.1 hThere')
    · obtain ⟨e, hPlace⟩ := exists_place_nil hName bytes
      exact .inr ⟨fun hCan => hName hCan.1, e, hPlace t, hPlace t'⟩
  | cons segment folders ih =>
    have hBelow (t : Folder) : t.HasBranch (segment :: folders ++ [name]) ↔
        (t.child segment).HasBranch (folders ++ [name]) := by
      rw [Tree.HasBranch, Tree.HasBranch, List.cons_append, Tree.lookup_cons t segment (by simp)]
    have hCan : CanPlace t (segment :: folders) name ↔ CanPlace (t.child segment) folders name :=
      and_congr_right fun _ => not_congr (hBelow t)
    -- the directory is put back twice, first with those below it and then with the file too
    simp only [hCan, place, Tree.grown, Tree.child_put_self, Tree.insertAt]
    rw [hBelow, hBelow] at hBranch
    rcases ih hBranch with ⟨hAll, hPlaced, hPlaced'⟩ | ⟨hNot, e, hPlaced, hPlaced'⟩
    · refine .inl ⟨hAll, ?_, ?_⟩
      · simp only [hPlaced, Tree.put_put]
      · simp only [hPlaced', Tree.put_put]
    · refine .inr ⟨hNot, e, ?_, ?_⟩
      · simp only [hPlaced, Tree.put_put]
      · simp only [hPlaced', Tree.put_put]

/-- A file that can stand at its path is put there, and nothing else changes. Otherwise no file
changes, but directories may have been made on an open way to it. It depends on the files, and on
whether there is a directory at the path itself. -/
theorem write_alike (hLeaf : ∀ q, t'.leafAt q = t.leafAt q)
    (hBranch : t'.HasBranch (folders ++ [name]) ↔ t.HasBranch (folders ++ [name]))
    (bytes : Bytes) :
    (IsFree t folders name ∧
        t.write (folders ++ [name]) bytes = (.ok (), t.insertAt folders name bytes) ∧
        t'.write (folders ++ [name]) bytes = (.ok (), t'.insertAt folders name bytes)) ∨
      ¬ IsFree t folders name ∧ ∃ e made, made <+: folders ∧ (∀ n ∈ made, IsName n) ∧
        t.IsOpen made ∧ t.write (folders ++ [name]) bytes = (.error e, t.grown made) ∧
        t'.write (folders ++ [name]) bytes = (.error e, t'.grown made) := by
  simp only [write, List.getLast?_append, List.getLast?_singleton, Option.some_or,
    List.dropLast_concat]
  by_cases hNul : folders.any FileError.hasNul = true
  · rw [if_pos hNul, if_pos hNul]
    refine .inr ⟨fun hFree => ?_, .nulInName, [], List.nil_prefix, by simp, Tree.isOpen_nil t,
      rfl, rfl⟩
    rw [any_hasNul fun n hn => hFree.isName n (List.mem_append_left _ hn)] at hNul
    cases hNul
  rw [if_neg hNul, if_neg hNul]
  have hNames {made : List String} (hOnWay : made <+: folders) (hMake : CanMake t made) :
      ∀ n ∈ made, IsName n := by
    intro n hn
    refine ⟨hMake.1 n hn, Bool.eq_false_iff.2 fun h => ?_⟩
    exact hNul (List.any_eq_true.2 ⟨n, hOnWay.subset hn, h⟩)
  rcases makeFolders_alike hLeaf folders with
    ⟨hMake, hMade, hMade'⟩ | ⟨hNot, e, made, hOnWay, hMake, hMade, hMade'⟩
  · rw [hMade, hMade']
    rcases place_grown_alike hBranch bytes with
      ⟨hPlace, hPlaced, hPlaced'⟩ | ⟨hNot, e, hPlaced, hPlaced'⟩
    · refine .inl ⟨⟨fun n hn => ?_, hMake.2, hPlace.2⟩, hPlaced, hPlaced'⟩
      rcases List.mem_append.1 hn with hFolder | hName
      · exact hNames List.prefix_rfl hMake n hFolder
      · exact List.mem_singleton.1 hName ▸ hPlace.1
    · refine .inr ⟨fun hFree => hNot ⟨hFree.isName name (by simp), hFree.noFolder⟩, e, folders,
        List.prefix_rfl, hNames List.prefix_rfl hMake, hMake.2, hPlaced, hPlaced'⟩
  · rw [hMade, hMade']
    refine .inr ⟨fun hFree => hNot ⟨fun n hn => ?_, hFree.isOpen⟩, e, made, hOnWay,
      hNames hOnWay hMake, hMake.2, rfl, rfl⟩
    exact (hFree.isName n (List.mem_append_left _ hn)).1

/-- What writing a file comes to in one folder. -/
theorem write_cases (t : Folder) (folders : List String) (name : String) (bytes : Bytes) :
    IsFree t folders name ∧
        t.write (folders ++ [name]) bytes = (.ok (), t.insertAt folders name bytes) ∨
      ¬ IsFree t folders name ∧ ∃ e made, made <+: folders ∧ (∀ n ∈ made, IsName n) ∧
        t.IsOpen made ∧ t.write (folders ++ [name]) bytes = (.error e, t.grown made) := by
  have hBranch : t.HasBranch (folders ++ [name]) ↔ t.HasBranch (folders ++ [name]) := Iff.rfl
  simpa only [and_self] using write_alike (fun _ => rfl) hBranch bytes

/-! ## Deleting -/

@[simp]
theorem removeFile_singleton (t : Folder) (name : String) :
    removeFile t [name] = t.remove name := rfl

/-- A file below a directory is taken out of that directory. -/
theorem removeFile_cons (hNe : path ≠ []) (h : t.leafAt (name :: path) = some bytes) :
    removeFile t (name :: path) = t.put name (.branch (removeFile (t.child name) path)) := by
  rw [removeFile, Tree.get?_eq_branch hNe h]
  exact hNe

/-- A file that is taken out of its directory is looked up in vain, also as a way to others. -/
theorem lookup_remove (t : Folder) (name : String) (q : List String) :
    (t.remove name).lookup (name :: q) = none := by
  have hGet : (t.remove name).get? name = (Tree.empty : Folder).get? name := by
    rw [Tree.get?_remove, if_pos rfl]
    rfl
  rw [Tree.lookup_congr hGet, Tree.lookup_empty]

theorem lookup_remove_of_ne (t : Folder) {other : String} (h : other ≠ name) (q : List String) :
    (t.remove name).lookup (other :: q) = t.lookup (other :: q) := by
  apply Tree.lookup_congr
  rw [Tree.get?_remove, if_neg h]

theorem leafAt_remove (h : t.leafAt [name] = some bytes) (q : List String) :
    (t.remove name).leafAt q = if q = [name] then none else t.leafAt q := by
  cases q with
  | nil => simp
  | cons other q =>
    by_cases hOther : other = name
    · subst hOther
      rw [Tree.leafAt, lookup_remove]
      by_cases hNil : q = []
      · simp [hNil]
      · -- below the file there was nothing
        cases hBelow : t.leafAt (other :: q) with
        | none => simp
        | some b =>
          rw [Tree.leafAt_singleton_eq_none hNil hBelow] at h
          cases h
    · rw [Tree.leafAt, lookup_remove_of_ne t hOther, if_neg (by simp [hOther])]
      rfl

/-- Taking a file away takes one leaf away. -/
theorem leafAt_removeFile (h : t.leafAt path = some bytes) (q : List String) :
    (removeFile t path).leafAt q = if q = path then none else t.leafAt q := by
  -- by induction on the path; what leads elsewhere at its first name is not concerned
  induction path generalizing t q with
  | nil => simp at h
  | cons name path ih =>
    by_cases hPath : path = []
    · subst hPath
      exact leafAt_remove h q
    · have hNotLeaf := Tree.leafAt_singleton_eq_none hPath h
      rw [removeFile_cons hPath h]
      rw [Tree.leafAt_cons t name hPath] at h
      cases q with
      | nil => simp
      | cons other q =>
        by_cases hOther : other = name
        · -- a directory before and after, so only what is below it counts
          subst hOther
          have hStill (inner : Folder) : (t.put other (.branch inner)).leafAt [other] = none := by
            rw [Tree.leafAt_singleton, Tree.get?_put, if_pos rfl]
          rw [Tree.leafAt_cons_of_leafAt_eq_none (hStill _), Tree.child_put_self,
            Tree.leafAt_cons_of_leafAt_eq_none hNotLeaf]
          simp only [ih h, List.cons.injEq, true_and]
        · rw [Tree.leafAt, Tree.lookup_put_of_ne t _ hOther, if_neg (by simp [hOther])]
          rfl

/-- Taking a file away neither makes directories nor takes any away. -/
theorem hasBranch_removeFile (h : t.leafAt path = some bytes) (q : List String) :
    (removeFile t path).HasBranch q ↔ t.HasBranch q := by
  induction path generalizing t q with
  | nil => simp at h
  | cons name path ih =>
    cases q with
    | nil => simp [Tree.HasBranch]
    | cons other q =>
      by_cases hPath : path = []
      · subst hPath
        by_cases hOther : other = name
        · -- where the file was there is no directory, before and after
          subst hOther
          have hFile : t.lookup [other] = some (.leaf bytes) := Tree.leafAt_eq_some_iff.1 h
          have hNot : ¬ t.HasBranch (other :: q) := by
            intro hBranch
            obtain ⟨inner, hInner⟩ := hBranch.of_isPrefix (p := [other]) (by simp) (by simp)
            rw [hFile] at hInner
            cases hInner
          rw [removeFile_singleton, Tree.HasBranch, lookup_remove]
          simp [hNot]
        · rw [removeFile_singleton, Tree.HasBranch, lookup_remove_of_ne t hOther, ← Tree.HasBranch]
      · rw [removeFile_cons hPath h]
        by_cases hOther : other = name
        · subst hOther
          by_cases hNil : q = []
          · -- the directory in which the file was
            subst hNil
            have hStill (inner : Folder) : (t.put other (.branch inner)).HasBranch [other] :=
              ⟨inner, by rw [Tree.lookup, Tree.get?_put, if_pos rfl]⟩
            exact iff_of_true (hStill _) ⟨t.child other, Tree.get?_eq_branch hPath h⟩
          · rw [Tree.leafAt_cons t other hPath] at h
            rw [Tree.HasBranch, Tree.HasBranch, Tree.lookup_cons _ _ hNil, Tree.child_put_self,
              Tree.lookup_cons _ _ hNil]
            exact ih h q
        · rw [Tree.HasBranch, Tree.lookup_put_of_ne t _ hOther, ← Tree.HasBranch]

/-- What is taken away below a path is taken out of what is there. -/
theorem inside_removeFile {p : List String} (hNe : path ≠ [])
    (h : t.leafAt (p ++ path) = some bytes) :
    (removeFile t (p ++ path)).inside p = removeFile (t.inside p) path := by
  induction p generalizing t with
  | nil => rfl
  | cons name p ih =>
    have hBelow : p ++ path ≠ [] := by simp [hNe]
    rw [List.cons_append] at h ⊢
    rw [removeFile_cons hBelow h, Tree.inside, Tree.child_put_self, Tree.inside]
    rw [Tree.leafAt_cons t name hBelow] at h
    exact ih h

theorem isOpen_removeFile (h : t.leafAt path = some bytes) {p : List String} (hOpen : t.IsOpen p) :
    (removeFile t path).IsOpen p := by
  intro q hq
  rw [leafAt_removeFile h, hOpen q hq, ite_self]

theorem sorted_removeFile (hSorted : t.Sorted) (path : List String) :
    (removeFile t path).Sorted := by
  induction path generalizing t with
  | nil => exact hSorted
  | cons name path ih =>
    by_cases hPath : path = []
    · subst hPath
      exact Tree.sorted_remove hSorted name
    · rw [removeFile]
      · split
        · next inner hGet =>
          have hInner : inner.Sorted := Tree.sorted_of_get? hSorted hGet
          exact Tree.sorted_put hSorted name (ih hInner)
        · exact hSorted
      · exact hPath

/-- Deleting a file takes it away, and where none is, none is found. -/
theorem delete_of_isFree (h : IsFree t folders name) :
    t.delete (folders ++ [name]) =
      if (t.leafAt (folders ++ [name])).isSome then (.ok (), removeFile t (folders ++ [name]))
      else (.error .notFound, t) := by
  rw [delete, read_of_isFree h]
  cases t.leafAt (folders ++ [name]) with
  | none => rfl
  | some bytes => rfl

end Folder

end FeatureFlags
