import FeatureFlags.Proofs.Files.Free
import FeatureFlags.Proofs.Text.Segments
import FeatureFlags.Proofs.Tree.Filed
import FeatureFlags.Store.Directory

/-!
# The walk of a listing

A listing walks through the directories and leaves out those in which no key can begin with the text
asked for. It finds all the same every file whose key does, because the key of a file begins with
the key of its directory: whoever walks through all directories and selects the keys afterwards
finds the same. What is found is put into order at the end, and so it does not matter in which order
the members of a directory are read.

* `mayHold_iff`, `collect_eq_filter_reaches` — which directories the walk enters, and what it finds.
* `enters_of_startsWith` — it enters those of every file whose key begins with the text asked for.
* `collect_eq_filter` — so no file is missed by leaving directories out.
* `pairwise_inOrder`, `inOrder_eq` — the keys of a listing increase, and in one order only.
* `list_eq_inOrder_shownFiles` — a listing is a selection of what is found everywhere.
-/

namespace FeatureFlags.DirectoryStore

variable {start key : String} {t : Folder} {path : List String}

/-- Whether what is at a path appears in listings: none of the names on it is hidden. -/
def IsShown (path : List String) : Prop :=
  ∀ name ∈ path, isHidden name = false

instance (path : List String) : Decidable (IsShown path) :=
  inferInstanceAs (Decidable (∀ name ∈ path, _))

theorem isShown_cons {name : String} :
    IsShown (name :: path) ↔ isHidden name = false ∧ IsShown path :=
  List.forall_mem_cons

/-! ## Keys of files -/

/-- The key of a file, from the key of a directory and the path that leads on from there. -/
def keyAt (key : String) (path : List String) : String :=
  path.foldl childKey key

theorem childKey_of_ne (hKey : key ≠ "") (name : String) :
    childKey key name = key ++ "/" ++ name := by
  rw [childKey, if_neg hKey, Path.join_pair]

theorem childKey_ne {name : String} (hName : name ≠ "") : childKey key name ≠ "" := by
  by_cases hKey : key = ""
  · rwa [childKey, if_pos hKey]
  · rw [childKey_of_ne hKey]
    simp

/-- Below a directory the segments of a key go on. -/
theorem keyAt_of_ne (hKey : key ≠ "") {path : List String} (hPath : path ≠ []) :
    keyAt key path = key ++ "/" ++ Path.join path := by
  induction path generalizing key with
  | nil => exact absurd rfl hPath
  | cons name path ih =>
    rw [keyAt, List.foldl_cons, childKey_of_ne hKey]
    by_cases hRest : path = []
    · rw [hRest, List.foldl_nil, Path.join_singleton]
    · have hBelow : key ++ "/" ++ name ≠ "" := by simp
      rw [← keyAt, ih hBelow hRest, Path.join_cons name hRest]
      simp only [String.append_assoc]

/-- The key of a file is made of the names on its path. -/
theorem keyAt_eq_join (h : ∀ name ∈ path, name ≠ "") : keyAt "" path = Path.join path := by
  cases path with
  | nil => rfl
  | cons name path =>
    have hFirst : keyAt "" (name :: path) = keyAt name path := rfl
    rw [hFirst]
    by_cases hPath : path = []
    · rw [hPath, Path.join_singleton]
      rfl
    · rw [keyAt_of_ne (h name List.mem_cons_self) hPath, Path.join_cons name hPath]

/-- The entry of a file. -/
def entryAt (key : String) (file : List String × Bytes) : Store.Entry :=
  ⟨keyAt key file.1, file.2⟩

/-! ## Directories that are entered -/

/-- Whether a listing goes all the way down a path of directories: none of them is hidden, and below
each of them keys may begin with the text asked for. -/
def enters (start key : String) : List String → Bool
  | [] => true
  | name :: dir =>
    !isHidden name && mayHold start (childKey key name) && enters start (childKey key name) dir

/-- To come to a directory a listing enters those on the way. -/
theorem enters_of_isPrefix {dir dir' : List String} (h : dir <+: dir')
    (hEnters : enters start key dir' = true) : enters start key dir = true := by
  induction dir generalizing key dir' with
  | nil => rfl
  | cons name dir ih =>
    obtain ⟨rest, rfl⟩ := h
    rw [List.cons_append, enters, Bool.and_eq_true] at hEnters
    rw [enters, hEnters.1, Bool.true_and]
    exact ih (List.prefix_append dir rest) hEnters.2

/-- Whether a listing comes to the file at a path: it enters the directories on the way, and the
file is not hidden either. -/
def reaches (start key : String) (path : List String) : Bool :=
  IsShown path && enters start key path.dropLast

theorem reaches_singleton (start key name : String) :
    reaches start key [name] = !isHidden name := by
  have hOne : IsShown [name] ↔ isHidden name = false := List.forall_mem_singleton
  cases hHidden : isHidden name <;> simp [reaches, hOne, hHidden, enters]

theorem reaches_cons (start key name : String) (hPath : path ≠ []) :
    reaches start key (name :: path) = (!isHidden name && mayHold start (childKey key name) &&
      reaches start (childKey key name) path) := by
  rw [reaches, reaches, List.dropLast_cons_of_ne_nil hPath, enters]
  cases hHidden : isHidden name with
  | true => simp
  | false => simp [isShown_cons, hHidden, Bool.and_left_comm]

/-- A listing takes the files that it comes to and whose keys begin with the text asked for. -/
theorem collect_eq_filter_reaches (start key : String) (t : Folder) :
    collect start key t = ((t.filed.filter fun file => reaches start key file.1).map
      (entryAt key)).filter fun e => Path.startsWith e.key start := by
  -- by induction on the members, for every key, since it grows on the way down
  induction t generalizing key with
  | empty => rfl
  | leaf n bytes rest ih =>
    have hEntry : entryAt key ([n], bytes) = ⟨childKey key n, bytes⟩ := rfl
    rw [collect, Tree.filed, List.filter_cons, reaches_singleton, ih]
    by_cases hHidden : isHidden n = true
    · simp [hHidden]
    · by_cases hStarts : Path.startsWith (childKey key n) start = true <;>
        simp [hHidden, hEntry, hStarts]
  | branch n inner rest ihInner ih =>
    -- below the directory its name is put in front of every path
    have hBelow : (inner.filed.map fun e => (n :: e.1, e.2)).filter
        (fun file => reaches start key file.1) = (inner.filed.filter fun file => !isHidden n &&
          mayHold start (childKey key n) && reaches start (childKey key n) file.1).map
            fun e => (n :: e.1, e.2) := by
      rw [List.filter_map]
      congr 1
      refine List.filter_congr fun file hFile => ?_
      obtain ⟨name, below, hPath, -⟩ := Tree.exists_cons_of_mem_filed hFile
      exact reaches_cons start key n (by simp [hPath])
    have hEntry : (entryAt key ∘ fun e : List String × Bytes => (n :: e.1, e.2)) =
        entryAt (childKey key n) := rfl
    rw [collect, Tree.filed, List.filter_append, List.map_append, List.filter_append, ih, ihInner,
      hBelow, List.map_map, hEntry]
    congr 1
    cases !isHidden n && mayHold start (childKey key n) <;> simp

/-! ## Directories that are left out -/

/-- A directory is entered just where a text that goes on from its key can begin with the text asked
for, be it shorter than the key or longer. -/
theorem mayHold_iff :
    mayHold start key = true ↔ ∃ rest, Path.startsWith (key ++ "/" ++ rest) start = true := by
  have hBelow : Path.join [key, ""] = key ++ "/" := by
    rw [Path.join_pair, String.append_empty]
  rw [mayHold, hBelow, Bool.or_eq_true]
  constructor
  · rintro (hShort | hLong)
    · exact ⟨"", by rwa [String.append_empty]⟩
    · obtain ⟨rest, rfl⟩ := Path.startsWith_iff.1 hLong
      exact ⟨rest, Path.startsWith_iff.2 ⟨"", by rw [String.append_empty]⟩⟩
  · rintro ⟨rest, hStarts⟩
    rw [Path.startsWith, List.isPrefixOf_iff_prefix] at hStarts
    have hAlso : (key ++ "/").toList <+: (key ++ "/" ++ rest).toList := by
      rw [String.toList_append (s := key ++ "/")]
      exact List.prefix_append _ _
    simp only [Path.startsWith, List.isPrefixOf_iff_prefix]
    -- two beginnings of one text: one of them begins with the other
    exact List.prefix_or_prefix_of_prefix hStarts hAlso

/-- A directory is entered if the key of a file below it begins with the text asked for. -/
theorem mayHold_of_startsWith (hKey : key ≠ "") (hPath : path ≠ [])
    (h : Path.startsWith (keyAt key path) start = true) : mayHold start key = true := by
  rw [keyAt_of_ne hKey hPath] at h
  exact mayHold_iff.2 ⟨Path.join path, h⟩

/-- A listing enters the directories of every file that is shown and whose key begins with the text
asked for. -/
theorem enters_of_startsWith (hNames : ∀ name ∈ path, name ≠ "") (hShown : IsShown path)
    (h : Path.startsWith (keyAt key path) start = true) :
    enters start key path.dropLast = true := by
  induction path generalizing key with
  | nil => rfl
  | cons name path ih =>
    by_cases hPath : path = []
    · rw [hPath]
      rfl
    · obtain ⟨hHidden, hBelow⟩ := isShown_cons.1 hShown
      have hHold : mayHold start (childKey key name) = true :=
        mayHold_of_startsWith (childKey_ne (hNames name List.mem_cons_self)) hPath h
      have hRest := ih (fun n hn => hNames n (List.mem_cons_of_mem _ hn)) hBelow h
      rw [List.dropLast_cons_of_ne_nil hPath, enters, hHidden, hHold, hRest]
      rfl

/-- No file that is not hidden is missed by leaving directories out. -/
theorem collect_eq_filter (h : ∀ file ∈ t.filed, ∀ name ∈ file.1, name ≠ "") (key : String) :
    collect start key t = ((t.filed.filter fun file => IsShown file.1).map (entryAt key)).filter
      fun e => Path.startsWith e.key start := by
  rw [collect_eq_filter_reaches, List.filter_map, List.filter_map, List.filter_filter,
    List.filter_filter]
  congr 1
  refine List.filter_congr fun file hFile => ?_
  rw [Bool.eq_iff_iff]
  simp only [Function.comp_apply, reaches, Bool.and_eq_true, decide_eq_true_eq]
  -- to ask for the directories too takes no file away whose key begins with the text
  refine and_congr_right fun hStarts => and_iff_left_of_imp fun hShown => ?_
  exact enters_of_startsWith (h file hFile) hShown hStarts

/-! ## All files -/

/-- The files of a directory and of those inside it, with their paths. Hidden files are left out and
hidden directories are not entered; all others are. -/
def shownFiles : Folder → List (List String × Bytes)
  | .empty => []
  | .leaf name bytes rest =>
    (if isHidden name then [] else [([name], bytes)]) ++ shownFiles rest
  | .branch name inner rest =>
    (if isHidden name then [] else (shownFiles inner).map fun file => (name :: file.1, file.2)) ++
      shownFiles rest

/-- The files below a name that is shown are shown as they are without it. -/
theorem filter_isShown_map_cons (name : String) (files : List (List String × Bytes)) :
    (files.map fun e => (name :: e.1, e.2)).filter (fun file => IsShown file.1) =
      if isHidden name then []
      else (files.filter fun file => IsShown file.1).map fun e => (name :: e.1, e.2) := by
  rw [List.filter_map]
  cases hHidden : isHidden name with
  | true =>
    rw [if_pos rfl, List.filter_eq_nil_iff.2, List.map_nil]
    simp [isShown_cons, hHidden]
  | false => simp [Function.comp_def, isShown_cons, hHidden]

theorem shownFiles_eq_filter (t : Folder) :
    shownFiles t = t.filed.filter fun file => IsShown file.1 := by
  induction t with
  | empty => rfl
  | leaf n bytes rest ih =>
    have hOne : IsShown [n] ↔ isHidden n = false := List.forall_mem_singleton
    rw [shownFiles, Tree.filed, ih, List.filter_cons]
    cases hHidden : isHidden n <;> simp [hOne, hHidden]
  | branch n inner rest ihInner ih =>
    rw [shownFiles, Tree.filed, List.filter_append, filter_isShown_map_cons, ihInner, ih]

theorem mem_shownFiles_iff {file : List String × Bytes} :
    file ∈ shownFiles t ↔ file ∈ t.filed ∧ IsShown file.1 := by
  rw [shownFiles_eq_filter, List.mem_filter, decide_eq_true_iff]

/-- The entry of a file. Its key has the names on its path, with slashes between them. -/
def entryOf (file : List String × Bytes) : Store.Entry :=
  ⟨Path.join file.1, file.2⟩

/-- Whether a tree can be what is read from directories, in any order: no two members of a directory
have one name, and names are neither empty nor is there a slash in them. -/
structure IsDirectory (t : Folder) : Prop where
  distinct : t.Distinct
  names : ∀ file ∈ t.filed, ∀ name ∈ file.1, name ≠ "" ∧ '/' ∉ name.toList

namespace IsDirectory

/-- The path of a file is found again in its key. -/
theorem segments_join (h : IsDirectory t) {file : List String × Bytes} (hFile : file ∈ t.filed) :
    Path.segments (Path.join file.1) = file.1 := by
  obtain ⟨name, below, hPath, -⟩ := Tree.exists_cons_of_mem_filed hFile
  exact Path.segments_join (by simp [hPath]) fun name hName => (h.names file hFile name hName).2

/-- A listing selects from the files of all directories. -/
theorem collect_eq (h : IsDirectory t) (start : String) :
    collect start "" t =
      ((shownFiles t).map entryOf).filter fun e => Path.startsWith e.key start := by
  have hNames : ∀ file ∈ t.filed, ∀ name ∈ file.1, name ≠ "" :=
    fun file hFile name hName => (h.names file hFile name hName).1
  rw [collect_eq_filter hNames, shownFiles_eq_filter]
  congr 1
  refine List.map_congr_left fun file hFile => ?_
  rw [entryAt, entryOf, keyAt_eq_join (hNames file (List.mem_of_mem_filter hFile))]

/-- A listing finds the files that are shown and whose keys begin with the text asked for. -/
theorem mem_collect_iff (h : IsDirectory t) {e : Store.Entry} :
    e ∈ collect start "" t ↔ t.leafAt (Path.segments e.key) = some e.bytes ∧
      IsShown (Path.segments e.key) ∧ Path.startsWith e.key start = true := by
  rw [h.collect_eq, List.mem_filter, List.mem_map, ← and_assoc]
  refine and_congr_left fun _ => ?_
  -- the path of a file and the segments of its key are the same
  constructor
  · rintro ⟨file, hFile, rfl⟩
    obtain ⟨hFile, hShown⟩ := mem_shownFiles_iff.1 hFile
    rw [entryOf, h.segments_join hFile]
    exact ⟨(Tree.mem_filed_iff h.distinct).1 hFile, hShown⟩
  · rintro ⟨hLeaf, hShown⟩
    refine ⟨(Path.segments e.key, e.bytes), ?_, ?_⟩
    · exact mem_shownFiles_iff.2 ⟨(Tree.mem_filed_iff h.distinct).2 hLeaf, hShown⟩
    · rw [entryOf, Path.join_segments]

/-- No two files have one key. -/
theorem nodup_keys (h : IsDirectory t) :
    ((shownFiles t).map fun file => (entryOf file).key).Nodup := by
  have hPaths : ((shownFiles t).map (·.1)).Nodup := by
    rw [shownFiles_eq_filter]
    exact (Tree.nodup_paths h.distinct).sublist (List.filter_sublist.map _)
  -- the paths are different, and each is found again in its key
  have hKeys : (((shownFiles t).map (·.1)).map Path.join).Nodup := by
    refine hPaths.map_on fun path hPath path' hPath' hSame => ?_
    obtain ⟨file, hFile, rfl⟩ := List.mem_map.1 hPath
    obtain ⟨file', hFile', rfl⟩ := List.mem_map.1 hPath'
    rw [← h.segments_join (mem_shownFiles_iff.1 hFile).1, hSame,
      h.segments_join (mem_shownFiles_iff.1 hFile').1]
  rwa [List.map_map] at hKeys

/-- A listing finds no key twice. -/
theorem nodup_keys_collect (h : IsDirectory t) : ((collect start "" t).map (·.key)).Nodup := by
  rw [h.collect_eq]
  refine List.Nodup.sublist (List.filter_sublist.map _) ?_
  rw [List.map_map]
  exact h.nodup_keys

end IsDirectory

/-! ## Order -/

section

variable {entries listed : List Store.Entry}

@[simp]
theorem mem_inOrder {e : Store.Entry} : e ∈ inOrder entries ↔ e ∈ entries :=
  List.mem_mergeSort

theorem pairwise_inOrder_le (entries : List Store.Entry) :
    (inOrder entries).Pairwise fun e e' => e.key ≤ e'.key := by
  have hSorted : (inOrder entries).Pairwise fun a b => (!decide (b.key < a.key)) = true := by
    apply List.pairwise_mergeSort
    · intro a b c hab hbc
      simp only [Bool.not_eq_true', decide_eq_false_iff_not, String.not_lt] at hab hbc ⊢
      exact String.le_trans hab hbc
    · intro a b
      simp only [Bool.or_eq_true, Bool.not_eq_true', decide_eq_false_iff_not, String.not_lt]
      exact String.le_total a.key b.key
  refine hSorted.imp fun hLe => ?_
  rwa [Bool.not_eq_true', decide_eq_false_iff_not, String.not_lt] at hLe

/-- Where no key is there twice the keys of a listing increase. -/
theorem pairwise_inOrder (hKeys : (entries.map (·.key)).Nodup) :
    (inOrder entries).Pairwise fun e e' => e.key < e'.key := by
  have hNodup : ((inOrder entries).map (·.key)).Nodup :=
    ((List.mergeSort_perm _ _).map _).nodup_iff.2 hKeys
  refine ((pairwise_inOrder_le entries).and (List.pairwise_map.1 hNodup)).imp ?_
  rintro e e' ⟨hLe, hNe⟩
  exact Std.lt_of_le_of_ne hLe hNe

/-- There is only one order of entries in which their keys increase. -/
theorem inOrder_eq (hNodup : entries.Nodup) (hListed : listed.Pairwise fun e e' => e.key < e'.key)
    (hMem : ∀ e, e ∈ entries ↔ e ∈ listed) : inOrder entries = listed := by
  have hKeys : (listed.map (·.key)).Nodup :=
    List.pairwise_map.2 (hListed.imp fun hLt => Std.ne_of_lt hLt)
  have hPerm : (inOrder entries).Perm listed :=
    (List.mergeSort_perm _ _).trans ((List.perm_ext_iff_of_nodup hNodup hKeys.of_map).2 hMem)
  refine hPerm.eq_of_pairwise ?_ (pairwise_inOrder_le entries) (hListed.imp Std.le_of_lt)
  -- entries with one key are one entry
  intro a b ha hb hab hba
  exact List.inj_on_of_nodup_map hKeys (hPerm.mem_iff.1 ha) hb (String.le_antisymm hab hba)

end

/-! ## Listings -/

/-- Whether the files of a store are those of a tree: it is what is in the store's directory, or
there is no directory yet and no file. -/
def Holds (d : DirectoryStore) (t : Folder) : Prop :=
  d.folder.walk d.base = .ok (.branch t) ∨ d.folder.walk d.base = .error .notFound ∧ t = .empty

theorem Holds.list_eq {d : DirectoryStore} (h : d.Holds t) (start : String) :
    d.list start = .ok (inOrder (collect start "" t)) := by
  unfold list
  rcases h with hThere | ⟨hMissing, rfl⟩
  · rw [hThere]
  · rw [hMissing]
    simp [collect, inOrder]

namespace IsDirectory

/-- In which order the files are found makes no difference to a listing. -/
theorem inOrder_collect (h : IsDirectory t) {files : List (List String × Bytes)}
    (hFiles : files.Perm (shownFiles t)) : inOrder (collect start "" t) =
      inOrder ((files.map entryOf).filter fun e => Path.startsWith e.key start) := by
  have hKeys : ((collect start "" t).map (·.key)).Nodup := h.nodup_keys_collect
  have hPerm : ((files.map entryOf).filter fun e => Path.startsWith e.key start).Perm
      (collect start "" t) := by
    rw [h.collect_eq]
    exact (hFiles.map _).filter _
  refine (inOrder_eq (hPerm.nodup_iff.2 hKeys.of_map) (pairwise_inOrder hKeys) fun e => ?_).symm
  rw [mem_inOrder, hPerm.mem_iff]

/-- Below a directory that a listing does not enter there is nothing that it should show. -/
theorem startsWith_eq_false (h : IsDirectory t) {dir : List String}
    (hLeft : enters start "" dir = false) {file : List String × Bytes} (hFile : file ∈ shownFiles t)
    (hBelow : dir <+: file.1) (hNe : dir ≠ file.1) :
    Path.startsWith (entryOf file).key start = false := by
  rw [Bool.eq_false_iff]
  intro hStarts
  obtain ⟨hFiled, hShown⟩ := mem_shownFiles_iff.1 hFile
  have hNames : ∀ name ∈ file.1, name ≠ "" :=
    fun name hName => (h.names file hFiled name hName).1
  rw [entryOf, ← keyAt_eq_join hNames] at hStarts
  -- all directories on the way to such a file are entered, and this is one of them
  have hEnters := enters_of_startsWith hNames hShown hStarts
  have hOnWay : dir <+: file.1.dropLast := by
    obtain ⟨rest, hRest⟩ := hBelow
    rw [← hRest, List.dropLast_append_of_ne_nil]
    · exact List.prefix_append dir rest.dropLast
    · rintro rfl
      exact hNe (by rw [← hRest, List.append_nil])
  rw [enters_of_isPrefix hOnWay hEnters] at hLeft
  cases hLeft

end IsDirectory

/-- A listing shows what is found by a walk through all directories that are not hidden, which takes
all files that are not hidden, keeps those whose keys begin with a text and puts them into order. In
which order directories are read makes no difference, for the keys of a listing increase. Below a
directory that the listing does not enter there is nothing that it should show. -/
theorem list_eq_inOrder_shownFiles {d : DirectoryStore} (hHolds : d.Holds t)
    (hDirectory : IsDirectory t) (start : String) :
    ∃ listed, Store.list d start = .ok listed ∧
      (∀ files : List (List String × Bytes), files.Perm (shownFiles t) → listed =
        inOrder ((files.map entryOf).filter fun e => Path.startsWith e.key start)) ∧
      listed.Pairwise (fun e e' => e.key < e'.key) ∧
      ∀ dir, enters start "" dir = false → ∀ file ∈ shownFiles t, dir <+: file.1 → dir ≠ file.1 →
        Path.startsWith (entryOf file).key start = false :=
  ⟨inOrder (collect start "" t), hHolds.list_eq start,
    fun _ hFiles => hDirectory.inOrder_collect hFiles,
    pairwise_inOrder hDirectory.nodup_keys_collect,
    fun _ hLeft _ hFile hBelow hNe => hDirectory.startsWith_eq_false hLeft hFile hBelow hNe⟩

/-- A directory whose members are read in no order, with a file that is being written and a hidden
directory in it. -/
def scatteredFiles : Folder :=
  .branch "b" (.leaf "y" [50] .empty) <|
  .branch "ab" (.leaf "z" [49] (.leaf ".tmp" [0] .empty)) <|
  .branch ".ab" (.leaf "x" [51] .empty) <|
  .leaf "a" [52] .empty

/-- The store that has these files. -/
def scattered : DirectoryStore :=
  ⟨["kv"], .branch "kv" scatteredFiles .empty⟩

theorem list_scattered :
    scattered.Holds scatteredFiles ∧ IsDirectory scatteredFiles ∧
      [(["a"], [52]), (["ab", "z"], [49]), (["b", "y"], [50])].Perm (shownFiles scatteredFiles) ∧
      Store.list scattered "a" = .ok [⟨"a", [52]⟩, ⟨"ab/z", [49]⟩] ∧
      enters "a" "" ["b"] = false ∧ Path.startsWith "b/y" "a" = false := by
  have hHolds : scattered.Holds scatteredFiles := .inl rfl
  have hDirectory : IsDirectory scatteredFiles :=
    ⟨by simp [scatteredFiles, Tree.Distinct, Tree.names, Tree.toList], by decide +kernel⟩
  have hFiles : [(["a"], [52]), (["ab", "z"], [49]), (["b", "y"], [50])].Perm
      (shownFiles scatteredFiles) := by
    decide +kernel
  have hLeft : enters "a" "" ["b"] = false := by decide +kernel
  obtain ⟨listed, hList, hAll, -, hNone⟩ := list_eq_inOrder_shownFiles hHolds hDirectory "a"
  refine ⟨hHolds, hDirectory, hFiles, ?_, hLeft, ?_⟩
  · have hSelected : ([(["a"], [52]), (["ab", "z"], [49]), (["b", "y"], [50])].map entryOf).filter
        (fun e => Path.startsWith e.key "a") = [⟨"a", [52]⟩, ⟨"ab/z", [49]⟩] := by
      decide +kernel
    rw [hList, hAll _ hFiles, hSelected,
      inOrder_eq (by decide +kernel) (by decide +kernel) fun e => Iff.rfl]
  · exact hNone ["b"] hLeft (["b", "y"], [50]) (by decide +kernel) (by decide) (by decide)

end FeatureFlags.DirectoryStore
