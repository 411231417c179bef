import FeatureFlags.Proofs.Store.Directory
import FeatureFlags.Proofs.Store.Memory

/-!
# Stores that answer alike

A store in memory and a store in a directory cannot be told apart by what they answer, as long as
the keys can be paths of files that stand side by side: the file system takes the names, none is
hidden, and no key leads past another one, since a file and a directory cannot have one name.

The directory mirrors the entries: at the path of every key that is used there is a file with its
bytes, or none, and everything else that is there lies on the way to such a key. Each call keeps it
so and gives the same answer on both sides.

* `Mirrors.insert`, `Mirrors.remove` — what a change does on both sides.
* `Mirrors.inOrder_collect` — both sides list the same entries in the same order.
* `Agree.perform` — one call.
* `answers_eq_memory` — any calls, beginning with nothing on both sides.
-/

namespace FeatureFlags

namespace Store

/-! ## Calls -/

/-- What can be asked of a store. -/
inductive Call where
  | get (key : String)
  | set (key : String) (bytes : Bytes)
  | delete (key : String)
  | list (start : String)

/-- What a store answers. -/
inductive Answer where
  | found (outcome : Except Error (Option Bytes))
  | done (outcome : Except Error Unit)
  | listed (outcome : Except Error (List Entry))

variable {σ : Type} [Store σ]

/-- The key that a call is about. Listings are about none. -/
def Call.key? : Call → Option String
  | get key => some key
  | set key _ => some key
  | delete key => some key
  | list _ => none

/-- The answer to a call, and the store afterwards. -/
def Call.perform (s : σ) : Call → Answer × σ
  | get key => (.found (Store.get? s key), s)
  | set key bytes =>
    let (outcome, s) := Store.set s key bytes
    (.done outcome, s)
  | delete key =>
    let (outcome, s) := Store.delete s key
    (.done outcome, s)
  | list start => (.listed (Store.list s start), s)

/-- The answers to calls that are made one after the other. -/
def answers (s : σ) : List Call → List Answer
  | [] => []
  | call :: calls => (call.perform s).1 :: answers (call.perform s).2 calls

/-- The keys that calls are about. -/
def keysOf (calls : List Call) : List String :=
  calls.filterMap Call.key?

end Store

namespace DirectoryStore

open Store (Call answers keysOf)

/-! ## Keys that can be paths of files -/

/-- Whether a text is a key that a file can have and that listings show. -/
def IsPlain (key : String) : Prop :=
  Store.Key.isValid key = true ∧
    ∀ name ∈ Path.segments key, FileError.IsName name ∧ isHidden name = false

instance (key : String) : Decidable (IsPlain key) :=
  inferInstanceAs (Decidable (_ ∧ ∀ name ∈ Path.segments key, _))

/-- Whether keys can be the paths of files that stand side by side: none leads past another one. -/
structure AreFiles (used : List String) : Prop where
  isPlain : ∀ key ∈ used, IsPlain key
  apart : ∀ key ∈ used, ∀ key' ∈ used, Path.segments key <+: Path.segments key' → key = key'

theorem IsPlain.isShown {key : String} (h : IsPlain key) : IsShown (Path.segments key) :=
  fun name hName => (h.2 name hName).2

/-! ## Files and entries -/

/-- Whether a directory has the files of a store's entries, and otherwise nothing but directories on
the way to keys that are used. -/
structure Mirrors (used : List String) (t : Folder) (entries : SortedMap Bytes) : Prop where
  sorted : t.Sorted
  bytes : ∀ key ∈ used, t.leafAt (Path.segments key) = entries.get? key
  files : ∀ path b, t.leafAt path = some b → ∃ key ∈ used, Path.segments key = path
  folders : ∀ path, t.HasBranch path →
    ∃ key ∈ used, path <+: Path.segments key ∧ path ≠ Path.segments key
  entries : ∀ key b, entries.get? key = some b → key ∈ used

namespace Mirrors

variable {used : List String} {t : Folder} {m : SortedMap Bytes} {key : String}
  {folders : List String} {name : String}

theorem empty (used : List String) : Mirrors used .empty .empty where
  sorted := trivial
  bytes _ _ := Tree.leafAt_empty _
  files path b hLeaf := by simp at hLeaf
  folders path hBranch := by
    obtain ⟨inner, hLookup⟩ := hBranch
    simp at hLookup
  entries _ _ hGet := by cases hGet

/-- At the path of a key that is used a file can stand. -/
theorem isFree (h : Mirrors used t m) (hUsed : AreFiles used) (hKey : key ∈ used)
    (hSegments : Path.segments key = folders ++ [name]) : Folder.IsFree t folders name where
  isName n hn := by
    rw [← hSegments] at hn
    exact ((hUsed.isPlain key hKey).2 n hn).1
  isOpen := by
    intro p hp
    cases hLeaf : t.leafAt p with
    | none => rfl
    | some b =>
      -- a file on the way would be that of a key that leads past this one
      obtain ⟨key', hKey', hPath⟩ := h.files p b hLeaf
      have hPast : Path.segments key' <+: Path.segments key := by
        rw [hPath, hSegments]
        exact hp.trans (List.prefix_append _ _)
      rw [hUsed.apart key' hKey' key hKey hPast, hSegments] at hPath
      exact absurd hPath.symm (Tree.ne_append_of_isPrefix hp)
  noFolder := by
    -- a directory here would be on the way to a key to which this one leads
    intro hBranch
    rw [← hSegments] at hBranch
    obtain ⟨key', hKey', hPast, hNe⟩ := h.folders _ hBranch
    exact hNe (by rw [hUsed.apart key hKey key' hKey' hPast])

/-- A file is put where the entry is. -/
theorem insert (h : Mirrors used t m) (hUsed : AreFiles used) (hKey : key ∈ used)
    (hSegments : Path.segments key = folders ++ [name]) (b : Bytes) :
    Mirrors used (t.insertAt folders name b) (m.insert key b) where
  sorted := Tree.sorted_insertAt h.sorted folders name b
  bytes key' hKey' := by
    rw [SortedMap.get?_insert]
    by_cases hSame : key' = key
    · rw [if_pos hSame, hSame, hSegments, Tree.leafAt_insertAt_self]
    · -- neither key leads past the other, so their files are apart
      have hNe : Path.segments key' ≠ folders ++ [name] := by
        rw [← hSegments]
        exact fun hEq => hSame (Path.segments_injective hEq)
      have hApart : ¬ Tree.Meets (folders ++ [name]) (Path.segments key') := by
        rw [← hSegments]
        rintro (hPast | hPast)
        · exact hSame (hUsed.apart key hKey key' hKey' hPast).symm
        · exact hSame (hUsed.apart key' hKey' key hKey hPast)
      rw [if_neg hSame, (Tree.leafAt_insertAt_of_ne t folders name b hNe).2 hApart]
      exact h.bytes key' hKey'
  files path b' hLeaf := by
    by_cases hPath : path = folders ++ [name]
    · exact ⟨key, hKey, by rw [hPath, hSegments]⟩
    · obtain ⟨hMeets, hApart⟩ := Tree.leafAt_insertAt_of_ne t folders name b hPath
      by_cases hMeet : Tree.Meets (folders ++ [name]) path
      · rw [hMeets hMeet] at hLeaf
        cases hLeaf
      · rw [hApart hMeet] at hLeaf
        exact h.files path b' hLeaf
  folders path hBranch := by
    rcases Tree.hasBranch_insertAt_iff.1 hBranch with ⟨-, hOnWay⟩ | ⟨hBefore, -⟩
    · refine ⟨key, hKey, ?_⟩
      rw [hSegments]
      exact ⟨hOnWay.trans (List.prefix_append _ _), Tree.ne_append_of_isPrefix hOnWay⟩
    · exact h.folders path hBefore
  entries key' b' hGet := by
    rw [SortedMap.get?_insert] at hGet
    split at hGet
    · next hSame => rwa [hSame]
    · exact h.entries key' b' hGet

/-- A file is taken away with its entry. The directories on the way stay. -/
theorem remove (h : Mirrors used t m) {b : Bytes}
    (hLeaf : t.leafAt (Path.segments key) = some b) :
    Mirrors used (Folder.removeFile t (Path.segments key)) (m.erase key) where
  sorted := Folder.sorted_removeFile h.sorted _
  bytes key' hKey' := by
    rw [Folder.leafAt_removeFile hLeaf, SortedMap.get?_erase]
    by_cases hSame : key' = key
    · rw [if_pos hSame, hSame, if_pos rfl]
    · rw [if_neg hSame, if_neg fun hEq => hSame (Path.segments_injective hEq)]
      exact h.bytes key' hKey'
  files path b' hLeft := by
    rw [Folder.leafAt_removeFile hLeaf] at hLeft
    split at hLeft
    · cases hLeft
    · exact h.files path b' hLeft
  folders path hBranch := h.folders path ((Folder.hasBranch_removeFile hLeaf path).1 hBranch)
  entries key' b' hGet := by
    rw [SortedMap.get?_erase] at hGet
    split at hGet
    · cases hGet
    · exact h.entries key' b' hGet

theorem isDirectory (h : Mirrors used t m) (hUsed : AreFiles used) : IsDirectory t := by
  refine IsKeyed.isDirectory (fun path b hLeaf => ?_) h.sorted
  obtain ⟨key, hKey, rfl⟩ := h.files path b hLeaf
  exact ⟨key, (hUsed.isPlain key hKey).1, rfl⟩

/-- The files of a directory that mirrors entries are listed as the entries are. -/
theorem inOrder_collect {s : MemoryStore} (h : Mirrors used t s.entries) (hUsed : AreFiles used)
    (start : String) : inOrder (collect start "" t) = s.range start := by
  have hDirectory := h.isDirectory hUsed
  refine inOrder_eq hDirectory.nodup_keys_collect.of_map (s.pairwise_range start) fun e => ?_
  rw [hDirectory.mem_collect_iff, MemoryStore.mem_range_iff, ← and_assoc]
  refine and_congr_left fun _ => ?_
  -- a file belongs to a key that is used, and so does an entry
  constructor
  · rintro ⟨hLeaf, -⟩
    obtain ⟨key, hKey, hPath⟩ := h.files _ _ hLeaf
    rw [Path.segments_injective hPath] at hKey
    rw [← h.bytes e.key hKey, hLeaf]
  · intro hGet
    have hKey := h.entries _ _ hGet
    rw [h.bytes e.key hKey, hGet]
    exact ⟨rfl, (hUsed.isPlain _ hKey).isShown⟩

end Mirrors

/-! ## Calls to both stores -/

/-- Whether a store in a directory mirrors one in memory. -/
structure Agree (used : List String) (d : DirectoryStore) (s : MemoryStore) : Prop where
  isReady : d.IsReady
  mirrors : Mirrors used d.content s.entries

section

variable {used : List String} {d : DirectoryStore} {s : MemoryStore} {key : String}

theorem Agree.get? (h : Agree used d s) (hUsed : AreFiles used) (hKey : key ∈ used) :
    d.get? key = .ok (s.entries.get? key) := by
  obtain ⟨folders, name, hSegments⟩ := Path.exists_segments_eq key
  have hFree := h.mirrors.isFree hUsed hKey hSegments
  rw [get?_of_isFree h.isReady (hUsed.isPlain key hKey).1 hSegments hFree,
    h.mirrors.bytes key hKey]

theorem Agree.set (h : Agree used d s) (hUsed : AreFiles used) (hKey : key ∈ used)
    (bytes : Bytes) :
    (d.set key bytes).1 = (s.set key bytes).1 ∧
      Agree used (d.set key bytes).2 (s.set key bytes).2 := by
  obtain ⟨folders, name, hSegments⟩ := Path.exists_segments_eq key
  have hValid := (hUsed.isPlain key hKey).1
  have hFree := h.mirrors.isFree hUsed hKey hSegments
  obtain ⟨d', hSet, hReady, hContent⟩ := set_of_isFree h.isReady hValid hSegments hFree bytes
  rw [hSet, MemoryStore.set, if_pos hValid]
  refine ⟨rfl, hReady, ?_⟩
  rw [hContent]
  exact h.mirrors.insert hUsed hKey hSegments bytes

theorem Agree.delete (h : Agree used d s) (hUsed : AreFiles used) (hKey : key ∈ used) :
    (d.delete key).1 = .ok () ∧ Agree used (d.delete key).2 (s.delete key) := by
  obtain ⟨folders, name, hSegments⟩ := Path.exists_segments_eq key
  have hFree := h.mirrors.isFree hUsed hKey hSegments
  obtain ⟨d', hDelete, hReady, hContent⟩ :=
    delete_of_isFree h.isReady (hUsed.isPlain key hKey).1 hSegments hFree
  rw [hDelete]
  refine ⟨rfl, hReady, ?_⟩
  have hBytes := h.mirrors.bytes key hKey
  rw [hContent, MemoryStore.delete, SortedMap.contains, ← hBytes]
  cases hLeaf : d.content.leafAt (Path.segments key) with
  | none => exact h.mirrors
  | some b => exact h.mirrors.remove hLeaf

theorem Agree.list (h : Agree used d s) (hUsed : AreFiles used) (start : String) :
    d.list start = .ok (s.range start) := by
  rw [h.isReady.list_eq, h.mirrors.inOrder_collect hUsed]

/-- A call gets the same answer from both stores, and they agree afterwards. -/
theorem Agree.perform (h : Agree used d s) (hUsed : AreFiles used) (call : Call)
    (hCall : ∀ key, call.key? = some key → key ∈ used) :
    (call.perform d).1 = (call.perform s).1 ∧
      Agree used (call.perform d).2 (call.perform s).2 := by
  cases call with
  | get key =>
    have hGet := h.get? hUsed (hCall key rfl)
    exact ⟨congrArg Store.Answer.found hGet, h⟩
  | set key bytes =>
    obtain ⟨hOutcome, hAgree⟩ := h.set hUsed (hCall key rfl) bytes
    exact ⟨congrArg Store.Answer.done hOutcome, hAgree⟩
  | delete key =>
    obtain ⟨hOutcome, hAgree⟩ := h.delete hUsed (hCall key rfl)
    exact ⟨congrArg Store.Answer.done hOutcome, hAgree⟩
  | list start =>
    have hList := h.list hUsed start
    exact ⟨congrArg Store.Answer.listed hList, h⟩

/-- Stores that agree answer any calls alike. -/
theorem Agree.answers (h : Agree used d s) (hUsed : AreFiles used) (calls : List Call)
    (hCalls : ∀ key ∈ keysOf calls, key ∈ used) : answers d calls = answers s calls := by
  -- by induction on the calls, since each of them leaves the stores in agreement
  induction calls generalizing d s with
  | nil => rfl
  | cons call calls ih =>
    have hCall : ∀ key, call.key? = some key → key ∈ used := by
      intro key hKey
      exact hCalls key (List.mem_filterMap.2 ⟨call, List.mem_cons_self, hKey⟩)
    have hLater : ∀ key ∈ keysOf calls, key ∈ used := by
      intro key hKey
      obtain ⟨other, hOther, hIs⟩ := List.mem_filterMap.1 hKey
      exact hCalls key (List.mem_filterMap.2 ⟨other, List.mem_cons_of_mem _ hOther, hIs⟩)
    obtain ⟨hAnswer, hAgree⟩ := h.perform hUsed call hCall
    rw [Store.answers, Store.answers, hAnswer, ih hAgree hLater]

end

/-! ## Beginning with nothing -/

/-- Whether the directory of a store is empty, or not there and can be made. -/
structure IsFresh (d : DirectoryStore) : Prop where
  isName : ∀ n ∈ d.base, FileError.IsName n
  isEmpty : d.folder.walk d.base = .ok (.branch .empty) ∨ d.folder.walk d.base = .error .notFound

/-- A fresh directory is there or can be made, and nothing is in it. -/
theorem IsFresh.isReady {d : DirectoryStore} (h : d.IsFresh) : d.IsReady ∧ d.content = .empty := by
  obtain ⟨hOpen, hInside⟩ :=
    Folder.isOpen_of_walk (h.isEmpty.imp id fun hMissing => ⟨hMissing, rfl⟩)
  exact ⟨⟨h.isName, hOpen⟩, hInside⟩

theorem IsFresh.agree {d : DirectoryStore} (h : d.IsFresh) (used : List String) :
    Agree used d .empty := by
  obtain ⟨hReady, hEmpty⟩ := h.isReady
  refine ⟨hReady, ?_⟩
  rw [hEmpty]
  exact Mirrors.empty used

/-- A store in a fresh directory and an empty store in memory give the same answers to any calls
whose keys can be the paths of files side by side. -/
theorem answers_eq_memory (d : DirectoryStore) (hFresh : d.IsFresh) (calls : List Call)
    (hKeys : AreFiles (keysOf calls)) : answers d calls = answers MemoryStore.empty calls :=
  (hFresh.agree (keysOf calls)).answers hKeys calls fun _ hKey => hKey

/-- A store whose directory has not been made yet. -/
def unmade : DirectoryStore :=
  ⟨["var", "kv"], .branch "var" .empty .empty⟩

/-- Calls about two keys whose files stand in the other order, as a hyphen comes before a slash. -/
def hyphenCalls : List Call :=
  [.set "a/x" [49], .set "a-b/x" [50], .list "a", .delete "a/x", .get "a/x", .list ""]

theorem answers_eq_memory_hyphenCalls :
    unmade.IsFresh ∧ AreFiles (keysOf hyphenCalls) ∧
      answers unmade hyphenCalls =
        [.done (.ok ()), .done (.ok ()), .listed (.ok [⟨"a-b/x", [50]⟩, ⟨"a/x", [49]⟩]),
          .done (.ok ()), .found (.ok none), .listed (.ok [⟨"a-b/x", [50]⟩])] := by
  have hFresh : unmade.IsFresh := ⟨by decide, .inr rfl⟩
  have hKeys : AreFiles (keysOf hyphenCalls) := ⟨by decide +kernel, by decide +kernel⟩
  refine ⟨hFresh, hKeys, ?_⟩
  rw [answers_eq_memory unmade hFresh hyphenCalls hKeys]
  rfl

end DirectoryStore

end FeatureFlags
