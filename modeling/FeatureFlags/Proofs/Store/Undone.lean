import FeatureFlags.Proofs.Files.Atomic
import FeatureFlags.Proofs.Files.Spare
import FeatureFlags.Proofs.Store.Listing

/-!
# What an undone change leaves behind

A key that is set in a store in a directory and deleted again cannot be found any more, and one that
could not be set never was. The directories on the way to it stay all the same. Listings do not show
them, and no other key is affected, whether its file stands beside them or in one of them; but a
directory stays in the place of every key that the undone one goes on from. As long as no call is
about such a key, or about one with a name too long for a file behind it, the store answers as if
nothing had happened, and the first such call is answered differently.

* `undone` — a store after a key has been set and deleted again, or could not be set.
* `Leftover` — one store has what the other has, and some directories more.
* `Leftover.perform_of_not_notices`, `Leftover.perform_of_notices` — one call.
* `Leftover.answers_eq_iff` — any calls.
* `answers_undone_iff` — which calls tell that a change has been undone.
-/

namespace FeatureFlags.DirectoryStore

open Store (Call Answer answers)

variable {d d' : DirectoryStore} {made folders : List String} {key name : String} {bytes : Bytes}

/-- A store after a key has been set and, if it could be, deleted again. -/
def undone (d : DirectoryStore) (key : String) (bytes : Bytes) : DirectoryStore :=
  match d.set key bytes with
  | (.ok (), d) => (d.delete key).2
  | (.error _, d) => d

/-- Whether one store has what another one has, and besides only the directories on a path. -/
structure Leftover (made : List String) (d d' : DirectoryStore) : Prop where
  base_eq : d'.base = d.base
  hasSpare : Folder.HasSpare made d.folder d'.folder

/-- Whether the answer to a call depends on the spare directories: it reads or deletes a file and
the path of its key stops at one, or it writes a file in the place of one. -/
def Notices (made : List String) (d : DirectoryStore) : Call → Prop
  | .get key | .delete key => Store.Key.isValid key = true ∧
      Folder.Stops made d.folder (d.base ++ Path.segments key)
  | .set key _ => Store.Key.isValid key = true ∧
      Folder.IsSpare made d.folder (d.base ++ Path.segments key)
  | .list _ => False

namespace Leftover

/-! ## Calls that are answered alike -/

theorem get?_of_not_notices (h : Leftover made d d') (hNot : ¬ Notices made d (.get key)) :
    d'.get? key = d.get? key := by
  by_cases hValid : Store.Key.isValid key = true
  · have hRead := h.hasSpare.read_of_not_stops fun hStops => hNot ⟨hValid, hStops⟩
    rw [get?, get?, pathOf_of_isValid hValid, pathOf_of_isValid hValid, h.base_eq]
    simp only [hRead]
  · rw [get?, get?, pathOf_of_not_isValid hValid, pathOf_of_not_isValid hValid]

theorem set_of_not_notices (h : Leftover made d d') (hNot : ¬ Notices made d (.set key bytes)) :
    (d'.set key bytes).1 = (d.set key bytes).1 ∧
      Leftover made (d.set key bytes).2 (d'.set key bytes).2 := by
  by_cases hValid : Store.Key.isValid key = true
  · obtain ⟨folders, name, hSegments⟩ := Path.exists_segments_eq key
    have hNotSpare : ¬ Folder.IsSpare made d.folder ((d.base ++ folders) ++ [name]) := by
      rw [List.append_assoc, ← hSegments]
      exact fun hSpare => hNot ⟨hValid, hSpare⟩
    obtain ⟨hOutcome, hSpare⟩ := h.hasSpare.write_of_not_isSpare hNotSpare bytes
    rw [set, set, pathOf_eq hValid hSegments, pathOf_eq hValid hSegments, h.base_eq]
    exact ⟨congrArg (Except.mapError Store.Error.file) hOutcome, rfl, hSpare⟩
  · rw [set, set, pathOf_of_not_isValid hValid, pathOf_of_not_isValid hValid]
    exact ⟨rfl, h⟩

theorem delete_of_not_notices (h : Leftover made d d') (hNot : ¬ Notices made d (.delete key)) :
    (d'.delete key).1 = (d.delete key).1 ∧ Leftover made (d.delete key).2 (d'.delete key).2 := by
  by_cases hValid : Store.Key.isValid key = true
  · have hRead := h.hasSpare.read_of_not_stops fun hStops => hNot ⟨hValid, hStops⟩
    rw [delete, delete, pathOf_of_isValid hValid, pathOf_of_isValid hValid, h.base_eq]
    simp only [Folder.delete, hRead]
    cases hFound : d.folder.read (d.base ++ Path.segments key) with
    | error e => cases e <;> exact ⟨rfl, h⟩
    | ok bytes => exact ⟨rfl, rfl, h.hasSpare.removeFile (Folder.read_eq_ok_iff.1 hFound).2⟩
  · rw [delete, delete, pathOf_of_not_isValid hValid, pathOf_of_not_isValid hValid]
    exact ⟨rfl, h⟩

/-- Listings show files, which are the same in both stores. -/
theorem list_eq (h : Leftover made d d') (hSound : d.IsSound) (hSound' : d'.IsSound)
    (start : String) : d'.list start = d.list start := by
  have hDirectory := hSound.isFiled.isDirectory
  have hDirectory' := hSound'.isFiled.isDirectory
  have hLeaf (key : String) :
      d'.content.leafAt (Path.segments key) = d.content.leafAt (Path.segments key) := by
    have hNe := Path.segments_ne_nil key
    rw [content, content, ← Tree.leafAt_append _ _ hNe, ← Tree.leafAt_append _ _ hNe, h.base_eq,
      h.hasSpare.leafAt_eq]
  rw [hSound.isReady.list_eq, hSound'.isReady.list_eq]
  congr 1
  refine inOrder_eq hDirectory'.nodup_keys_collect.of_map
    (pairwise_inOrder hDirectory.nodup_keys_collect) fun e => ?_
  rw [mem_inOrder, hDirectory'.mem_collect_iff, hDirectory.mem_collect_iff, hLeaf]

/-- A call that does not notice the spare directories is answered alike, and leaves the stores as
much alike as they were. -/
theorem perform_of_not_notices (h : Leftover made d d') (hSound : d.IsSound)
    (hSound' : d'.IsSound) {call : Call} (hNot : ¬ Notices made d call) :
    (call.perform d').1 = (call.perform d).1 ∧
      Leftover made (call.perform d).2 (call.perform d').2 := by
  cases call with
  | get key => exact ⟨congrArg Answer.found (h.get?_of_not_notices hNot), h⟩
  | set key bytes => exact (h.set_of_not_notices hNot).imp_left (congrArg Answer.done)
  | delete key => exact (h.delete_of_not_notices hNot).imp_left (congrArg Answer.done)
  | list start => exact ⟨congrArg Answer.listed (h.list_eq hSound hSound' start), h⟩

/-! ## Calls that are not -/

section

variable (h : Leftover made d d') (hValid : Store.Key.isValid key = true)

include h hValid

/-- Where a path stops at a spare directory nothing is found, or there is an error. -/
theorem get?_of_stops (hStops : Folder.Stops made d.folder (d.base ++ Path.segments key)) :
    d.get? key = .ok none ∧ ∃ e, d'.get? key = .error e := by
  obtain ⟨hMissing, e, hError, hOther⟩ := h.hasSpare.read_of_stops hStops
  rw [get?, get?, pathOf_of_isValid hValid, pathOf_of_isValid hValid, h.base_eq]
  exact ⟨by simp only [hMissing], .file e, by simp only [hError]⟩

theorem delete_of_stops (hStops : Folder.Stops made d.folder (d.base ++ Path.segments key)) :
    (d.delete key).1 = .ok () ∧ ∃ e, (d'.delete key).1 = .error e := by
  obtain ⟨hMissing, e, hError, hOther⟩ := h.hasSpare.read_of_stops hStops
  rw [delete, delete, pathOf_of_isValid hValid, pathOf_of_isValid hValid, h.base_eq]
  simp only [Folder.delete, hMissing, hError]
  exact ⟨trivial, .file e, rfl⟩

theorem set_of_isSpare (hSpare : Folder.IsSpare made d.folder (d.base ++ Path.segments key))
    (bytes : Bytes) : (d.set key bytes).1 = .ok () ∧ ∃ e, (d'.set key bytes).1 = .error e := by
  obtain ⟨folders, name, hSegments⟩ := Path.exists_segments_eq key
  rw [hSegments, ← List.append_assoc] at hSpare
  obtain ⟨hWritten, e, hError⟩ := h.hasSpare.write_of_isSpare hSpare bytes
  rw [set, set, pathOf_eq hValid hSegments, pathOf_eq hValid hSegments, h.base_eq]
  simp only [hWritten, hError]
  exact ⟨rfl, .file e, rfl⟩

end

theorem ne_of_fails {α : Type} {outcome outcome' : Except Store.Error α} {a : α}
    (h : outcome = .ok a ∧ ∃ e, outcome' = .error e) : outcome' ≠ outcome := by
  obtain ⟨rfl, e, rfl⟩ := h
  simp

/-- A call that notices the spare directories fails where they are, and not where they are
missing. -/
theorem perform_of_notices (h : Leftover made d d') {call : Call} (hNotices : Notices made d call) :
    (call.perform d').1 ≠ (call.perform d).1 := by
  intro hSame
  cases call with
  | get key =>
    have hFails := h.get?_of_stops hNotices.1 hNotices.2
    exact ne_of_fails hFails (Answer.found.inj hSame)
  | set key bytes =>
    have hFails := h.set_of_isSpare hNotices.1 hNotices.2 bytes
    exact ne_of_fails hFails (Answer.done.inj hSame)
  | delete key =>
    have hFails := h.delete_of_stops hNotices.1 hNotices.2
    exact ne_of_fails hFails (Answer.done.inj hSame)
  | list start => exact hNotices

/-- Stores that differ in spare directories answer calls alike if none of them notices, each in the
store as it is by then. -/
theorem answers_eq_iff (h : Leftover made d d') (hSound : d.IsSound) (hSound' : d'.IsSound)
    (later : List Call) :
    answers d' later = answers d later ↔ ∀ before call after, later = before ++ call :: after →
      ¬ Notices made (Store.run d before) call := by
  -- by induction on the calls: the first is answered alike or decides against it
  induction later generalizing d d' with
  | nil => simp [answers]
  | cons first later ih =>
    by_cases hNotices : Notices made d first
    · refine iff_of_false (fun hSame => ?_) fun hNone => hNone [] first later rfl hNotices
      exact h.perform_of_notices hNotices (List.cons.inj hSame).1
    · obtain ⟨hAnswer, hStill⟩ := h.perform_of_not_notices hSound hSound' hNotices
      rw [answers, answers, hAnswer, List.cons_inj_right,
        ih hStill (hSound.perform first) (hSound'.perform first)]
      constructor
      · rintro hLater (_ | ⟨other, before⟩) call after hSplit
        · cases hSplit
          exact hNotices
        · cases hSplit
          exact hLater before call after rfl
      · intro hAll before call after hSplit
        exact hAll (first :: before) call after (by rw [hSplit, List.cons_append])

end Leftover

/-! ## Undoing a change -/

theorem IsSound.undone (h : d.IsSound) (key : String) (bytes : Bytes) :
    (d.undone key bytes).IsSound := by
  have hSet := h.set key bytes
  unfold DirectoryStore.undone
  split
  · next d₁ hOutcome =>
    rw [hOutcome] at hSet
    exact hSet.delete key
  · next d₁ hOutcome =>
    rw [hOutcome] at hSet
    exact hSet

/-- A key that is not found leaves nothing behind but directories on the way to it, when it is set
and deleted again or cannot be set. -/
theorem exists_leftover_undone (hNone : d.get? key = .ok none) (bytes : Bytes) :
    ∃ made, made <+: (d.base ++ Path.segments key).dropLast ∧
      Leftover made d (d.undone key bytes) := by
  have hValid : Store.Key.isValid key = true := by
    by_contra hNot
    rw [get?, pathOf_of_not_isValid hNot] at hNone
    cases hNone
  obtain ⟨folders, name, hSegments⟩ := Path.exists_segments_eq key
  rw [hSegments, ← List.append_assoc, List.dropLast_concat]
  rw [get?, pathOf_eq hValid hSegments] at hNone
  unfold undone
  rw [set, pathOf_eq hValid hSegments]
  rcases Folder.write_cases d.folder (d.base ++ folders) name bytes with
    ⟨hFree, hWrite⟩ | ⟨-, e, made, hOnWay, hNames, hOpen, hWrite⟩
  · have hMissing : d.folder.leafAt ((d.base ++ folders) ++ [name]) = none := by
      rw [Option.eq_none_iff_forall_ne_some]
      intro b hb
      simp only [Folder.read_eq_ok_iff.2 ⟨hFree.isName, hb⟩] at hNone
      cases hNone
    -- once it is written the file is read, and so it is taken away
    have hRead := Folder.read_of_write hWrite
    refine ⟨d.base ++ folders, List.prefix_rfl, ?_⟩
    simp only [hWrite, Except.mapError, delete, pathOf_eq hValid hSegments, Folder.delete, hRead]
    exact ⟨rfl, Folder.hasSpare_removeFile_insertAt hFree hMissing bytes⟩
  · simp only [hWrite]
    exact ⟨made, hOnWay, rfl, Folder.hasSpare_grown hNames hOpen⟩

/-- After any calls, made on a store whose directory is empty or not there, a key that is not found
is set and deleted again, or cannot be set. Then nothing is left of it but directories on the way to
it, and later calls are answered as if nothing had happened if and only if none of them notices the
directories that would not be there otherwise. -/
theorem answers_undone_iff (d : DirectoryStore) (hFresh : d.IsFresh) (calls : List Call)
    (key : String) (bytes : Bytes) (hNone : Store.get? (Store.run d calls) key = .ok none) :
    ∃ made, made <+: ((Store.run d calls).base ++ Path.segments key).dropLast ∧
      Leftover made (Store.run d calls) ((Store.run d calls).undone key bytes) ∧
      ∀ later, answers ((Store.run d calls).undone key bytes) later =
          answers (Store.run d calls) later ↔
        ∀ before call after, later = before ++ call :: after →
          ¬ Notices made (Store.run (Store.run d calls) before) call := by
  have hSound := hFresh.isSound.run calls
  obtain ⟨made, hOnWay, hLeft⟩ := exists_leftover_undone hNone bytes
  exact ⟨made, hOnWay, hLeft, hLeft.answers_eq_iff hSound (hSound.undone key bytes)⟩

/-- The directory in which a key has been stays when the key is deleted, and cannot be deleted as
the key that it is the directory of. -/
theorem answers_undone_ne :
    unmade.IsFresh ∧ Store.get? (Store.run unmade []) "a/b" = .ok none ∧
      answers ((Store.run unmade []).undone "a/b" [49]) [.delete "a"] ≠
        answers (Store.run unmade []) [.delete "a"] := by
  have hFresh : unmade.IsFresh := ⟨by decide, .inr rfl⟩
  have hNone : Store.get? (Store.run unmade []) "a/b" = .ok none := by decide +kernel
  refine ⟨hFresh, hNone, fun hSame => ?_⟩
  obtain ⟨made, -, hLeft, hIff⟩ := answers_undone_iff unmade hFresh [] "a/b" [49] hNone
  have hThere : ((Store.run unmade []).undone "a/b" [49]).folder.HasBranch ["var", "kv", "a"] :=
    ⟨.empty, by decide +kernel⟩
  have hMissing : ¬ unmade.folder.HasBranch ["var", "kv", "a"] := by
    rintro ⟨inner, hInner⟩
    cases hInner
  have hSpare : Folder.IsSpare made unmade.folder ["var", "kv", "a"] := by
    obtain ⟨hNe, hOn⟩ := ((hLeft.hasSpare.hasBranch_iff _).1 hThere).resolve_left hMissing
    exact ⟨hNe, hOn, hMissing⟩
  refine (hIff _).1 hSame [] (.delete "a") [] rfl ⟨by decide, by decide +kernel, ?_⟩
  exact ⟨["var", "kv", "a"], [], by decide +kernel, hSpare, by simp⟩

end FeatureFlags.DirectoryStore
