import FeatureFlags.Proofs.Publisher.Current
import FeatureFlags.Store.Memory
import Mathlib.Logic.Function.Basic
import Mathlib.Logic.Relation

/-!
# Publishing what a store counts

A publisher follows a store in memory that any number of others write to. A write is two steps: the
entries change, and then the change is counted. The publisher's loop takes down the count, lists the
entries, writes the file, and waits until the count is another one. These steps come in any order,
so a change may be listed before it is counted, or counted while an older listing is being written.

No change is lost: a count that has not changed since it was taken down, with nobody about to raise
it, means that the entries have not changed since they were listed.

* `Inv` — what holds at every moment.
* `Step`, `Reachable` — what can happen next, and what can be reached.
* `exists_set`, `exists_delete`, `exists_round` — undisturbed writes and rounds of the loop.
* `inv_step`, `inv_of_reachable` — every step keeps the invariant, and so does every run.
* `holds_of_waiting` — while the loop waits and nothing is uncounted, the file is current.
-/

namespace FeatureFlags.Publisher.Loop

/-! ## Moments -/

/-- What the loop is about to do, or waits for. -/
inductive Stage where
  -- the count of changes is taken down
  | marking
  | listing
  | writing (snapshot : Except Registry.Error FeatureMap)
  -- the last sync had this outcome, and nothing is done until there is a change
  | waiting (outcome : Except Error Bool)

/-- A store, those who write to it, and a publisher that follows it. -/
structure World (ι : Type) where
  store : MemoryStore
  /-- Who has changed the entries and not counted the change yet. -/
  between : ι → Bool
  follower : MemoryStore.Follower
  stage : Stage
  publisher : Publisher
  folder : Folder

variable {ι : Type}

namespace World

/-- The entries change, by the hand of a writer who is to count the change. -/
def change [DecidableEq ι] (w : World ι) (i : ι) (store : MemoryStore) : World ι :=
  { w with store := store, between := Function.update w.between i true }

def notify [DecidableEq ι] (w : World ι) (i : ι) : World ι :=
  { w with store := w.store.notify, between := Function.update w.between i false }

def mark (w : World ι) : World ι :=
  { w with follower := .of w.store, stage := .listing }

def list (w : World ι) (ns : String) : World ι :=
  { w with stage := .writing (Registry.snapshot ns w.store) }

/-- The loop writes a snapshot, if its version is another one than that of the file. -/
def write (w : World ι) (writer : Folder.Writer) (now : Int64)
    (snapshot : Except Registry.Error FeatureMap) : World ι :=
  let synced := w.publisher.syncBy writer now w.folder snapshot
  { w with stage := .waiting synced.1, publisher := synced.2.1, folder := synced.2.2 }

theorem folder_write (w : World ι) (writer : Folder.Writer) (now : Int64)
    (snapshot : Except Registry.Error FeatureMap) :
    (w.write writer now snapshot).folder = (w.publisher.syncBy writer now w.folder snapshot).2.2 :=
  rfl

end World

variable {ns : String} {output : List String} {w w' : World ι}

/-! ## What holds at every moment -/

theorem isBehind_eq_false_iff {f : MemoryStore.Follower} {s : MemoryStore} :
    f.isBehind s = false ↔ f.seen = s.generation := by
  unfold MemoryStore.Follower.isBehind
  rw [decide_eq_false_iff_not, not_not]

/-- What is known as long as the count is the one taken down and all changes are counted: what has
been listed is what the store holds, and what has been written is its version. -/
def IsCurrent (ns : String) (w : World ι) : Prop :=
  match w.stage with
  | .marking | .listing | .waiting (.error _) => True
  | .writing snapshot => snapshot = Registry.snapshot ns w.store
  | .waiting (.ok _) =>
    ∃ m, Registry.snapshot ns w.store = .ok m ∧ w.publisher.lastVersion = some m.version

/-- What holds at every moment of a run. -/
structure Inv (ns : String) (output : List String) (w : World ι) : Prop where
  output : w.publisher.output = output
  remembers : Remembers ns w.publisher w.folder
  listed : ∀ {snapshot m}, w.stage = .writing snapshot → snapshot = .ok m → IsPublication ns m
  /-- Once it is taken down, the count only grows. -/
  seen : w.stage ≠ .marking → w.follower.seen ≤ w.store.generation
  current : w.follower.isBehind w.store = false → (∀ i, w.between i = false) → IsCurrent ns w

theorem inv_initial (store : MemoryStore) (between : ι → Bool) {folder : Folder}
    (h : IsTrusted ns output folder) :
    Inv ns output
      ⟨store, between, .of store, .marking, (new output).prime folder, folder⟩ where
  output := output_prime _ _
  remembers := remembers_prime h
  listed := nofun
  seen := fun hStage => absurd rfl hStage
  current := fun _ _ => trivial

theorem inv_change [DecidableEq ι] (h : Inv ns output w) (i : ι) {store : MemoryStore}
    (hGeneration : store.generation = w.store.generation) :
    Inv ns output (w.change i store) where
  output := h.output
  remembers := h.remembers
  listed := h.listed
  seen := by
    intro hStage
    show w.follower.seen ≤ store.generation
    rw [hGeneration]
    exact h.seen hStage
  current := by
    -- a change that is not counted yet excuses everything
    intro _ hBetween
    have hWriter : Function.update w.between i true i = false := hBetween i
    rw [Function.update_self] at hWriter
    cases hWriter

theorem inv_notify [DecidableEq ι] (h : Inv ns output w) (i : ι) :
    Inv ns output (w.notify i) where
  output := h.output
  remembers := h.remembers
  listed := h.listed
  seen := fun hStage => Nat.le_succ_of_le (h.seen hStage)
  current := by
    intro hSeen _
    have hEq : w.follower.seen = w.store.generation + 1 := isBehind_eq_false_iff.1 hSeen
    -- unless it is about to be taken down anew, the count has left behind the one taken down
    by_cases hStage : w.stage = .marking
    · show IsCurrent ns (w.notify i)
      unfold IsCurrent World.notify
      simp only [hStage]
    · have hLe := h.seen hStage
      omega

theorem inv_mark (h : Inv ns output w) : Inv ns output w.mark where
  output := h.output
  remembers := h.remembers
  listed := nofun
  seen := fun _ => Nat.le_refl _
  current := fun _ _ => trivial

theorem inv_list (h : Inv ns output w) (hStage : w.stage = .listing) :
    Inv ns output (w.list ns) where
  output := h.output
  remembers := h.remembers
  listed := by
    intro snapshot m hWriting hOk
    cases hWriting
    exact Registry.isPublication_of_snapshot hOk
  seen := fun _ => h.seen (by rw [hStage]; exact Stage.noConfusion)
  current := fun _ _ => rfl

theorem inv_write (h : Inv ns output w) {snapshot : Except Registry.Error FeatureMap}
    (hStage : w.stage = .writing snapshot) {writer : Folder.Writer} (hAtomic : writer.IsAtomic)
    (now : Int64) : Inv ns output (w.write writer now snapshot) := by
  have hSync := syncsTo_syncBy writer w.publisher now w.folder snapshot
  have hListed : ∀ m, snapshot = .ok m → IsPublication ns m := by
    intro m hOk
    exact h.listed hStage hOk
  refine ⟨hSync.output_eq.trans h.output, hSync.remembers hAtomic h.remembers hListed, nofun,
    ?_, ?_⟩
  · intro _
    exact h.seen (by rw [hStage]; exact Stage.noConfusion)
  · intro hSeen hBetween
    -- what was listed is what the store holds, and its version is remembered now
    have hCurrent : IsCurrent ns w := h.current hSeen hBetween
    unfold IsCurrent at hCurrent ⊢
    unfold World.write
    simp only [hStage] at hCurrent ⊢
    cases hOutcome : (w.publisher.syncBy writer now w.folder snapshot).1 with
    | error e => trivial
    | ok b =>
      rw [hOutcome] at hSync
      obtain ⟨m, hOk, hVersion⟩ := hSync.lastVersion
      exact ⟨m, hCurrent.symm.trans hOk, hVersion⟩

theorem inv_disturb (h : Inv ns output w) {folder : Folder}
    (hSame : Folder.ReadsAlike w.publisher.output w.folder folder) :
    Inv ns output { w with folder := folder } where
  output := h.output
  remembers := h.remembers.congr hSame
  listed := h.listed
  seen := h.seen
  current := h.current

/-! ## Steps -/

variable [DecidableEq ι]

/-- One step, of whoever makes it. -/
inductive Step (ns : String) : World ι → World ι → Prop where
  | put (w : World ι) (i : ι) (key : String) (bytes : Bytes) : w.between i = false →
    Store.Key.isValid key = true → Step ns w (w.change i (w.store.put key bytes))
  | drop (w : World ι) (i : ι) (key : String) : w.between i = false →
    w.store.entries.contains key = true → Step ns w (w.change i (w.store.drop key))
  | notify (w : World ι) (i : ι) : w.between i = true → Step ns w (w.notify i)
  | mark (w : World ι) : w.stage = .marking → Step ns w w.mark
  | list (w : World ι) : w.stage = .listing → Step ns w (w.list ns)
  | write (w : World ι) (snapshot : Except Registry.Error FeatureMap) (writer : Folder.Writer)
    (now : Int64) : w.stage = .writing snapshot → writer.IsAtomic →
    Step ns w (w.write writer now snapshot)
  -- the count is another one than that taken down
  | wake (w : World ι) (outcome : Except Error Bool) : w.stage = .waiting outcome →
    w.follower.isBehind w.store = true → Step ns w { w with stage := .marking }
  -- somebody changes the folder, but not the feature file
  | disturb (w : World ι) (folder : Folder) :
    Folder.ReadsAlike w.publisher.output w.folder folder →
    Step ns w { w with folder := folder }

/-- What can be reached from a publisher that begins to follow a store. There may be a file already
if it has been published. -/
inductive Reachable (ns : String) (output : List String) : World ι → Prop where
  | initial (store : MemoryStore) (between : ι → Bool) (folder : Folder) :
    IsTrusted ns output folder →
    Reachable ns output
      ⟨store, between, .of store, .marking, (new output).prime folder, folder⟩
  | step {w w' : World ι} : Reachable ns output w → Step ns w w' → Reachable ns output w'

theorem exists_counted {i : ι} (hBetween : w.between i = false) {store : MemoryStore}
    (hChange : Step ns w (w.change i store)) :
    Relation.ReflTransGen (Step ns) w { w with store := store.notify } := by
  have hNotify : Step ns (w.change i store) ((w.change i store).notify i) := by
    refine .notify _ i ?_
    show Function.update w.between i true i = true
    rw [Function.update_self]
  -- afterwards the writer is where it was before
  have hSame : (w.change i store).notify i = { w with store := store.notify } := by
    unfold World.change World.notify
    simp only [Function.update_idem]
    rw [← hBetween, Function.update_eq_self]
  rw [hSame] at hNotify
  exact .tail (.single hChange) hNotify

/-- A writer who is not disturbed sets an entry of the store. -/
theorem exists_set (w : World ι) {i : ι} (hBetween : w.between i = false) (key : String)
    (bytes : Bytes) :
    Relation.ReflTransGen (Step ns) w { w with store := (w.store.set key bytes).2 } := by
  unfold MemoryStore.set
  split
  · next hValid => exact exists_counted hBetween (.put w i key bytes hBetween hValid)
  · exact .refl

/-- A writer who is not disturbed deletes an entry of the store. Where there is none, nothing
happens. -/
theorem exists_delete (w : World ι) {i : ι} (hBetween : w.between i = false) (key : String) :
    Relation.ReflTransGen (Step ns) w { w with store := w.store.delete key } := by
  unfold MemoryStore.delete
  split
  · next hContains => exact exists_counted hBetween (.drop w i key hBetween hContains)
  · exact .refl

/-- A round of the loop that is not disturbed is a sync with the store. -/
theorem exists_round (w : World ι) (hStage : w.stage = .marking) (now : Int64) :
    ∃ w', Relation.ReflTransGen (Step ns) w w' ∧ w'.store = w.store ∧
      w'.stage = .waiting (w.publisher.sync (Registry.snapshot ns w.store) now w.folder).1 ∧
      (w'.publisher, w'.folder) =
        (w.publisher.sync (Registry.snapshot ns w.store) now w.folder).2 := by
  have hMark : Step ns w w.mark := .mark w hStage
  have hList : Step ns w.mark (w.mark.list ns) := .list _ rfl
  have hWrite : Step ns (w.mark.list ns)
      ((w.mark.list ns).write Folder.write now (Registry.snapshot ns w.store)) :=
    .write _ _ Folder.write now rfl Folder.isAtomic_write
  exact ⟨_, .tail (.tail (.single hMark) hList) hWrite, rfl, rfl, rfl⟩

/-! ## No change is lost -/

theorem inv_step (h : Inv ns output w) (hStep : Step ns w w') : Inv ns output w' := by
  cases hStep with
  | put i key bytes hBetween hValid => exact inv_change h i rfl
  | drop i key hBetween hContains => exact inv_change h i rfl
  | notify i hBetween => exact inv_notify h i
  | mark hStage => exact inv_mark h
  | list hStage => exact inv_list h hStage
  | write snapshot writer now hStage hAtomic => exact inv_write h hStage hAtomic now
  | wake outcome hStage hBehind =>
    exact ⟨h.output, h.remembers, nofun, fun hNot => absurd rfl hNot, fun _ _ => trivial⟩
  | disturb folder hSame => exact inv_disturb h hSame

theorem inv_of_reachable (h : Reachable ns output w) : Inv ns output w := by
  induction h with
  | initial store between folder hTrusted => exact inv_initial store between hTrusted
  | step _ hStep ih => exact inv_step ih hStep

/-- However writers and the loop alternate: while the loop waits after a sync that succeeded, the
count is the one taken down, and every change is counted, the file holds the features that the
entries of the store make up now. The digest only has to keep the features in the file apart from
these. -/
theorem holds_of_waiting (hReachable : Reachable ns output w) {b : Bool}
    (hStage : w.stage = .waiting (.ok b)) (hSeen : w.follower.isBehind w.store = false)
    (hBetween : ∀ i, w.between i = false)
    (hSha : TellsApart output w.folder (Registry.snapshot ns w.store)) :
    ∃ m, Snapshot.build ns (w.store.range (Store.Key.featuresPrefix ns)) = .ok m ∧
      Holds ns output w.folder m.features := by
  have hInv := inv_of_reachable hReachable
  have hCurrent := hInv.current hSeen hBetween
  unfold IsCurrent at hCurrent
  rw [hStage] at hCurrent
  obtain ⟨m, hSnapshot, hVersion⟩ := hCurrent
  obtain ⟨entries, hList, hBuild⟩ := Registry.snapshot_eq_ok_iff.1 hSnapshot
  -- a store in memory always lists its entries
  cases hList
  refine ⟨m, hBuild, ?_⟩
  rw [hSnapshot, ← hInv.output] at hSha
  rw [← hInv.output]
  exact hInv.remembers.holds (Snapshot.isPublication_of_build hBuild) hVersion hSha

/-! A change that the loop has just missed: a writer puts a record between the listing and the
writing of the file, and counts it only after the file has been written. -/

/-- There are no entries, and there is no file. -/
def beginning : World (Fin 2) where
  store := .empty
  between := fun _ => false
  follower := .of .empty
  stage := .marking
  publisher := (new ["decider.json"]).prime .empty
  folder := .empty

/-- The record comes too late for the listing. -/
def missed : World (Fin 2) :=
  (beginning.mark.list "dcdr").change 0
    (beginning.store.put (Store.Key.ofFeature "dcdr" defaultScope "new_ui")
      (Record.ofValue "new_ui" (.bool true)).write)

/-- The file has been written without it, and then the record is counted. -/
def counted : World (Fin 2) :=
  (missed.write Folder.write 1757030409 (Registry.snapshot "dcdr" beginning.store)).notify 0

/-- The loop has noticed, and listed the store again. -/
def relisted : World (Fin 2) :=
  World.list (World.mark { counted with stage := .marking }) "dcdr"

theorem reachable_relisted : Reachable "dcdr" ["decider.json"] relisted := by
  have hBeginning : Reachable "dcdr" ["decider.json"] beginning :=
    .initial .empty (fun _ => false) .empty fun _ _ hRead => nomatch hRead
  have hMissed : Reachable "dcdr" ["decider.json"] missed := by
    refine .step (.step (.step hBeginning (.mark _ rfl)) (.list _ rfl)) ?_
    exact .put _ 0 _ _ rfl (by decide +kernel)
  have hCounted : Reachable "dcdr" ["decider.json"] counted :=
    .step (.step hMissed (.write _ _ _ _ rfl Folder.isAtomic_write)) (.notify _ 0 rfl)
  refine .step (.step (.step hCounted (.wake _ _ rfl ?_)) (.mark _ rfl)) (.list _ rfl)
  decide +kernel

/-- The file has been written again. -/
def caughtUp : World (Fin 2) :=
  relisted.write Folder.write 1757030410 (Registry.snapshot "dcdr" relisted.store)

/-- When the loop waits again, the feature is in the file. -/
theorem holds_of_waiting_caughtUp :
    Reachable "dcdr" ["decider.json"] caughtUp ∧ caughtUp.stage = .waiting (.ok true) ∧
      ∃ m, Snapshot.build "dcdr" (caughtUp.store.range (Store.Key.featuresPrefix "dcdr")) = .ok m ∧
        m.defaults.get? "new_ui" = some (.bool true) ∧
        Holds "dcdr" ["decider.json"] caughtUp.folder m.features := by
  have hReachable : Reachable "dcdr" ["decider.json"] caughtUp :=
    .step reachable_relisted (.write _ _ _ _ rfl Folder.isAtomic_write)
  have hOutcome : (relisted.publisher.syncBy Folder.write 1757030410 relisted.folder
      (Registry.snapshot "dcdr" relisted.store)).1 = .ok true := by decide +kernel
  have hStage : caughtUp.stage = .waiting (.ok true) := congrArg Stage.waiting hOutcome
  have hSeen : caughtUp.follower.isBehind caughtUp.store = false := by decide +kernel
  have hBetween : ∀ i, caughtUp.between i = false := by decide +kernel
  -- what has just been written is not confused with what it was written from
  have hSync := syncsTo_syncBy Folder.write relisted.publisher 1757030410 relisted.folder
    (Registry.snapshot "dcdr" relisted.store)
  rw [hOutcome] at hSync
  obtain ⟨m, hSnapshot, hHolds⟩ := hSync.holds_of_written Folder.isAtomic_write
    fun _ => Registry.isPublication_of_snapshot
  rw [(inv_of_reachable reachable_relisted).output, ← World.folder_write] at hHolds
  have hSha : TellsApart ["decider.json"] caughtUp.folder
      (Registry.snapshot "dcdr" caughtUp.store) := by
    rw [show Registry.snapshot "dcdr" caughtUp.store = .ok m from hSnapshot]
    exact hHolds.tellsApart
  obtain ⟨m', hBuild, hHeld⟩ := holds_of_waiting hReachable hStage hSeen hBetween hSha
  refine ⟨hReachable, hStage, m', hBuild, ?_, hHeld⟩
  have hValue : (Snapshot.build "dcdr" (caughtUp.store.range
      (Store.Key.featuresPrefix "dcdr"))).toOption.map (fun m => m.defaults.get? "new_ui") =
      some (some (.bool true)) := by decide +kernel
  rw [hBuild] at hValue
  exact Option.some.inj hValue

end FeatureFlags.Publisher.Loop
