import FeatureFlags.Proofs.Publisher.Current
import FeatureFlags.Store.Memory

/-!
# Publishing while the store changes

A publisher shares its store and its folder with others. The store may change at any moment and
anything may happen in the folder, except that nobody else touches the feature file; syncs may fail,
and the publisher may be restarted. However these things alternate, after every sync that succeeds
the file holds the features of the store, and one that fails changes nothing.

* `Step`, `Reachable` — what can happen next, and what can be reached.
* `remembers_of_reachable` — what holds at every moment.
* `holds_of_sync` — what a sync achieves.
-/

namespace FeatureFlags.Publisher

/-- A store, a publisher of its snapshots, and the folder with the feature file. -/
structure World (σ : Type) where
  store : σ
  publisher : Publisher
  folder : Folder

variable {σ : Type}

namespace World

/-- Another publisher for the same file takes over. -/
def restart (w : World σ) : World σ :=
  { w with publisher := (new w.publisher.output).prime w.folder }

theorem folder_restart (w : World σ) : w.restart.folder = w.folder := rfl

/-- The publisher brings the file up to date. -/
def sync [Store σ] (w : World σ) (ns : String) (write : Folder.Writer) (now : Int64) :
    Except Error Bool × World σ :=
  let synced := w.publisher.syncBy write now w.folder (Registry.snapshot ns w.store)
  (synced.1, { w with publisher := synced.2.1, folder := synced.2.2 })

end World

variable [Store σ]

/-- One step, of whoever makes it. -/
inductive Step (ns : String) : World σ → World σ → Prop where
  -- what becomes of the store is left open, so it may also fail from now on
  | mutate (w : World σ) (store : σ) : Step ns w { w with store := store }
  -- somebody changes the folder, but not the feature file
  | disturb (w : World σ) (folder : Folder) :
    Folder.ReadsAlike w.publisher.output w.folder folder →
    Step ns w { w with folder := folder }
  | sync (w : World σ) (write : Folder.Writer) (now : Int64) : write.IsAtomic →
    Step ns w (w.sync ns write now).2
  | restart (w : World σ) : Step ns w w.restart

/-- What can be reached from a publisher that begins where there is no file. -/
inductive Reachable (ns : String) (output : List String) : World σ → Prop where
  | initial (store : σ) (folder : Folder) : (∀ b, folder.read output ≠ .ok b) →
    Reachable ns output ⟨store, new output, folder⟩
  | step {w w' : World σ} : Reachable ns output w → Step ns w w' → Reachable ns output w'

/-! ## What holds at every moment -/

variable {ns : String} {output : List String} {w w' : World σ} {write : Folder.Writer}

theorem syncsTo_sync (w : World σ) (ns : String) (write : Folder.Writer) (now : Int64) :
    SyncsTo write w.publisher now w.folder (Registry.snapshot ns w.store)
      (w.sync ns write now).1 (w.sync ns write now).2.publisher (w.sync ns write now).2.folder :=
  syncsTo_syncBy write w.publisher now w.folder (Registry.snapshot ns w.store)

theorem output_step (h : Step ns w w') : w'.publisher.output = w.publisher.output := by
  cases h with
  | mutate store => rfl
  | disturb folder hSame => rfl
  | sync write now hAtomic => exact (syncsTo_sync w ns write now).output_eq
  | restart => exact output_prime _ _

theorem remembers_step (h : Step ns w w') (hRemembers : Remembers ns w.publisher w.folder) :
    Remembers ns w'.publisher w'.folder := by
  cases h with
  | mutate store => exact hRemembers
  | disturb folder hSame => exact hRemembers.congr hSame
  | sync write now hAtomic =>
    exact (syncsTo_sync w ns write now).remembers hAtomic hRemembers
      fun _ => Registry.isPublication_of_snapshot
  | restart => exact remembers_prime hRemembers.trusted

/-- At every moment the publisher remembers the version of the file that it is told to write. -/
theorem remembers_of_reachable (h : Reachable ns output w) :
    w.publisher.output = output ∧ Remembers ns w.publisher w.folder := by
  induction h with
  | initial store folder hNone =>
    have hTrusted : IsTrusted ns output folder := by
      intro bytes _ hRead
      exact absurd hRead (hNone bytes)
    exact ⟨rfl, remembers_new hTrusted⟩
  | step _ hStep ih => exact ⟨(output_step hStep).trans ih.1, remembers_step hStep ih.2⟩

/-! ## What a sync achieves -/

/-- However the store has changed and the publisher has been restarted: after a sync that succeeds,
the file holds the features that the entries of the store make up, and it was left alone only if it
held them before; a sync that fails leaves the file and the remembered version as they were. The
digest only has to keep the features in the file apart from those in the store. -/
theorem holds_of_sync (hReachable : Reachable ns output w) (hAtomic : write.IsAtomic) (now : Int64)
    (hSha : TellsApart output w.folder (Registry.snapshot ns w.store)) :
    (∀ b, (w.sync ns write now).1 = .ok b →
      ∃ entries m, Store.list w.store (Store.Key.featuresPrefix ns) = .ok entries ∧
        Snapshot.build ns entries = .ok m ∧
        Holds ns output (w.sync ns write now).2.folder m.features ∧
        (b = false → Holds ns output w.folder m.features)) ∧
    ∀ e, (w.sync ns write now).1 = .error e →
      (w.sync ns write now).2.publisher.lastVersion = w.publisher.lastVersion ∧
      Folder.ReadsAlike output w.folder (w.sync ns write now).2.folder := by
  obtain ⟨hOutput, hRemembers⟩ := remembers_of_reachable hReachable
  subst hOutput
  have hSync := syncsTo_sync w ns write now
  constructor
  · intro b hOk
    rw [hOk] at hSync
    obtain ⟨m, hSnapshot, hHolds⟩ := hSync.holds hAtomic hRemembers
      (fun _ => Registry.isPublication_of_snapshot) hSha
    obtain ⟨entries, hList, hBuild⟩ := Registry.snapshot_eq_ok_iff.1 hSnapshot
    exact ⟨entries, m, hList, hBuild, hHolds⟩
  · intro e hError
    rw [hError] at hSync
    obtain ⟨hSame, hFile⟩ := hSync.unchanged hAtomic
    exact ⟨congrArg lastVersion hSame, hFile⟩

/-- A store with one feature, before its snapshot is published. -/
def beginning : World MemoryStore :=
  ⟨(Registry.set "dcdr" (Record.ofValue "new_ui" (.bool true)) MemoryStore.empty).2,
    new ["decider.json"], .empty⟩

/-- The publisher has been restarted after its first sync. -/
def restarted : World MemoryStore :=
  (beginning.sync "dcdr" Folder.write 1757030409).2.restart

/-- The first sync writes the file; after the restart, the next one finds that it is there. -/
theorem holds_of_sync_restarted :
    Reachable "dcdr" ["decider.json"] restarted ∧
      (restarted.sync "dcdr" Folder.write 1757030469).1 = .ok false ∧
      ∃ m, Registry.snapshot "dcdr" restarted.store = .ok m ∧
        Holds "dcdr" ["decider.json"] restarted.folder m.features := by
  have hNone : ∀ b, beginning.folder.read ["decider.json"] ≠ .ok b := by
    intro b
    exact nofun
  have hBeginning : Reachable "dcdr" ["decider.json"] beginning := .initial _ _ hNone
  have hFirst : (beginning.sync "dcdr" Folder.write 1757030409).1 = .ok true := by decide +kernel
  have hSecond : (restarted.sync "dcdr" Folder.write 1757030469).1 = .ok false := by decide +kernel
  have hReachable : Reachable "dcdr" ["decider.json"] restarted :=
    .step (.step hBeginning (.sync _ Folder.write 1757030409 Folder.isAtomic_write)) (.restart _)
  -- before the first sync there is no file whose features could be confused with others
  have hShaFirst : TellsApart ["decider.json"] beginning.folder
      (Registry.snapshot "dcdr" beginning.store) := by
    intro held _ hRead
    exact absurd hRead (hNone held.write)
  obtain ⟨entries, m, hList, hBuild, hHolds, -⟩ :=
    (holds_of_sync hBeginning Folder.isAtomic_write 1757030409 hShaFirst).1 true hFirst
  have hSnapshot : Registry.snapshot "dcdr" restarted.store = .ok m :=
    Registry.snapshot_eq_ok_iff.2 ⟨entries, hList, hBuild⟩
  have hFolder : restarted.folder = (beginning.sync "dcdr" Folder.write 1757030409).2.folder :=
    World.folder_restart _
  rw [← hFolder] at hHolds
  -- before the second one the file holds them
  have hSha : TellsApart ["decider.json"] restarted.folder
      (Registry.snapshot "dcdr" restarted.store) := by
    rw [hSnapshot]
    exact hHolds.tellsApart
  obtain ⟨entries', m', hList', hBuild', -, hHeld⟩ :=
    (holds_of_sync hReachable Folder.isAtomic_write 1757030469 hSha).1 false hSecond
  exact ⟨hReachable, hSecond, m', Registry.snapshot_eq_ok_iff.2 ⟨entries', hList', hBuild'⟩,
    hHeld rfl⟩

end FeatureFlags.Publisher
