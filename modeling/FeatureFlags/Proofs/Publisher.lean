import FeatureFlags.Proofs.Client.Basic
import FeatureFlags.Proofs.Publisher.Current
import FeatureFlags.Proofs.Snapshot

/-!
# From the registry to the client

What is written into the registry of a namespace reaches a client through the feature file: the
store's snapshot is published, the file is read, and the client resolves it. On this way nothing is
lost and nothing is added, as long as no record stands on the way to another one and the file can be
read at all: its numbers come back as they were written, and its scopes are not nested too deep.

* `publish_fst` — a publisher keeps still or writes the snapshot.
* `sync_run` — what a client answers is what the records say.
-/

namespace FeatureFlags

namespace Snapshot

variable {s : MemoryStore}

theorem forall_isKept_snapshot (ns : String)
    (hKept : ∀ r ∈ s.records, ∀ v, r.value = some v → v.IsKept) :
    ((FeatureMap.empty ns).features.insertAll (leaves s)).Forall Value.IsKept := by
  have hEmpty : (FeatureMap.empty ns).features.Forall Value.IsKept := ⟨trivial, trivial⟩
  refine Tree.forall_insertAll hEmpty fun l hl => ?_
  obtain ⟨r, hr, hLeaf⟩ := mem_leaves_iff.1 hl
  exact hKept r hr l.value (Record.path_of_leaf? hLeaf).2

/-- How many segments a scope may have so that a published map is not too deep to be read. -/
def scopeLimit : Nat := 124

theorem height_snapshot (ns : String)
    (hShallow : ∀ r ∈ s.records, (Path.segments r.scope).length ≤ scopeLimit) :
    ((FeatureMap.empty ns).features.insertAll (leaves s)).height ≤ FeatureMap.heightLimit := by
  -- the empty map has its default scope already
  have hEmpty : (FeatureMap.empty ns).features.height ≤ FeatureMap.heightLimit := by
    show 2 ≤ 125
    decide
  refine Tree.height_insertAll hEmpty fun l hl => ?_
  obtain ⟨r, hr, hLeaf⟩ := mem_leaves_iff.1 hl
  have hFolder : l.folder = Path.segments r.scope := by
    unfold Record.leaf? at hLeaf
    obtain ⟨v, -, rfl⟩ := Option.map_eq_some_iff.1 hLeaf
    rfl
  rw [hFolder]
  exact Nat.succ_le_succ (hShallow r hr)

end Snapshot

namespace Publisher

variable {p : Publisher} {m : FeatureMap} {now : Int64} {folder : Folder}

/-- A publisher keeps still if it has written the version last; else the outcome is that of writing
the file. -/
theorem publish_fst (p : Publisher) (m : FeatureMap) (now : Int64) (folder : Folder) :
    (p.publish m now folder).1 =
      if p.lastVersion = some m.version then .ok false
      else ((folder.write p.output []).1.map fun _ => true).mapError .write := by
  unfold publish publishBy
  split
  · rfl
  · rw [Folder.write_fst folder p.output [] (published m now).write]
    cases hWrite : folder.write p.output (published m now).write with
    | mk outcome folder' => cases outcome <;> rfl

/-- A file that is written reads as the published map. -/
theorem read_of_publish (h : (p.publish m now folder).1 = .ok true) :
    (p.publish m now folder).2.2.read p.output = .ok (published m now).write := by
  have hSync : SyncsTo Folder.write p now folder (.ok m) (p.publish m now folder).1
      (p.publish m now folder).2.1 (p.publish m now folder).2.2 :=
    syncsTo_syncBy Folder.write p now folder (.ok m)
  rw [h] at hSync
  exact hSync.read_of_written Folder.isAtomic_write

/-- What a client that reads a published map answers. -/
theorem get?_update_published (now : Int64) (hKept : m.features.Forall Value.IsKept)
    (hHeight : m.features.height ≤ FeatureMap.heightLimit) :
    ∃ c, Client.new.update (published m now).write = (.ok true, c) ∧
      ∀ scopes name, (c.withScopes scopes).get? name =
        (FeatureMap.priorities scopes).findSome? fun scope => (m.inScope scope).get? name := by
  have hUpdate := Client.update_write Client.new (m := published m now) hKept hHeight
  refine ⟨_, hUpdate, fun scopes name => ?_⟩
  exact Client.get?_withScopes (Client.isCurrent_ofMap _ _) rfl scopes name

end Publisher

/-! ## The whole way -/

theorem findSome?_bind {α β γ : Type} {f : α → Option β} {g : β → Option γ}
    (h : ∀ a b, f a = some b → (g b).isSome = true) (l : List α) :
    (l.findSome? fun a => (f a).bind g) = (l.findSome? f).bind g := by
  induction l with
  | nil => rfl
  | cons a l ih =>
    cases hFirst : f a with
    | none => rw [List.findSome?_cons, List.findSome?_cons, hFirst, Option.bind_none, ih]
    | some b =>
      obtain ⟨c, hc⟩ := Option.isSome_iff_exists.1 (h a b hFirst)
      rw [List.findSome?_cons, List.findSome?_cons, hFirst, Option.bind_some, hc]

namespace Publisher

open Registry (Request run)

/-- Whatever has been asked of the registry of a namespace, and whatever the publisher wrote before:
there is a snapshot, and a sync keeps still only if the publisher wrote its version last, and fails
only if the file cannot be written. The file that it writes is taken over by a fresh client, which
then answers in each scope what the records say: of the scopes asked for, and the default scope
behind them, the first one that has a record of the feature counts. -/
theorem sync_run (ns : String) (requests : List Request) (p : Publisher) (now : Int64)
    (folder : Folder) (hApart : Snapshot.AreApart (run ns requests))
    (hShallow : ∀ r ∈ (run ns requests).records,
      (Path.segments r.scope).length ≤ Snapshot.scopeLimit)
    (hKept : ∀ r ∈ (run ns requests).records, ∃ v, r.value = some v ∧ v.IsKept) :
    ∃ m, Registry.snapshot ns (run ns requests) = .ok m ∧
      (p.sync (.ok m) now folder).1 = (if p.lastVersion = some m.version then .ok false
        else ((folder.write p.output []).1.map fun _ => true).mapError .write) ∧
      ((p.sync (.ok m) now folder).1 = .ok true →
        ∃ bytes c, (p.sync (.ok m) now folder).2.2.read p.output = .ok bytes ∧
          Client.new.update bytes = (.ok true, c) ∧
          ∀ scopes name, (c.withScopes scopes).get? name =
            ((FeatureMap.priorities scopes).findSome? fun scope =>
              (run ns requests).recordOf? scope name).bind Record.value) := by
  have hRun := Registry.run_wellKept ns requests
  obtain ⟨m, hSnapshot, -, hFeatures⟩ := Snapshot.snapshot_eq hRun
  refine ⟨m, hSnapshot, publish_fst p m now folder, fun hWritten => ?_⟩
  -- the snapshot is a map that can be written and read again
  have hForall : m.features.Forall Value.IsKept := by
    rw [hFeatures]
    refine Snapshot.forall_isKept_snapshot ns fun r hr v hv => ?_
    obtain ⟨v', hv', hIsKept⟩ := hKept r hr
    rw [hv] at hv'
    cases hv'
    exact hIsKept
  have hHeight : m.features.height ≤ FeatureMap.heightLimit := by
    rw [hFeatures]
    exact Snapshot.height_snapshot ns hShallow
  obtain ⟨c, hUpdate, hAnswers⟩ := get?_update_published now hForall hHeight
  refine ⟨_, c, read_of_publish hWritten, hUpdate, fun scopes name => ?_⟩
  have hScopes : (fun scope => (m.inScope scope).get? name) = fun scope =>
      ((run ns requests).recordOf? scope name).bind Record.value := by
    funext scope
    exact Snapshot.get?_inScope_snapshot hRun hFeatures hApart scope name
  rw [hAnswers, hScopes, findSome?_bind]
  -- a scope with a record has a value, so the first record is also the first value
  intro scope r hFound
  obtain ⟨hr, -⟩ := (MemoryStore.recordOf?_eq_some_iff hRun).1 hFound
  obtain ⟨v, hv, -⟩ := hKept r hr
  rw [hv]
  rfl

/-- Requests that leave a switch in the default scope and another value of it in `cc/de`, next to a
feature that is gone again. -/
def overriding : List Request :=
  [.set (Record.ofValue "new_ui" (.bool true)),
   .set { Record.ofValue "new_ui" (.bool false) with scope := "cc/de" },
   .set (Record.ofValue "old_ui" (.bool true)),
   .delete "old_ui" ""]

theorem sync_run_overriding :
    ∃ m bytes c, Registry.snapshot "dcdr" (run "dcdr" overriding) = .ok m ∧
      ((new ["decider.json"]).sync (.ok m) 1757030409 .empty).2.2.read ["decider.json"] =
        .ok bytes ∧
      Client.new.update bytes = (.ok true, c) ∧
      (c.withScopes ["cc/de", "cc"]).get? "new_ui" = some (.bool false) ∧
      (c.withScopes ["cc"]).get? "new_ui" = some (.bool true) ∧
      (c.withScopes ["cc"]).get? "old_ui" = none := by
  have hApart : Snapshot.AreApart (run "dcdr" overriding) := by
    unfold Snapshot.AreApart
    decide +kernel
  have hShallow : ∀ r ∈ (run "dcdr" overriding).records,
      (Path.segments r.scope).length ≤ Snapshot.scopeLimit := by decide +kernel
  have hBool : ∀ r ∈ (run "dcdr" overriding).records,
      r.value = some (.bool true) ∨ r.value = some (.bool false) := by decide +kernel
  have hKept : ∀ r ∈ (run "dcdr" overriding).records, ∃ v, r.value = some v ∧ v.IsKept := by
    intro r hr
    rcases hBool r hr with hTrue | hFalse
    · exact ⟨_, hTrue, rfl⟩
    · exact ⟨_, hFalse, rfl⟩
  obtain ⟨m, hSnapshot, hOutcome, hFile⟩ := sync_run "dcdr" overriding (new ["decider.json"])
    1757030409 .empty hApart hShallow hKept
  have hWritten : ((new ["decider.json"]).sync (.ok m) 1757030409 .empty).1 = .ok true := by
    rw [hOutcome, if_neg (by simp [new])]
    rfl
  obtain ⟨bytes, c, hRead, hUpdate, hAnswers⟩ := hFile hWritten
  refine ⟨m, bytes, c, hSnapshot, hRead, hUpdate, ?_, ?_, ?_⟩
  -- the records decide, so nothing has to be read or written here
  · rw [hAnswers]
    decide +kernel
  · rw [hAnswers]
    decide +kernel
  · rw [hAnswers]
    decide +kernel

end Publisher

end FeatureFlags
