import FeatureFlags.Proofs.FeatureMap.Fingerprint
import FeatureFlags.Proofs.Files.Atomic
import FeatureFlags.Proofs.Snapshot.Filing
import FeatureFlags.Publisher

/-!
# What the feature file holds

The version that a publisher remembers is that of the map in the file. This is what makes it right
to leave the file alone when the snapshot has that version: the file holds the snapshot's features
already. A sync keeps it so, whether it succeeds or fails, and a publisher that starts anew finds
it so, because the version is in the file.

* `Holds` — what it means that the file holds a tree of features.
* `SyncsTo` — what a sync may come to.
* `remembers_prime`, `SyncsTo.remembers` — the version that is remembered is that of the file.
* `SyncsTo.holds` — after a sync the file holds the features of the snapshot.
-/

namespace FeatureFlags

open Json (Doc)

/-! ## Publications -/

/-- Whether a map is a publication of a namespace: it has that name, and its version is the
fingerprint of its features. -/
structure IsPublication (ns : String) (m : FeatureMap) : Prop where
  root : m.root = ns
  version : m.version = m.fingerprint

namespace Snapshot

open Store

variable {ns : String} {m : FeatureMap}

theorem isPublication_of_build {entries : List Entry} (h : build ns entries = .ok m) :
    IsPublication ns m := by
  obtain ⟨-, hRoot, hInfo, -⟩ := build_eq_ok_iff.1 h
  refine ⟨hRoot, ?_⟩
  rw [FeatureMap.version, hInfo]
  rfl

end Snapshot

namespace Registry

variable {σ : Type} [Store σ] {ns : String} {store : σ} {m : FeatureMap}

theorem snapshot_eq_ok_iff :
    snapshot ns store = .ok m ↔
      ∃ entries, Store.list store (Store.Key.featuresPrefix ns) = .ok entries ∧
        Snapshot.build ns entries = .ok m := by
  unfold snapshot
  cases Store.list store (Store.Key.featuresPrefix ns) with
  | error e => exact ⟨nofun, nofun⟩
  | ok entries =>
    show (Snapshot.build ns entries).mapError Error.snapshot = _ ↔ _
    cases hBuild : Snapshot.build ns entries with
    | error e => simp [Except.mapError, hBuild]
    | ok built => simp [Except.mapError, hBuild]

theorem isPublication_of_snapshot (h : snapshot ns store = .ok m) : IsPublication ns m := by
  obtain ⟨entries, -, hBuild⟩ := snapshot_eq_ok_iff.1 h
  exact Snapshot.isPublication_of_build hBuild

end Registry

/-! ## Features that are written alike -/

namespace FeatureMap

theorem write_congr {m : FeatureMap} {s : Scope} (hSorted : s.Sorted)
    (h : m.features.encoding = s.encoding) :
    { m with features := s, sorted := hSorted }.write = m.write := by
  have hDoc : m.features.toDoc = s.toDoc := by
    rw [Scope.toDoc, Scope.toDoc, Scope.encoding_eq_iff_members.1 h]
  have hMap : { m with features := s, sorted := hSorted }.toDoc = m.toDoc := by
    unfold toDoc
    rw [hDoc]
  unfold write
  rw [hMap]

theorem encoding_of_write_eq {m m' : FeatureMap} (h : m.write = m'.write) :
    m.features.encoding = m'.features.encoding := by
  have hDoc := (Json.write_inj .indented m.isWellWritten_toDoc m'.isWellWritten_toDoc).1 h
  -- the features are the last member of the only root
  have hRoot : Root.doc m.info m.features = Root.doc m'.info m'.features :=
    (Prod.mk.inj (List.cons.inj (Doc.object.inj hDoc)).1).2
  have hMember := (List.append_inj' (Doc.object.inj hRoot) rfl).2
  rw [Scope.encoding, (Prod.mk.inj (List.cons.inj hMember).1).2]
  rfl

end FeatureMap

namespace Publisher

variable {ns : String} {output : List String} {p : Publisher} {folder folder' : Folder}

/-! ## The file -/

/-- Whether the file holds a tree of features, as a publication of a namespace. -/
def Holds (ns : String) (output : List String) (folder : Folder) (s : Scope) : Prop :=
  ∃ m, folder.read output = .ok m.write ∧ IsPublication ns m ∧ m.features = s

/-- Whether a file that has a version has been published. -/
def IsTrusted (ns : String) (output : List String) (folder : Folder) : Prop :=
  -- there need not be any file, and one without a version is not taken for current anyway
  ∀ bytes m, folder.read output = .ok bytes → FeatureMap.parse bytes = .ok m → m.version ≠ "" →
    ∃ m', IsPublication ns m' ∧ bytes = m'.write

/-- What a publisher remembers: the version of the publication that is in the file. -/
structure Remembers (ns : String) (p : Publisher) (folder : Folder) : Prop where
  trusted : IsTrusted ns p.output folder
  last : ∀ v, p.lastVersion = some v →
    ∃ m, IsPublication ns m ∧ m.version = v ∧ folder.read p.output = .ok m.write

theorem isTrusted_of_read {m : FeatureMap} (hPublication : IsPublication ns m)
    (hRead : folder.read output = .ok m.write) : IsTrusted ns output folder := by
  intro bytes _ hBytes _ _
  rw [hRead] at hBytes
  exact ⟨m, hPublication, (Except.ok.inj hBytes).symm⟩

theorem remembers_new (h : IsTrusted ns output folder) : Remembers ns (new output) folder :=
  ⟨h, nofun⟩

/-- A publisher that starts anew takes its version from the file. -/
theorem remembers_prime (h : IsTrusted ns output folder) :
    Remembers ns ((new output).prime folder) folder := by
  unfold prime
  split
  · exact remembers_new h
  · next bytes hRead =>
    split
    · exact remembers_new h
    · next m hParse =>
      split
      · exact remembers_new h
      · next hVersion =>
        refine ⟨h, ?_⟩
        intro v hv
        obtain ⟨m', hPublication, hWrite⟩ := h bytes m hRead hParse hVersion
        -- reading may change numbers, but the info block comes back as it was
        have hInfo : m.info = m'.info := by
          rw [hWrite] at hParse
          exact (FeatureMap.parse_write_eq_ok_iff.1 hParse).2.1
        refine ⟨m', hPublication, ?_, hWrite ▸ hRead⟩
        rw [FeatureMap.version, ← hInfo]
        exact Option.some.inj hv

theorem output_prime (p : Publisher) (folder : Folder) : (p.prime folder).output = p.output := by
  unfold prime
  split
  · rfl
  · split
    · rfl
    · split <;> rfl

theorem Remembers.congr (h : Remembers ns p folder)
    (hSame : Folder.ReadsAlike p.output folder folder') : Remembers ns p folder' where
  trusted := by
    intro bytes m hRead
    exact h.trusted bytes m ((hSame bytes).1 hRead)
  last := by
    intro v hv
    obtain ⟨m, hPublication, hVersion, hRead⟩ := h.last v hv
    exact ⟨m, hPublication, hVersion, (hSame _).2 hRead⟩

/-! ## A sync -/

/-- What a sync may come to: its outcome, and the publisher and the folder as they are then. -/
inductive SyncsTo (write : Folder.Writer) (p : Publisher) (now : Int64) (folder : Folder) :
    Except Registry.Error FeatureMap → Except Error Bool → Publisher → Folder → Prop where
  | missing (e : Registry.Error) :
    SyncsTo write p now folder (.error e) (.error (.registry e)) p folder
  -- the snapshot has the version that was written last
  | known (m : FeatureMap) : p.lastVersion = some m.version →
    SyncsTo write p now folder (.ok m) (.ok false) p folder
  | written (m : FeatureMap) (folder' : Folder) : p.lastVersion ≠ some m.version →
    write folder p.output (published m now).write = (.ok (), folder') →
    SyncsTo write p now folder (.ok m) (.ok true) ⟨p.output, some m.version⟩ folder'
  | failed (m : FeatureMap) (e : FileError) (folder' : Folder) : p.lastVersion ≠ some m.version →
    write folder p.output (published m now).write = (.error e, folder') →
    SyncsTo write p now folder (.ok m) (.error (.write e)) p folder'

variable {write : Folder.Writer} {now : Int64} {snapshot : Except Registry.Error FeatureMap}
variable {outcome : Except Error Bool} {p' : Publisher}

theorem syncsTo_of_eq (h : p.syncBy write now folder snapshot = (outcome, p', folder')) :
    SyncsTo write p now folder snapshot outcome p' folder' := by
  cases snapshot with
  | error e =>
    cases h
    exact .missing e
  | ok m =>
    change p.publishBy write now folder m = _ at h
    unfold publishBy at h
    split at h
    · next hKnown =>
      cases h
      exact .known m hKnown
    · next hNews =>
      split at h
      · next hWrite =>
        cases h
        exact .written m _ hNews hWrite
      · next hWrite =>
        cases h
        exact .failed m _ _ hNews hWrite

theorem syncsTo_syncBy (write : Folder.Writer) (p : Publisher) (now : Int64) (folder : Folder)
    (snapshot : Except Registry.Error FeatureMap) :
    SyncsTo write p now folder snapshot (p.syncBy write now folder snapshot).1
      (p.syncBy write now folder snapshot).2.1 (p.syncBy write now folder snapshot).2.2 :=
  syncsTo_of_eq rfl

theorem isPublication_published {m : FeatureMap} (h : IsPublication ns m) (now : Int64) :
    IsPublication ns (published m now) :=
  ⟨h.root, h.version⟩

/-- After a sync the publisher still remembers what is in the file. -/
theorem SyncsTo.remembers (h : SyncsTo write p now folder snapshot outcome p' folder')
    (hAtomic : write.IsAtomic) (hRemembers : Remembers ns p folder)
    (hSnapshot : ∀ m, snapshot = .ok m → IsPublication ns m) : Remembers ns p' folder' := by
  cases h with
  | missing e => exact hRemembers
  | known m hKnown => exact hRemembers
  | written m folder' hNews hWrite =>
    -- what is remembered now has just been written
    have hPublished := isPublication_published (hSnapshot m rfl) now
    have hRead := hAtomic.written hWrite
    refine ⟨isTrusted_of_read hPublished hRead, ?_⟩
    intro v hv
    exact ⟨_, hPublished, Option.some.inj hv, hRead⟩
  | failed m e folder' hNews hWrite => exact hRemembers.congr (hAtomic.kept hWrite)

theorem SyncsTo.output_eq (h : SyncsTo write p now folder snapshot outcome p' folder') :
    p'.output = p.output := by
  cases h <;> rfl

/-- A sync that fails changes neither what is remembered nor the file. -/
theorem SyncsTo.unchanged {e : Error}
    (h : SyncsTo write p now folder snapshot (.error e) p' folder') (hAtomic : write.IsAtomic) :
    p' = p ∧ Folder.ReadsAlike p.output folder folder' := by
  cases h with
  | missing e => exact ⟨rfl, fun _ => Iff.rfl⟩
  | failed m e folder' hNews hWrite => exact ⟨rfl, hAtomic.kept hWrite⟩

theorem SyncsTo.lastVersion {b : Bool}
    (h : SyncsTo write p now folder snapshot (.ok b) p' folder') :
    ∃ m, snapshot = .ok m ∧ p'.lastVersion = some m.version := by
  cases h with
  | known m hKnown => exact ⟨m, rfl, hKnown⟩
  | written m folder' hNews hWrite => exact ⟨m, rfl, rfl⟩

/-! ## What the file holds -/

/-- Whether the digest keeps the features in the file apart from those of a snapshot. -/
def TellsApart (output : List String) (folder : Folder)
    (snapshot : Except Registry.Error FeatureMap) : Prop :=
  ∀ m m' : FeatureMap, folder.read output = .ok m.write → snapshot = .ok m' →
    Scope.AreToldApart m.features m'.features

/-- A file with the version of a snapshot holds its features. -/
theorem Remembers.holds {m : FeatureMap} (h : Remembers ns p folder) (hm : IsPublication ns m)
    (hVersion : p.lastVersion = some m.version) (hSha : TellsApart p.output folder (.ok m)) :
    Holds ns p.output folder m.features := by
  obtain ⟨m', hPublication, hSame, hRead⟩ := h.last m.version hVersion
  have hFingerprint : m'.fingerprint = m.fingerprint :=
    hPublication.version.symm.trans (hSame.trans hm.version)
  have hEncoding := (FeatureMap.fingerprint_eq_iff_encoding (hSha m' m hRead rfl)).1 hFingerprint
  -- so the file could just as well have been written from the features of the snapshot
  refine ⟨{ m' with features := m.features, sorted := m.sorted }, ?_, ⟨hPublication.root, ?_⟩, rfl⟩
  · rw [FeatureMap.write_congr m.sorted hEncoding]
    exact hRead
  · exact hSame.trans hm.version

/-- Where the file holds the features already, nothing is asked of the digest. -/
theorem Holds.tellsApart {m : FeatureMap} (h : Holds ns output folder m.features) :
    TellsApart output folder (.ok m) := by
  intro held built hRead hBuilt
  cases hBuilt
  obtain ⟨m', hRead', -, hFeatures⟩ := h
  rw [hRead] at hRead'
  rw [← hFeatures]
  exact fun _ => FeatureMap.encoding_of_write_eq (Except.ok.inj hRead')

theorem SyncsTo.read_of_written {m : FeatureMap}
    (h : SyncsTo write p now folder (.ok m) (.ok true) p' folder') (hAtomic : write.IsAtomic) :
    folder'.read p.output = .ok (published m now).write := by
  cases h with
  | written m folder' hNews hWrite => exact hAtomic.written hWrite

theorem SyncsTo.holds_of_written
    (h : SyncsTo write p now folder snapshot (.ok true) p' folder') (hAtomic : write.IsAtomic)
    (hSnapshot : ∀ m, snapshot = .ok m → IsPublication ns m) :
    ∃ m, snapshot = .ok m ∧ Holds ns p.output folder' m.features := by
  obtain ⟨m, rfl, -⟩ := h.lastVersion
  have hPublished := isPublication_published (hSnapshot m rfl) now
  exact ⟨m, rfl, _, h.read_of_written hAtomic, hPublished, rfl⟩

/-- After a sync that succeeds, the file holds the features of the snapshot. It has been left alone
only if it held them before. -/
theorem SyncsTo.holds {b : Bool} (h : SyncsTo write p now folder snapshot (.ok b) p' folder')
    (hAtomic : write.IsAtomic) (hRemembers : Remembers ns p folder)
    (hSnapshot : ∀ m, snapshot = .ok m → IsPublication ns m)
    (hSha : TellsApart p.output folder snapshot) :
    ∃ m, snapshot = .ok m ∧ Holds ns p.output folder' m.features ∧
      (b = false → Holds ns p.output folder m.features) := by
  cases b with
  | true =>
    obtain ⟨m, hOk, hHolds⟩ := h.holds_of_written hAtomic hSnapshot
    exact ⟨m, hOk, hHolds, nofun⟩
  | false =>
    cases h with
    | known m hKnown =>
      have hHolds := hRemembers.holds (hSnapshot m rfl) hKnown hSha
      exact ⟨m, rfl, hHolds, fun _ => hHolds⟩

end Publisher

end FeatureFlags
