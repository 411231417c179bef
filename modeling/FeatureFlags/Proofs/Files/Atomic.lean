import FeatureFlags.Proofs.Files.Free

/-!
# Writing a file as a whole

A file is written as a whole if whoever reads it afterwards sees the new bytes when it could be
written, and what was there before when it could not.

* `Writer.IsAtomic` — which ways of writing do that.
* `isAtomic_write` — that of a folder does, although it may leave directories behind.
* `write_fst` — whether a file can be written does not depend on its bytes.
-/

namespace FeatureFlags.Folder

/-- Whether a file that can be read in one of two folders can be read in the other, with the same
bytes. -/
def ReadsAlike (path : List String) (t t' : Folder) : Prop :=
  ∀ b, t'.read path = .ok b ↔ t.read path = .ok b

/-- Whether a way of writing puts the new bytes in the place of the old ones, or else leaves the
file as it was. -/
structure Writer.IsAtomic (write : Writer) : Prop where
  written : ∀ {t t' : Folder} {path : List String} {bytes : Bytes},
    write t path bytes = (.ok (), t') → t'.read path = .ok bytes
  kept : ∀ {t t' : Folder} {path : List String} {bytes : Bytes} {e : FileError},
    write t path bytes = (.error e, t') → ReadsAlike path t t'

variable {t t' : Folder} {path : List String} {bytes : Bytes}

/-- What could be written is read back. -/
theorem read_of_write (h : t.write path bytes = (.ok (), t')) : t'.read path = .ok bytes := by
  rcases List.eq_nil_or_concat' path with rfl | ⟨folders, name, rfl⟩
  · cases h
  · rcases write_cases t folders name bytes with ⟨hFree, hWrite⟩ | ⟨-, e, made, -, -, -, hWrite⟩
    · rw [hWrite] at h
      cases h
      exact read_eq_ok_iff.2 ⟨hFree.isName, Tree.leafAt_insertAt_self t folders name bytes⟩
    · rw [hWrite] at h
      cases h

/-- What could not be written is read as before. -/
theorem readsAlike_of_write_error {e : FileError} (h : t.write path bytes = (.error e, t')) :
    ReadsAlike path t t' := by
  intro b
  rcases List.eq_nil_or_concat' path with rfl | ⟨folders, name, rfl⟩
  · cases h
    rfl
  · rcases write_cases t folders name bytes with ⟨-, hWrite⟩ | ⟨-, e, made, -, -, hOpen, hWrite⟩
    · rw [hWrite] at h
      cases h
    · -- only directories have been made
      rw [hWrite] at h
      cases h
      rw [read_eq_ok_iff, read_eq_ok_iff, Tree.leafAt_grown hOpen]

/-- Writing a file changes it as a whole. -/
theorem isAtomic_write : Writer.IsAtomic write where
  written := read_of_write
  kept := readsAlike_of_write_error

/-! ## Other bytes -/

theorem place_fst (t : Folder) (name : String) (bytes bytes' : Bytes) (path : List String) :
    (place t name bytes path).1 = (place t name bytes' path).1 := by
  induction path generalizing t with
  | nil =>
    rw [place, place]
    split
    · rfl
    · split
      · rfl
      · split <;> rfl
  | cons segment path ih => exact ih (t.child segment)

/-- Whether a file can be written does not depend on its bytes. -/
theorem write_fst (t : Folder) (path : List String) (bytes bytes' : Bytes) :
    (t.write path bytes).1 = (t.write path bytes').1 := by
  unfold write
  split
  · rfl
  · simp only
    split
    · rfl
    · split
      · rfl
      · exact place_fst _ _ bytes bytes' _

end FeatureFlags.Folder
