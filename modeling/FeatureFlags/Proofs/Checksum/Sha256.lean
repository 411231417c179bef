import FeatureFlags.Checksum.Sha256

/-!
# Digests in hexadecimal

Two hexadecimal digits tell a byte, so the text of a digest is as good as the digest.

* `hex_inj` — texts are equal only if the bytes are.
-/

namespace FeatureFlags.Sha256

theorem digitChar_inj : ∀ m n : Fin 16, m.val.digitChar = n.val.digitChar → m = n := by
  decide

theorem hex_inj {bytes bytes' : List UInt8} : hex bytes = hex bytes' ↔ bytes = bytes' := by
  constructor
  · intro h
    have hChars := String.ofList_injective h
    clear h
    induction bytes generalizing bytes' with
    | nil =>
      cases bytes' with
      | nil => rfl
      | cons b rest => cases hChars
    | cons b rest ih =>
      cases bytes' with
      | nil => cases hChars
      | cons b' rest' =>
        obtain ⟨hHigh, hTail⟩ := List.cons.inj hChars
        obtain ⟨hLow, hRest⟩ := List.cons.inj hTail
        -- the digits are those of the quotient and the remainder by 16
        have hb : b.toNat < 256 := b.toNat_lt
        have hb' : b'.toNat < 256 := b'.toNat_lt
        have hQuotient := digitChar_inj ⟨b.toNat / 16, by omega⟩ ⟨b'.toNat / 16, by omega⟩ hHigh
        have hRemainder := digitChar_inj ⟨b.toNat % 16, by omega⟩ ⟨b'.toNat % 16, by omega⟩ hLow
        simp only [Fin.mk.injEq] at hQuotient hRemainder
        have hByte : b = b' := UInt8.toNat_inj.1 (by omega)
        rw [hByte, ih hRest]
  · rintro rfl
    rfl

end FeatureFlags.Sha256
