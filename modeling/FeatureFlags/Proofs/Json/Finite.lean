import FeatureFlags.Proofs.Decimal.Distinct
import FeatureFlags.Proofs.Decimal.Finite
import FeatureFlags.Proofs.Record

/-!
# Numbers that are read are finite

A document never gives an infinite number: a product beyond the doubles is refused, and dividing by
a power of ten stays inside them. So whatever value is read can be written, and read again.

* `isFinite_of_float?` — the doubles that are read.
* `Value.isSome_reread_iff` — the values that come back when they are written.
-/

namespace FeatureFlags.Json

open Decimal
open Float.Model (Format)

/-! ## Powers of ten -/

theorem isAtLeastTwo_of_lt : ∀ k : Fin 22,
    isAtLeastTwo (powerOfTen (k + 1)).toModel.unpack = true := by
  decide +kernel

/-- A power of ten that is not looked up is far above two. -/
theorem isAtLeastTwo_of_le {k : Nat} (hLarge : 23 ≤ k) (hk : k ≤ 308) :
    isAtLeastTwo (powerOfTen k).toModel.unpack = true := by
  have hTen : 2 ^ 54 ≤ 2 ^ 53 * 10 ^ k := by
    calc 2 ^ 54 = 2 ^ 53 * 2 ^ 1 := by decide
      _ ≤ 2 ^ 53 * 10 ^ k := Nat.mul_le_mul_left _
        (Nat.le_trans (by decide) (Nat.pow_le_pow_right (n := 10) (by decide) (by omega : 1 ≤ k)))
  have hLog : 54 ≤ (2 ^ 53 * 10 ^ k).log2 := (Nat.le_log2 (by positivity)).2 hTen
  obtain ⟨m, e, hm, hRound, hLow, hHigh, hPlace, -⟩ :=
    roundWithAccuracy_normal .positive (-53) (m := 2 ^ 53 * 10 ^ k) (by omega) (by omega)
  have hModel := toModel_powerOfTen hLarge hk
  rw [hRound] at hModel
  -- it is no infinity, so its exponent is in range and survives packing
  have hInf : (powerOfTen k).toModel.unpack.isInf = false :=
    isInf_eq_false_of_isWithin (isWithin_powerOfTen hk)
  rw [hModel] at hInf ⊢
  have hMax : e ≤ 971 := fits_of_isInf_eq_false hm hInf
  have hUnpack : (Float.Model.pack (.finite .positive m e hm)).unpack = .finite .positive m e hm :=
    unpack_pack_normal hm hLow hHigh (by omega) hMax
  rw [hUnpack]
  refine decide_eq_true ?_
  have hBits : 52 ≤ m.log2 := (Nat.le_log2 (by omega)).2 hLow
  unfold Float.Model.totalExponent
  omega

theorem isAtLeastTwo_powerOfTen {k : Nat} (hPos : 0 < k) (hk : k ≤ 308) :
    isAtLeastTwo (powerOfTen k).toModel.unpack = true := by
  by_cases hSmall : k < 23
  · obtain ⟨j, rfl⟩ : ∃ j, k = j + 1 := ⟨k - 1, by omega⟩
    exact isAtLeastTwo_of_lt ⟨j, by omega⟩
  · exact isAtLeastTwo_of_le (by omega) hk

/-! ## Reading -/

theorem isFinite_toFloat {n : Nat} (h : n < significandLimit) :
    (UInt64.ofNat n).toFloat.isFinite = true := by
  by_cases hZero : n = 0
  · rw [hZero]
    decide +kernel
  · exact (isWithin_toFloat (Nat.pos_of_ne_zero hZero) h).isFinite

/-- What a double is scaled to is finite. -/
theorem isFinite_scaleByTen {steps : Nat} {f x : Float} {exponent : Int} (hf : f.isFinite = true)
    (h : scaleByTen steps f exponent = some x) : x.isFinite = true := by
  induction steps generalizing f exponent with
  | zero =>
    cases h
    exact hf
  | succ steps ih =>
    rw [scaleByTen] at h
    split at h
    · next hStride =>
      split at h
      · -- a product that is infinite is refused
        simp only at h
        split at h
        · cases h
        · next hInf =>
          cases h
          have hPower := (isWithin_powerOfTen hStride).isFinite
          exact isFinite_mul hf hPower (Bool.eq_false_iff.2 hInf)
      · next hNegative =>
        cases h
        exact isFinite_div hf (isAtLeastTwo_powerOfTen (by omega) hStride)
    · split at h
      · cases h
        exact hf
      · split at h
        · cases h
        · -- one stride of a division, and the rest by induction
          have hPower : isAtLeastTwo (powerOfTen 308).toModel.unpack = true :=
            isAtLeastTwo_powerOfTen (by decide) (by decide)
          exact ih (isFinite_div hf hPower) h

theorem isFinite_assemble {significand : Nat} {exponent : Int} {x : Float}
    (hLt : significand < significandLimit) (h : assemble significand exponent = some x) :
    x.isFinite = true :=
  isFinite_scaleByTen (isFinite_toFloat hLt) h

theorem isFinite_of_magnitude? {n : Numeral} {x : Float} (h : magnitude? n = some x) :
    x.isFinite = true := by
  have hWhole := (gather_le (show 0 < significandLimit by decide) n.whole).1
  have hLt := (gather_le hWhole n.fraction).1
  unfold magnitude? at h
  simp only at h
  split at h
  · exact isFinite_assemble hLt h
  · split at h
    · exact isFinite_assemble hLt h
    · split at h
      · cases h
        decide +kernel
      · cases h

/-- A number of a document is a finite double. -/
theorem isFinite_of_float? {n : Numeral} {x : Float} (h : float? n = some x) :
    x.isFinite = true := by
  have hSign : ∀ size : Float, size.isFinite = true →
      (if n.negative then -size else size).isFinite = true := by
    intro size hSize
    split
    · exact isFinite_neg hSize
    · exact hSize
  unfold float? at h
  by_cases hFits : isWhole n = true ∧ ofDigits n.whole < significandLimit
  · simp only [if_pos hFits] at h
    cases h
    exact hSign _ (isFinite_toFloat hFits.2)
  · simp only [if_neg hFits] at h
    obtain ⟨size, hSize, hx⟩ := Option.bind_eq_some_iff.1 h
    cases hx
    exact hSign size (isFinite_of_magnitude? hSize)

end FeatureFlags.Json

namespace FeatureFlags.Value

open Json (Doc)

/-- Whether a value is a truth value or a finite number. -/
def isFinite : Value → Bool
  | .bool _ => true
  | .number x => x.isFinite

variable {v : Value}

/-- Whatever is read is finite. -/
theorem isFinite_of_ofDoc? {doc : Doc} (h : ofDoc? doc = some v) : v.isFinite = true := by
  unfold ofDoc? at h
  split at h
  · cases h
    rfl
  · obtain ⟨x, hx, rfl⟩ := Option.map_eq_some_iff.1 h
    exact Json.isFinite_of_float? hx
  · cases h

/-- A value that is written comes back, maybe as another one, just when it is finite. -/
theorem isSome_reread_iff : v.reread.isSome = true ↔ v.isFinite = true := by
  constructor
  · intro h
    obtain ⟨v', hv'⟩ := Option.isSome_iff_exists.1 h
    cases v with
    | bool b => rfl
    | number x =>
      change ofDoc? (Doc.ofFloat x) = some v' at hv'
      unfold Doc.ofFloat at hv'
      split at hv'
      · next n hn => exact Decimal.Layout.isFinite_of_numeral? hn
      · cases hv'
  · intro h
    cases v with
    | bool b => rfl
    | number x =>
      -- a finite number is written as a numeral, and every numeral that is written can be read
      obtain ⟨n, hn⟩ := Option.isSome_iff_exists.1
        (Decimal.Layout.isSome_numeral? Json.numberLayout h)
      obtain ⟨y, hy⟩ := Option.isSome_iff_exists.1 (Json.float?_isSome hn)
      show (ofDoc? (Doc.ofFloat x)).isSome = true
      unfold Doc.ofFloat
      rw [hn]
      show ((Json.float? n).map number).isSome = true
      rw [hy]
      rfl

/-- A value that is read comes back when it is written. -/
theorem isSome_reread {doc : Doc} (h : ofDoc? doc = some v) : v.reread.isSome = true :=
  isSome_reread_iff.2 (isFinite_of_ofDoc? h)

end FeatureFlags.Value
