import FeatureFlags.Proofs.Decimal.Monotone
import FeatureFlags.Rollout

/-!
# Raising a rollout

The share of a rollout is multiplied by a hundred in floating point, and what comes out is cut off
to a number of buckets. Both steps keep the order of doubles, so a larger share covers no fewer
buckets; and as the bucket of an entity does not depend on the share, whoever is inside stays inside
when the share is raised.

* `toNat_coveredBuckets` — how many buckets a positive share covers.
* `coveredBuckets_mono` — a larger share covers no fewer.
* `includes_mono` — who is inside at which share.
-/

namespace FeatureFlags.Rollout

open Decimal
open Float.Model (Format UnpackedFloat)
open Float.Model.UnpackedFloat

variable {p q : Float} {m : Nat} {e : Int}

/-! ## Covered buckets -/

/-- The hundredfold of a share is rounded before it is cut off. -/
theorem coveredBuckets_eq (p : Float) :
    coveredBuckets p = (unpack Format.binary64 (pack Format.binary64
      (mul Format.binary64 p.toModel.unpack (100 : Float).toModel.unpack))).toUInt32 :=
  rfl

theorem unpack_hundred :
    (100 : Float).toModel.unpack = .finite .positive (25 * 2 ^ 48) (-46) (by decide) := by
  rfl

/-- The hundredfold of a number has the same sign. -/
theorem coveredBuckets_of_finite {sign : Sign} {h : 0 < m}
    (hp : p.toModel.unpack = .finite sign m e h) :
    coveredBuckets p = (unpack Format.binary64 (pack Format.binary64
      (roundWithAccuracy Format.binary64 sign (m * (25 * 2 ^ 48)) (e + -46) .exact))).toUInt32 := by
  rw [coveredBuckets_eq, hp, unpack_hundred]
  cases sign <;> rfl

/-- The share of everybody and more. -/
theorem coveredBuckets_of_infinity (h : p.toModel.unpack = .infinity .positive) :
    (coveredBuckets p).toNat = 2 ^ 32 - 1 := by
  rw [coveredBuckets_eq, h, unpack_hundred]
  rfl

/-- How many buckets a positive share covers: its rounded hundredfold, as far as it is a word. -/
theorem toNat_coveredBuckets {h : 0 < m} (hp : p.toModel.unpack = .finite .positive m e h) :
    (coveredBuckets p).toNat =
      min ⌊roundedValue (m * (25 * 2 ^ 48)) (e + -46)⌋₊ (2 ^ 32 - 1) := by
  have hm : 2 ^ 52 ≤ m * (25 * 2 ^ 48) := by omega
  rw [coveredBuckets_of_finite hp]
  rcases unpack_pack_rounded .positive (by omega) (le_place hm (e + -46)) with
    ⟨hZero, hEq⟩ | ⟨m', e', hRounded, ⟨h', hEq⟩ | ⟨hMax, hEq⟩⟩
  · rw [hEq, roundedValue, hZero, value, Nat.cast_zero, zero_mul, Nat.floor_zero]
    rfl
  · rw [hEq, ← hRounded.value_eq, toNat_toUInt32_finite]
  · -- what is too large for a double is too large for a word
    have hLarge : value (2 ^ 32 - 1) 0 ≤ value m' e' :=
      value_le_of_lt (by decide) (hRounded.placed.normal (by omega)) (by omega)
    have hFloor : 2 ^ 32 - 1 ≤ ⌊value m' e'⌋₊ := by
      apply Nat.le_floor
      simpa [value] using hLarge
    rw [hEq, ← hRounded.value_eq, Nat.min_eq_right hFloor]
    rfl

/-- Only a positive share covers any buckets. -/
theorem coveredBuckets_cases (p : Float) :
    (coveredBuckets p).toNat = 0 ∨ IsPositive p := by
  cases hp : p.toModel.unpack with
  | notANumber =>
    left
    rw [coveredBuckets_eq, hp]
    rfl
  | zero sign =>
    left
    rw [coveredBuckets_eq, hp]
    cases sign <;> rfl
  | infinity sign =>
    cases sign with
    | positive => exact .inr (.inl hp)
    | negative =>
      left
      rw [coveredBuckets_eq, hp]
      rfl
  | finite sign m e h =>
    cases sign with
    | positive => exact .inr (.inr ⟨m, e, h, hp⟩)
    | negative =>
      left
      have hm : 2 ^ 52 ≤ m * (25 * 2 ^ 48) := by omega
      rw [coveredBuckets_of_finite hp]
      rcases unpack_pack_rounded .negative (by omega) (le_place hm (e + -46)) with
        ⟨-, hEq⟩ | ⟨m', e', -, ⟨h', hEq⟩ | ⟨-, hEq⟩⟩
      · rw [hEq]
        rfl
      · rw [hEq, toNat_toUInt32_negative]
      · rw [hEq]
        rfl

theorem value_hundredfold (m : Nat) (e : Int) :
    value (m * (25 * 2 ^ 48)) (e + -46) = value m e * 100 := by
  rw [value, value, zpow_add₀ two_ne_zero]
  norm_num
  ring

/-- A larger share covers no fewer buckets. -/
theorem coveredBuckets_mono (h : p ≤ q) : coveredBuckets p ≤ coveredBuckets q := by
  rw [UInt32.le_iff_toNat_le]
  rcases coveredBuckets_cases p with hNone | hPositive
  · rw [hNone]
    exact Nat.zero_le _
  rcases hPositive.of_le h with hAll | ⟨m', e', hm', hq⟩
  · -- an infinite share covers as many as there can be
    rw [coveredBuckets_of_infinity hAll]
    exact Nat.le_pred_of_lt (UInt32.toNat_lt _)
  · rcases hPositive with hAll | ⟨m, e, hm, hp⟩
    · rw [le_iff, hAll, hq] at h
      cases h
    · have hLe : value m e ≤ value m' e' := value_le_of_unpack hp hq h
      have hHundredfold : value (m * (25 * 2 ^ 48)) (e + -46) ≤
          value (m' * (25 * 2 ^ 48)) (e' + -46) := by
        rw [value_hundredfold, value_hundredfold]
        linarith
      have hRounded := roundedValue_mono (by omega) (by omega) hHundredfold
      rw [toNat_coveredBuckets hp, toNat_coveredBuckets hq]
      exact min_le_min_right _ (Nat.floor_le_floor hRounded)

/-! ## Who is inside -/

theorem bucket_lt (feature : String) (id : UInt64) : bucket feature id < 100 :=
  UInt32.mod_lt _ (by decide)

/-- Whoever is inside a rollout stays inside when its share is raised. Nobody is inside if the share
is no number or negative, or if its hundredfold is below one, and everybody is inside from a share
of one on. -/
theorem includes_mono (feature : String) (id : UInt64) :
    (∀ p q : Float, p ≤ q → includes feature id p = true → includes feature id q = true) ∧
    (∀ p : Float, p.isNaN = true ∨ p < 0 ∨ p * 100 < 1 → includes feature id p = false) ∧
    ∀ p : Float, 1 ≤ p → includes feature id p = true := by
  have hNone : ∀ p, (coveredBuckets p).toNat = 0 → includes feature id p = false := by
    intro p hZero
    have hNot : ¬ bucket feature id < coveredBuckets p := by
      rw [UInt32.lt_iff_toNat_lt]
      omega
    exact decide_eq_false hNot
  refine ⟨?_, ?_, ?_⟩
  · intro p q hLe hInside
    have hBucket := of_decide_eq_true hInside
    exact decide_eq_true (UInt32.lt_of_lt_of_le hBucket (coveredBuckets_mono hLe))
  · rintro p (hNaN | hNegative | hBelow)
    · have hUnpack : p.toModel.unpack.isNaN = true := hNaN
      rcases coveredBuckets_cases p with hZero | hAll | ⟨m, e, hm, hp⟩
      · exact hNone p hZero
      · rw [hAll] at hUnpack
        cases hUnpack
      · rw [hp] at hUnpack
        cases hUnpack
    · -- a share of zero covers no buckets, and this one covers no more
      have hZero : coveredBuckets 0 = 0 := by decide +kernel
      have hCovered := UInt32.le_iff_toNat_le.1 (coveredBuckets_mono (le_of_lt hNegative))
      rw [hZero] at hCovered
      exact hNone p (Nat.le_zero.1 hCovered)
    · exact hNone p (toUInt32_eq_zero_of_lt_one hBelow)
  · intro p hOne
    have hAll : coveredBuckets 1 = 100 := by decide +kernel
    have hCovered := coveredBuckets_mono hOne
    rw [hAll] at hCovered
    exact decide_eq_true (UInt32.lt_of_lt_of_le (bucket_lt feature id) hCovered)

/-- An entity that is inside at a half is inside at three quarters and whenever the share is
infinite, and outside when it is no number. -/
theorem includes_mono_atHalf :
    ((0.5 : Float) ≤ 0.75 ∧ includes "f" 3 0.5 = true ∧ includes "f" 3 0.75 = true) ∧
    (((0 : Float) / 0).isNaN = true ∧ includes "f" 3 (0 / 0) = false) ∧
    ((1 : Float) ≤ 1 / 0 ∧ includes "f" 3 (1 / 0) = true) := by
  obtain ⟨hRaise, hNone, hAll⟩ := includes_mono "f" 3
  have hLe : (0.5 : Float) ≤ 0.75 := by decide +kernel
  have hHalf : includes "f" 3 0.5 = true := by decide +kernel
  have hNaN : ((0 : Float) / 0).isNaN = true := by decide +kernel
  have hInfinite : (1 : Float) ≤ 1 / 0 := by decide +kernel
  exact ⟨⟨hLe, hHalf, hRaise _ _ hLe hHalf⟩, ⟨hNaN, hNone _ (.inl hNaN)⟩, hInfinite,
    hAll _ hInfinite⟩

end FeatureFlags.Rollout
