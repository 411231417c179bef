import FeatureFlags.Decimal.Binary
import Mathlib

/-!
# What doubles stand for

The significands and exponents that finite doubles have, and how they make up the bits.

* `isCanonical_of_reading` — the bounds on both.
* `toBits_of_reading` — the bits that they make up.
* `reading_eq_ofUnpacked` — a double stands for what it is unpacked to.
* `exists_reading` — every finite double stands for a number.
-/

namespace FeatureFlags.Decimal

open Float.Model (Format UnpackedFloat)
open Float.Model.UnpackedFloat

variable {m : Nat} {q : Int} {negative narrow narrow' : Bool} {x y : Float}

/-- The significands and exponents that doubles have: only the smallest exponent has significands
with a leading zero, and below a power of two the doubles lie closer. -/
structure IsCanonical (m : Nat) (q : Int) (narrowBelow : Bool) : Prop where
  significand : m < 2 ^ 53
  exponent : -1074 ≤ q ∧ q ≤ 971
  normal : -1074 < q → 2 ^ 52 ≤ m
  narrow : narrowBelow = true ↔ m = 2 ^ 52 ∧ -1074 < q

theorem isCanonical_of_reading (h : Reading.of x = .finite negative m q narrow) :
    IsCanonical m q narrow := by
  unfold Reading.of Reading.ofBits at h
  simp only [Nat.pow_eq] at h
  have hFraction : x.toBits.toNat % 2 ^ 52 < 2 ^ 52 := Nat.mod_lt _ (by decide)
  have hBiased : x.toBits.toNat / 2 ^ 52 % 2048 < 2048 := Nat.mod_lt _ (by decide)
  split at h
  · split at h <;> cases h
  · split at h
    · -- a leading zero
      cases h
      exact ⟨by omega, by omega, by omega, by simp⟩
    · cases h
      refine ⟨by omega, by omega, fun _ => by omega, ?_⟩
      rw [Bool.and_eq_true, beq_iff_eq, bne_iff_ne]
      omega

/-! ## The bits of a double -/

/-- The sign, the exponent and the significand make up the bits. The implicit bit of a significand
carries into the exponent, which is why there is one formula. -/
theorem toBits_of_reading (h : Reading.of x = .finite negative m q narrow) :
    x.toBits.toNat = (if negative then 2 ^ 63 else 0) + (q + 1074).toNat * 2 ^ 52 + m := by
  have hBits : x.toBits.toNat < 2 ^ 64 := x.toBits.toNat_lt
  unfold Reading.of Reading.ofBits at h
  simp only [Nat.pow_eq] at h
  split at h
  · split at h <;> cases h
  · split at h
    · cases h
      simp only [beq_iff_eq]
      split <;> omega
    · cases h
      simp only [beq_iff_eq]
      split <;> omega

theorem eq_of_toBits_eq (h : x.toBits.toNat = y.toBits.toNat) : x = y := by
  obtain ⟨bits, _⟩ := x
  obtain ⟨bits', _⟩ := y
  have hBits : bits = bits' := UInt64.toNat_inj.1 h
  subst hBits
  rfl

theorem eq_of_reading (hx : Reading.of x = .finite negative m q narrow)
    (hy : Reading.of y = .finite negative m q narrow') : x = y :=
  eq_of_toBits_eq ((toBits_of_reading hx).trans (toBits_of_reading hy).symm)

/-! ## Unpacked doubles -/

theorem toNat_unpackExponent (x : Float) :
    (@unpackExponent Format.binary64 x.toModel.toBits.toBitVec).toNat =
      x.toBits.toNat / 2 ^ 52 % 2048 := by
  show (x.toBits.toNat >>> 52) % 2 ^ 11 = _
  rw [Nat.shiftRight_eq_div_pow]

theorem toNat_unpackMantissa (x : Float) :
    (@unpackMantissa Format.binary64 x.toModel.toBits.toBitVec).toNat =
      x.toBits.toNat % 2 ^ 52 :=
  rfl

theorem toNat_unpackSign (x : Float) :
    (@unpackSign Format.binary64 x.toModel.toBits.toBitVec).toNat =
      x.toBits.toNat / 2 ^ 63 % 2 := by
  show (x.toBits.toNat >>> 63) % 2 ^ 1 = _
  rw [Nat.shiftRight_eq_div_pow]

/-- Whether a sign is that of negative numbers. -/
def isNegative : Sign → Bool
  | .positive => false
  | .negative => true

theorem isNegative_ofBitVec (x : Float) :
    isNegative (.ofBitVec (@unpackSign Format.binary64 x.toModel.toBits.toBitVec)) =
      (x.toBits.toNat / 2 ^ 63 % 2 == 1) := by
  rw [← toNat_unpackSign]
  generalize @unpackSign Format.binary64 x.toModel.toBits.toBitVec = b
  revert b
  decide

/-- What an unpacked number stands for. -/
def Reading.ofUnpacked : UnpackedFloat → Reading
  | .notANumber => .nan
  | .infinity sign => .infinity (isNegative sign)
  | .zero sign => .finite (isNegative sign) 0 (-1074) false
  | .finite sign m e _ => .finite (isNegative sign) m e (m == 2 ^ 52 && -1074 < e)

/-- A double stands for what it is unpacked to. -/
theorem reading_eq_ofUnpacked (x : Float) : Reading.of x = .ofUnpacked x.toModel.unpack := by
  have hExponent := toNat_unpackExponent x
  have hMantissa := toNat_unpackMantissa x
  have hSign := isNegative_ofBitVec x
  have hLt : x.toBits.toNat % 2 ^ 52 < 2 ^ 52 := Nat.mod_lt _ (by decide)
  unfold Reading.of Reading.ofBits
  simp only [Nat.pow_eq]
  rw [← hSign]
  unfold Float.Model.unpack unpack
  simp only
  split
  · next hLargest =>
    rw [← hExponent] at hLargest
    rw [if_pos (BitVec.eq_of_toNat_eq hLargest)]
    split
    · next hZero =>
      rw [← hMantissa] at hZero
      rw [if_pos (BitVec.eq_of_toNat_eq hZero)]
      rfl
    · next hNotZero =>
      rw [if_neg fun hEq => hNotZero (hMantissa.symm.trans (congrArg BitVec.toNat hEq))]
      rfl
  · next hNotLargest =>
    rw [if_neg fun hEq => hNotLargest (hExponent.symm.trans (congrArg BitVec.toNat hEq))]
    split
    · next hLeast =>
      rw [← hExponent] at hLeast
      rw [if_pos (BitVec.eq_of_toNat_eq hLeast), hLeast]
      split
      · next hZero =>
        rw [← hMantissa, hZero]
        rfl
      · next hNotZero =>
        refine (Reading.finite.injEq ..).mpr ⟨rfl, hMantissa.symm, rfl, ?_⟩
        exact (Bool.and_false _).symm
    · next hNotLeast =>
      rw [if_neg fun hEq => hNotLeast (hExponent.symm.trans (congrArg BitVec.toNat hEq))]
      -- the leading digit is put in front of what is stored
      have hFull : (1#1 ++ @unpackMantissa Format.binary64 x.toModel.toBits.toBitVec).toNat =
          2 ^ 52 + x.toBits.toNat % 2 ^ 52 := by
        rw [← hMantissa, BitVec.toNat_append, ← Nat.shiftLeft_add_eq_or_of_lt (BitVec.isLt _),
          Nat.shiftLeft_eq]
        rfl
      have hBias : (Format.binary64.exponentBias : Int) = 1023 := rfl
      refine (Reading.finite.injEq ..).mpr ⟨rfl, hFull.symm, by omega, ?_⟩
      rw [Bool.eq_iff_iff, Bool.and_eq_true, Bool.and_eq_true, beq_iff_eq, bne_iff_ne, beq_iff_eq,
        decide_eq_true_eq]
      show _ ↔ (1#1 ++ @unpackMantissa Format.binary64 x.toModel.toBits.toBitVec).toNat = 2 ^ 52 ∧
        _
      omega
theorem exists_reading (h : x.isFinite = true) :
    ∃ negative m q narrow, Reading.of x = .finite negative m q narrow := by
  have hFinite : x.toModel.unpack.isFinite = true := h
  rw [reading_eq_ofUnpacked]
  cases hUnpack : x.toModel.unpack with
  | zero sign => exact ⟨_, _, _, _, rfl⟩
  | finite sign m e hm => exact ⟨_, _, _, _, rfl⟩
  | infinity sign =>
    rw [hUnpack] at hFinite
    cases hFinite
  | notANumber =>
    rw [hUnpack] at hFinite
    cases hFinite

/-- Nothing else stands for a number. -/
theorem isFinite_of_reading (h : Reading.of x = .finite negative m q narrow) :
    x.isFinite = true := by
  show x.toModel.unpack.isFinite = true
  rw [reading_eq_ofUnpacked] at h
  cases hUnpack : x.toModel.unpack with
  | zero sign => rfl
  | finite sign m e hm => rfl
  | infinity sign =>
    rw [hUnpack] at h
    cases h
  | notANumber =>
    rw [hUnpack] at h
    cases h

end FeatureFlags.Decimal
