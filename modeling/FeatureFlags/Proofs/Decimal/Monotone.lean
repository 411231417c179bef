import FeatureFlags.Proofs.Decimal.Distinct
import FeatureFlags.Proofs.Decimal.Finite

/-!
# The order of doubles

Doubles are in the order of the numbers that they stand for, and rounding keeps that order: on one
place it takes the nearest number, so that the larger one cannot get the smaller result, and where
the places differ, a power of two is between the results. Cutting off what is behind the point keeps
the order as well.

* `roundsTo_rounded` — rounding takes the nearest number of places.
* `roundedValue_mono` — rounding keeps the order.
* `value_le_of_unpack` — the comparison of doubles is that of numbers.
* `toNat_toUInt32_finite` — the word that a double is cut off to.
-/

namespace FeatureFlags.Decimal

open Float.Model (Format UnpackedFloat)
open Float.Model.UnpackedFloat

variable {x y : Float} {m m' : Nat} {e e' : Int}

/-! ## Rounding -/

/-- A number is rounded to the nearest number of places, the even one of two. -/
theorem roundsTo_rounded (m k : Nat) (e : Int) :
    RoundsTo (value m e) (rounded m k) (e + k) false := by
  obtain ⟨hUp, hDown, hOdd⟩ := rounded_nearest m k
  have hPos : (0 : ℚ) < 2 ^ e := by positivity
  have hPlace : (2 : ℚ) ^ (e + k) = 2 ^ k * 2 ^ e := by
    rw [zpow_add₀ two_ne_zero, zpow_natCast, mul_comm]
  have hLow : lowEnd (rounded m k) false * 2 ^ (e + k) =
      (2 * (rounded m k * 2 ^ k) - 2 ^ k) / 2 * 2 ^ e := by
    rw [hPlace]
    show ((rounded m k : ℚ) - 1 / 2) * _ = _
    ring
  have hHigh : ((rounded m k : ℚ) + 1 / 2) * 2 ^ (e + k) =
      (2 * (rounded m k * 2 ^ k) + 2 ^ k) / 2 * 2 ^ e := by
    rw [hPlace]
    ring
  constructor
  · have hUp' : 2 * ((rounded m k : ℚ) * 2 ^ k) ≤ 2 * m + 2 ^ k := by exact_mod_cast hUp
    rw [hLow]
    exact mul_le_mul_of_nonneg_right (by linarith) hPos.le
  · have hDown' : 2 * (m : ℚ) ≤ 2 * (rounded m k * 2 ^ k) + 2 ^ k := by exact_mod_cast hDown
    rw [hHigh]
    exact mul_le_mul_of_nonneg_right (by linarith) hPos.le
  · intro hBit
    obtain ⟨hLess, hMore⟩ := hOdd hBit
    have hLess' : 2 * ((rounded m k : ℚ) * 2 ^ k) < 2 * m + 2 ^ k := by exact_mod_cast hLess
    have hMore' : 2 * (m : ℚ) < 2 * (rounded m k * 2 ^ k) + 2 ^ k := by exact_mod_cast hMore
    rw [hLow, hHigh]
    exact ⟨mul_lt_mul_of_pos_right (by linarith) hPos, mul_lt_mul_of_pos_right (by linarith) hPos⟩

/-- The larger exponent makes the larger number, if its significand has all its digits. -/
theorem value_le_of_lt (hm : m ≤ 2 ^ 53) (hm' : 2 ^ 52 ≤ m') (h : e < e') :
    value m e ≤ value m' e' := by
  have hHigh : (m : ℚ) ≤ 2 ^ 53 := by exact_mod_cast hm
  have hLow : (2 : ℚ) ^ 52 ≤ m' := by exact_mod_cast hm'
  calc value m e ≤ 2 ^ 53 * 2 ^ e := mul_le_mul_of_nonneg_right hHigh (by positivity)
    _ = 2 ^ 52 * 2 ^ (e + 1) := by
      rw [zpow_add_one₀ two_ne_zero]
      ring
    _ ≤ 2 ^ 52 * 2 ^ e' :=
      mul_le_mul_of_nonneg_left (zpow_le_zpow_right₀ one_le_two (by omega)) (by positivity)
    _ ≤ value m' e' := mul_le_mul_of_nonneg_right hLow (by positivity)

theorem value_le_of_le (h : m ≤ m') (e : Int) : value m e ≤ value m' e := by
  have hCast : (m : ℚ) ≤ m' := by exact_mod_cast h
  exact mul_le_mul_of_nonneg_right hCast (by positivity)

/-- A number is not below the place of its leading digit. -/
theorem leading_le_value (hm : 0 < m) (e : Int) : (2 : ℚ) ^ (e + m.log2) ≤ value m e := by
  have hSelf : ((2 ^ m.log2 : Nat) : ℚ) ≤ m := by exact_mod_cast Nat.log2_self_le (by omega)
  rw [zpow_add₀ two_ne_zero, mul_comm, zpow_natCast]
  push_cast at hSelf
  exact mul_le_mul_of_nonneg_right hSelf (by positivity)

/-- A number is below the place in front of its leading digit. -/
theorem value_lt_leading (m : Nat) (e : Int) : value m e < (2 : ℚ) ^ (e + m.log2 + 1) := by
  have hSelf : (m : ℚ) < ((2 ^ (m.log2 + 1) : Nat) : ℚ) := by exact_mod_cast Nat.lt_log2_self
  rw [add_assoc, ← Nat.cast_succ, zpow_add₀ two_ne_zero, mul_comm, zpow_natCast]
  push_cast at hSelf
  exact mul_lt_mul_of_pos_right hSelf (by positivity)

/-- The leading digit of a larger number is not in a lower place. -/
theorem leading_le (hm : 0 < m) (h : value m e ≤ value m' e') :
    e + m.log2 ≤ e' + m'.log2 := by
  have hBetween := ((leading_le_value hm e).trans h).trans_lt (value_lt_leading m' e')
  have hLt := (zpow_lt_zpow_iff_right₀ one_lt_two).1 hBetween
  omega

/-- Rounding keeps the order. On one place the nearest numbers are in order, and where the places
differ there is a power of two between them. -/
theorem roundedValue_mono (hm : 2 ^ 52 ≤ m) (hm' : 2 ^ 52 ≤ m') (h : value m e ≤ value m' e') :
    roundedValue m e ≤ roundedValue m' e' := by
  have hLeading := leading_le (by omega) h
  have hPlace : place m e ≤ place m' e' := by
    unfold place
    omega
  have hRounds : RoundsTo (value m e) (places m e) (place m e) false := by
    have hShift := le_place hm e
    have hSelf := roundsTo_rounded m (place m e - e).toNat e
    rwa [show e + ((place m e - e).toNat : Int) = place m e by omega] at hSelf
  have hRounds' : RoundsTo (value m' e') (places m' e') (place m' e') false := by
    have hShift := le_place hm' e'
    have hSelf := roundsTo_rounded m' (place m' e' - e').toNat e'
    rwa [show e' + ((place m' e' - e').toNat : Int) = place m' e' by omega] at hSelf
  unfold roundedValue
  rcases hPlace.lt_or_eq with hLower | hSame
  · have hMin : -1074 ≤ place m e := le_max_right _ _
    refine value_le_of_lt (places_le m e) (le_places (by omega) (le_place hm' e') ?_) hLower
    unfold place at hLower hMin
    omega
  · rw [hSame] at hRounds ⊢
    refine value_le_of_le ?_ _
    by_contra hLess
    exact absurd h (not_le.2 (hRounds'.lt_of_significand hRounds (not_le.1 hLess)))

/-! ## Order -/

theorem le_iff : x ≤ y ↔ (x.toModel.unpack.compare y.toModel.unpack).any (·.isLE) = true := by
  show decide _ = true ↔ _
  rw [decide_eq_true_iff]
  exact Iff.rfl

theorem lt_iff : x < y ↔ x.toModel.unpack.compare y.toModel.unpack = some .lt := by
  show decide _ = true ↔ _
  rw [decide_eq_true_iff]
  show (_ == _) = true ↔ _
  rw [beq_iff_eq]

theorem le_of_lt (h : x < y) : x ≤ y := by
  rw [le_iff, lt_iff.1 h]
  rfl

/-- Positive doubles are in the order of the numbers that they stand for. -/
theorem value_le_of_unpack {h : 0 < m} {h' : 0 < m'}
    (hx : x.toModel.unpack = .finite .positive m e h)
    (hy : y.toModel.unpack = .finite .positive m' e' h') (hLe : x ≤ y) :
    value m e ≤ value m' e' := by
  have hPlaced := (isPlaced_of_unpack hx).1
  have hPlaced' := (isPlaced_of_unpack hy).1
  rw [le_iff, hx, hy] at hLe
  change ((compare e e').then (compare m m')).isLE = true at hLe
  rw [Ordering.isLE_then_iff_or, Std.compare_eq_lt, Std.compare_eq_iff_eq, Std.isLE_compare] at hLe
  rcases hLe with hLower | ⟨rfl, hSignificand⟩
  · have hLowest := hPlaced.lowest
    exact value_le_of_lt hPlaced.significand.le (hPlaced'.normal (by omega)) hLower
  · exact value_le_of_le hSignificand e

/-- Whether a double is infinite or a number, and larger than zero. -/
def IsPositive (x : Float) : Prop :=
  x.toModel.unpack = .infinity .positive ∨
    ∃ m e h, x.toModel.unpack = .finite .positive m e h

/-- What is not below a positive double is positive. -/
theorem IsPositive.of_le (hx : IsPositive x) (hLe : x ≤ y) : IsPositive y := by
  rw [le_iff] at hLe
  cases hy : y.toModel.unpack with
  | infinity sign =>
    cases sign with
    | positive => exact .inl hy
    | negative => rcases hx with hx | ⟨m, e, h, hx⟩ <;> rw [hx, hy] at hLe <;> cases hLe
  | finite sign m' e' h' =>
    cases sign with
    | positive => exact .inr ⟨m', e', h', hy⟩
    | negative => rcases hx with hx | ⟨m, e, h, hx⟩ <;> rw [hx, hy] at hLe <;> cases hLe
  | notANumber | zero sign =>
    rcases hx with hx | ⟨m, e, h, hx⟩ <;> rw [hx, hy] at hLe <;> cases hLe

/-! ## Whole numbers -/

/-- Cutting a positive number off at the point. -/
theorem roundToInt_positive (m : Nat) (e : Int) :
    roundToInt .positive m e = (⌊value m e⌋₊ : Int) := by
  show ((ExtendedMantissa.ofMantissaAndAccuracy (m <<< (e - 0).toNat) .exact >>>
    (0 - (e - (e - 0).toNat)).toNat).mantissa : Int) = _
  rw [mantissa_shifted, Nat.shiftLeft_eq, Nat.cast_inj]
  rcases Int.le_total 0 e with hPos | hNeg
  · obtain ⟨n, rfl⟩ := Int.eq_ofNat_of_zero_le hPos
    have hValue : value m n = ((m * 2 ^ n : Nat) : ℚ) := by
      rw [value, zpow_natCast]
      push_cast
      rfl
    rw [hValue, Nat.floor_natCast]
    simp
  · obtain ⟨n, hn⟩ := Int.eq_ofNat_of_zero_le (Int.neg_nonneg.2 hNeg)
    obtain rfl : e = -n := by omega
    have hValue : value m (-n) = (m : ℚ) / ((2 ^ n : Nat) : ℚ) := by
      rw [value, zpow_neg, zpow_natCast]
      push_cast
      rfl
    rw [hValue, Nat.floor_div_eq_div]
    simp

/-- The word that a positive number is cut off to. -/
theorem toNat_toUInt32_finite (h : 0 < m) :
    (UnpackedFloat.finite .positive m e h).toUInt32.toNat = min ⌊value m e⌋₊ (2 ^ 32 - 1) := by
  show (UInt32.ofNatClamp (roundToInt .positive m e).toNat).toNat = _
  rw [roundToInt_positive, Int.toNat_natCast, UInt32.ofNatClamp]
  split
  · next hLt =>
    have hLt' : ⌊value m e⌋₊ < 2 ^ 32 := hLt
    rw [UInt32.toNat_ofNatLT]
    omega
  · next hGe =>
    have hGe' : ¬⌊value m e⌋₊ < 2 ^ 32 := hGe
    show 2 ^ 32 - 1 = _
    omega

/-- Nothing is left of a negative number. -/
theorem toNat_toUInt32_negative (h : 0 < m) :
    (UnpackedFloat.finite .negative m e h).toUInt32.toNat = 0 := by
  have hNone : (roundToInt .negative m e).toNat = 0 := by
    have hSign : roundToInt .negative m e = -roundToInt .positive m e := rfl
    rw [hSign, roundToInt_positive]
    omega
  show (UInt32.ofNatClamp (roundToInt .negative m e).toNat).toNat = 0
  rw [hNone]
  rfl

theorem value_lt_one {n : Nat} (hm : m < 2 ^ n) (he : e + n ≤ 0) : value m e < 1 := by
  have hLess : (m : ℚ) < 2 ^ n := by exact_mod_cast hm
  calc value m e < 2 ^ n * 2 ^ e := mul_lt_mul_of_pos_right hLess (by positivity)
    _ = 2 ^ (e + n) := by rw [zpow_add₀ two_ne_zero, zpow_natCast, mul_comm]
    _ ≤ 1 := zpow_le_one_of_nonpos₀ one_le_two he

/-- Nothing is left of a number below one. -/
theorem toUInt32_eq_zero_of_lt_one (h : x < 1) : x.toUInt32.toNat = 0 := by
  have hOne : (1 : Float).toModel.unpack = .finite .positive (2 ^ 52) (-52) (by decide) := rfl
  show x.toModel.unpack.toUInt32.toNat = 0
  rw [lt_iff, hOne] at h
  cases hx : x.toModel.unpack with
  | notANumber => rfl
  | zero sign => rfl
  | infinity sign =>
    rw [hx] at h
    cases sign with
    | positive => cases h
    | negative => rfl
  | finite sign m e hm =>
    cases sign with
    | negative => exact toNat_toUInt32_negative hm
    | positive =>
      rw [hx] at h
      have hOrder : (compare e (-52)).then (compare m (2 ^ 52)) = .lt := Option.some.inj h
      rw [Ordering.then_eq_lt, Std.compare_eq_lt, Std.compare_eq_iff_eq, Std.compare_eq_lt]
        at hOrder
      have hBelow : value m e < 1 := by
        rcases hOrder with hLower | ⟨rfl, hLess⟩
        · exact value_lt_one (isPlaced_of_unpack hx).1.significand (by omega)
        · exact value_lt_one hLess (by decide)
      rw [toNat_toUInt32_finite, Nat.floor_eq_zero.2 hBelow, Nat.zero_min]

end FeatureFlags.Decimal
