import FeatureFlags.Json.Number
import Mathlib

/-!
# How far rounding goes up

A double that is the nearest one to a number of normal size is larger than that number by at most
one part in `2 ^ 53`. Three roundings go into the reading of a decimal: one of the significand, one
of the power of ten and one of their product; so the product of a significand and a power of ten
overflows only if it is within three such parts of `2 ^ 1024`.

* `rounded_nearest` — what is cut off is at most half a place.
* `roundWithAccuracy_isRounded` — what one rounding does.
* `roundWithAccuracy_normal` — what it does to a number of normal size.
* `isWithin_toFloat`, `isWithin_powerOfTen` — the two factors.
* `isWithin_mul`, `isInf_eq_false_of_isWithin` — their product is finite.
-/

namespace FeatureFlags.Decimal

open Float.Model (Format UnpackedFloat)
open Float.Model.UnpackedFloat

/-! ## Shifting a mantissa -/

theorem mantissa_shiftRight (em : ExtendedMantissa) (k : Nat) :
    (em >>> k).mantissa = em.mantissa / 2 ^ k := by
  induction k with
  | zero =>
    rw [Nat.pow_zero, Nat.div_one]
    rfl
  | succ k ih =>
    show (em >>> k).mantissa / 2 = _
    rw [ih, Nat.div_div_eq_div_mul, Nat.pow_succ]

/-- The mantissa left after dropping `k` bits, to the nearest. -/
def rounded (m k : Nat) : Nat :=
  (ExtendedMantissa.ofMantissaAndAccuracy m .exact >>> k).roundedMantissa

theorem mantissa_shifted (m k : Nat) :
    (ExtendedMantissa.ofMantissaAndAccuracy m .exact >>> k).mantissa = m / 2 ^ k :=
  mantissa_shiftRight _ k

/-- The bits that are cut off, in two parts: the first one, and whether there is any other. -/
theorem shiftRight_succ (m k : Nat) :
    ExtendedMantissa.ofMantissaAndAccuracy m .exact >>> (k + 1) =
      ⟨m / 2 ^ (k + 1), m / 2 ^ k % 2 != 0, decide (0 < m % 2 ^ k)⟩ := by
  induction k with
  | zero =>
    show ExtendedMantissa.mk (m / 2) (m % 2 != 0) false = _
    simp [Nat.mod_one]
  | succ k ih =>
    have hStep : ExtendedMantissa.ofMantissaAndAccuracy m .exact >>> (k + 1 + 1) =
        (ExtendedMantissa.ofMantissaAndAccuracy m .exact >>> (k + 1)).shiftRightOne := rfl
    have hMod : m % 2 ^ (k + 1) = m % 2 ^ k + 2 ^ k * (m / 2 ^ k % 2) := Nat.mod_pow_succ
    have hTwo : m / 2 ^ k % 2 = 0 ∨ m / 2 ^ k % 2 = 1 := by omega
    rw [hStep, ih, ExtendedMantissa.shiftRightOne, Nat.div_div_eq_div_mul, ← Nat.pow_succ, hMod]
    rcases hTwo with hBit | hBit
    · simp [hBit]
    · simp [hBit]

/-- Less than half a place is cut off, more than half a place is filled up, and half a place goes to
the even neighbour. -/
theorem rounded_succ (m k : Nat) :
    rounded m (k + 1) =
      if m / 2 ^ k % 2 = 0 then m / 2 ^ (k + 1)
      else if m % 2 ^ k = 0 then m / 2 ^ (k + 1) + m / 2 ^ (k + 1) % 2
      else m / 2 ^ (k + 1) + 1 := by
  rw [rounded, shiftRight_succ]
  by_cases hRound : m / 2 ^ k % 2 = 0
  · rw [if_pos hRound, hRound]
    by_cases hRest : m % 2 ^ k = 0
    · rw [hRest]
      rfl
    · rw [decide_eq_true (Nat.pos_of_ne_zero hRest)]
      rfl
  · have hBit : (m / 2 ^ k % 2 != 0) = true := by simpa using hRound
    rw [if_neg hRound, hBit]
    by_cases hRest : m % 2 ^ k = 0
    · rw [if_pos hRest, hRest]
      rfl
    · rw [if_neg hRest, decide_eq_true (Nat.pos_of_ne_zero hRest)]
      rfl

/-- What is rounded is at most half a place away, and less than that from an odd number of
places. -/
theorem rounded_nearest (m k : Nat) :
    2 * (rounded m k * 2 ^ k) ≤ 2 * m + 2 ^ k ∧ 2 * m ≤ 2 * (rounded m k * 2 ^ k) + 2 ^ k ∧
    (rounded m k % 2 = 1 →
      2 * (rounded m k * 2 ^ k) < 2 * m + 2 ^ k ∧ 2 * m < 2 * (rounded m k * 2 ^ k) + 2 ^ k) := by
  cases k with
  | zero =>
    have hSelf : rounded m 0 = m := rfl
    rw [hSelf]
    omega
  | succ k =>
    -- the number is made of what is left, the first bit that is cut off and the other ones
    have hRest : m % 2 ^ k < 2 ^ k := Nat.mod_lt _ (Nat.two_pow_pos k)
    have hParts : m / 2 ^ (k + 1) * 2 ^ k * 2 + m / 2 ^ k % 2 * 2 ^ k + m % 2 ^ k = m := by
      have hHalf : m / 2 ^ k = m / 2 ^ (k + 1) * 2 + m / 2 ^ k % 2 := by
        rw [Nat.pow_succ, ← Nat.div_div_eq_div_mul]
        omega
      have hAll : m / 2 ^ k * 2 ^ k + m % 2 ^ k = m := Nat.div_add_mod' m (2 ^ k)
      rw [hHalf] at hAll
      linarith
    have hUp : (m / 2 ^ (k + 1) + 1) * (2 ^ k * 2) =
        m / 2 ^ (k + 1) * 2 ^ k * 2 + 2 ^ k * 2 := by ring
    have hDown : m / 2 ^ (k + 1) * (2 ^ k * 2) = m / 2 ^ (k + 1) * 2 ^ k * 2 := by ring
    rw [rounded_succ, Nat.pow_succ 2 k]
    rw [Nat.pow_succ 2 k] at hParts hUp hDown
    rcases Nat.mod_two_eq_zero_or_one (m / 2 ^ k) with hBit | hBit
    · rw [hBit] at hParts
      rw [if_pos hBit, hDown]
      omega
    · rw [hBit] at hParts
      rw [if_neg (by omega)]
      split
      · rcases Nat.mod_two_eq_zero_or_one (m / (2 ^ k * 2)) with hEven | hOdd
        · rw [hEven, Nat.add_zero, hDown]
          omega
        · rw [hOdd, hUp]
          omega
      · rw [hUp]
        omega

/-- What is left when `k` bits are cut off, and one more if that is rounded up. -/
theorem rounded_bounds (m k : Nat) : m / 2 ^ k ≤ rounded m k ∧ rounded m k ≤ m / 2 ^ k + 1 := by
  cases k with
  | zero =>
    have hSelf : rounded m 0 = m := rfl
    rw [hSelf, Nat.pow_zero, Nat.div_one]
    omega
  | succ k =>
    rw [rounded_succ]
    split
    · omega
    · split
      · omega
      · omega

/-! ## The numbers that are meant -/

/-- The number that a mantissa and an exponent stand for. -/
def value (m : Nat) (e : Int) : ℚ :=
  m * 2 ^ e

/-! ## Places -/

/-- Whether a significand and an exponent are of the form that doubles have, with no upper limit on
the exponent. -/
structure IsPlaced (m : Nat) (e : Int) : Prop where
  significand : m < 2 ^ 53
  lowest : -1074 ≤ e
  normal : -1074 < e → 2 ^ 52 ≤ m

/-- The place to which a number is rounded. -/
def place (m : Nat) (e : Int) : Int :=
  max (e + m.log2 - 52) (-1074)

/-- How many of these places it is rounded to. -/
def places (m : Nat) (e : Int) : Nat :=
  rounded m (place m e - e).toNat

/-- What comes out when a number is rounded. -/
def roundedValue (m : Nat) (e : Int) : ℚ :=
  value (places m e) (place m e)

theorem log2_le_of_lt {n b : Nat} (h : n < 2 ^ (b + 1)) : n.log2 ≤ b := by
  by_cases hZero : n = 0
  · rw [hZero]
    exact Nat.zero_le b
  · exact Nat.le_of_lt_succ ((Nat.log2_lt hZero).2 h)

/-- A significand of at least 53 digits is shifted to the place that it is rounded to. -/
theorem le_place {m : Nat} (hm : 2 ^ 52 ≤ m) (e : Int) : e ≤ place m e := by
  have hLog : 52 ≤ m.log2 := (Nat.le_log2 (by omega)).2 hm
  unfold place
  omega

theorem places_le (m : Nat) (e : Int) : places m e ≤ 2 ^ 53 := by
  obtain ⟨-, hUp⟩ := rounded_bounds m (place m e - e).toNat
  have hLt : m / 2 ^ (place m e - e).toNat < 2 ^ 53 := by
    rw [Nat.div_lt_iff_lt_mul (Nat.two_pow_pos _), ← Nat.pow_add]
    refine Nat.lt_of_lt_of_le Nat.lt_log2_self (Nat.pow_le_pow_right (by decide) ?_)
    unfold place
    omega
  unfold places
  omega

/-- Of a number of normal size nothing but the last digits is cut off. -/
theorem le_places {m : Nat} {e : Int} (hPos : 0 < m) (hShift : e ≤ place m e)
    (h : -1022 ≤ e + m.log2) : 2 ^ 52 ≤ places m e := by
  obtain ⟨hLow, -⟩ := rounded_bounds m (place m e - e).toNat
  have hLe : 2 ^ 52 ≤ m / 2 ^ (place m e - e).toNat := by
    rw [Nat.le_div_iff_mul_le (Nat.two_pow_pos _), ← Nat.pow_add]
    refine Nat.le_trans (Nat.pow_le_pow_right (by decide) ?_) (Nat.log2_self_le (by omega))
    unfold place at hShift ⊢
    omega
  exact Nat.le_trans hLe hLow

/-! ## One rounding -/

theorem shiftToTargetExponent_eq {m : Nat} {e : Int} {k : Nat} (accuracy : Accuracy)
    (hk : (max ((m.log2 : Int) + 1 + e - 53) (-1074) - e).toNat = k) :
    shiftToTargetExponent Format.binary64 m e accuracy =
      (ExtendedMantissa.ofMantissaAndAccuracy m accuracy >>> k, e + k) := by
  subst hk
  rfl

/-- Rounding drops `k` bits, and `j` more from what that leaves. -/
theorem roundWithAccuracy_of_shift (sign : Sign) {e : Int} {m k j : Nat}
    (hFirst : shiftToTargetExponent Format.binary64 m e .exact =
      (ExtendedMantissa.ofMantissaAndAccuracy m .exact >>> k, e + k))
    (hSecond : shiftToTargetExponent Format.binary64 (rounded m k) (e + k) .exact =
      (ExtendedMantissa.ofMantissaAndAccuracy (rounded m k) .exact >>> j, e + k + j)) :
    roundWithAccuracy Format.binary64 sign m e .exact =
      if h : rounded m k / 2 ^ j = 0 then .zero sign
      else .finite sign (rounded m k / 2 ^ j) (e + k + j) (Nat.pos_of_ne_zero h) := by
  unfold roundWithAccuracy
  -- the code rounds twice, the second time what the first time has left
  rw [hFirst]
  show (match shiftToTargetExponent Format.binary64 (rounded m k) (e + k) .exact with
    | (em, e) => if h : em.mantissa = 0 then UnpackedFloat.zero sign
      else .finite sign em.mantissa e (Nat.pos_of_ne_zero h)) = _
  rw [hSecond]
  show (if h : (ExtendedMantissa.ofMantissaAndAccuracy (rounded m k) .exact >>> j).mantissa = 0
    then UnpackedFloat.zero sign
    else .finite sign _ (e + k + j) (Nat.pos_of_ne_zero h)) = _
  simp only [mantissa_shifted]

/-- Whether a significand and an exponent are what a number is rounded to. -/
structure IsRounded (m : Nat) (e : Int) (m' : Nat) (e' : Int) : Prop where
  placed : IsPlaced m' e'
  full : 2 ^ 52 ≤ places m e → 2 ^ 52 ≤ m'
  exponent : place m e ≤ e'
  value_eq : value m' e' = roundedValue m e

/-- A number is rounded to zero, or to a significand and an exponent of the form that doubles
have. -/
theorem roundWithAccuracy_isRounded (sign : Sign) {m : Nat} {e : Int} (hPos : 0 < m)
    (hShift : e ≤ place m e) :
    (places m e = 0 ∧ roundWithAccuracy Format.binary64 sign m e .exact = .zero sign) ∨
    ∃ m' e' h, roundWithAccuracy Format.binary64 sign m e .exact = .finite sign m' e' h ∧
      IsRounded m e m' e' := by
  obtain ⟨k, hk⟩ : ∃ k : Nat, (place m e - e).toNat = k := ⟨_, rfl⟩
  have hPlace : e + k = place m e := by omega
  have hPlaces : places m e = rounded m k := by rw [places, hk]
  have hFirst : shiftToTargetExponent Format.binary64 m e .exact =
      (ExtendedMantissa.ofMantissaAndAccuracy m .exact >>> k, e + k) := by
    apply shiftToTargetExponent_eq
    unfold place at hk
    omega
  have hMin : -1074 ≤ place m e := le_max_right _ _
  have hNormal : -1074 < place m e → 2 ^ 52 ≤ places m e := by
    intro hAbove
    apply le_places hPos hShift
    unfold place at hAbove
    omega
  by_cases hFull : places m e < 2 ^ 53
  · -- what is left fits, and nothing more is dropped
    have hLog : (places m e).log2 ≤ 52 := log2_le_of_lt hFull
    have hLog' : -1074 < place m e → 52 ≤ (places m e).log2 := by
      intro hAbove
      have hLow := hNormal hAbove
      exact (Nat.le_log2 (by omega)).2 hLow
    have hSecond : shiftToTargetExponent Format.binary64 (rounded m k) (e + k) .exact =
        (ExtendedMantissa.ofMantissaAndAccuracy (rounded m k) .exact >>> 0, e + k + (0 : Nat)) := by
      apply shiftToTargetExponent_eq
      rw [← hPlaces, hPlace]
      omega
    have hRounds := roundWithAccuracy_of_shift sign hFirst hSecond
    simp only [Nat.pow_zero, Nat.div_one, Int.natCast_zero, Int.add_zero, ← hPlaces, hPlace]
      at hRounds
    rw [hRounds]
    split
    · next hZero => exact .inl ⟨hZero, rfl⟩
    · next hNe =>
      exact .inr ⟨_, _, Nat.pos_of_ne_zero hNe, rfl, ⟨hFull, hMin, hNormal⟩, id, le_refl _, rfl⟩
  · -- rounding up has filled the next bit, and one more bit is dropped
    have hTop : places m e = 2 ^ 53 := by
      have hAtMost := places_le m e
      omega
    have hLog : (places m e).log2 = 53 := by
      rw [hTop]
      exact Nat.log2_two_pow
    have hSecond : shiftToTargetExponent Format.binary64 (rounded m k) (e + k) .exact =
        (ExtendedMantissa.ofMantissaAndAccuracy (rounded m k) .exact >>> 1, e + k + (1 : Nat)) := by
      apply shiftToTargetExponent_eq
      rw [← hPlaces, hPlace]
      omega
    have hRounds := roundWithAccuracy_of_shift sign hFirst hSecond
    rw [← hPlaces, hTop, hPlace, dif_neg (by decide)] at hRounds
    refine .inr ⟨_, _, _, hRounds, ⟨by decide, by omega, fun _ => by decide⟩, fun _ => by decide,
      by omega, ?_⟩
    rw [roundedValue, hTop, value, value, zpow_add₀ two_ne_zero]
    norm_num
    ring

/-! ## Hardly upwards -/

/-- What a number of normal size is multiplied by at most when it is rounded. -/
def slack : ℚ :=
  1 + 1 / 2 ^ 53

theorem roundedValue_le {m : Nat} {e : Int} (hm : 2 ^ 52 ≤ m) (hMin : -1022 ≤ e + m.log2) :
    roundedValue m e ≤ value m e * slack := by
  obtain ⟨k, hk⟩ : ∃ k : Nat, (place m e - e).toNat = k := ⟨_, rfl⟩
  have hPlace : place m e = e + k := by
    have hLe := le_place hm e
    omega
  obtain ⟨hBound, -⟩ := rounded_nearest m k
  have hBits : 2 ^ 52 * 2 ^ k ≤ m := by
    rw [← Nat.pow_add]
    refine Nat.le_trans (Nat.pow_le_pow_right (by decide) ?_) (Nat.log2_self_le (by omega))
    unfold place at hk
    have hLog : 52 ≤ m.log2 := (Nat.le_log2 (by omega)).2 hm
    omega
  have hBound' : 2 * ((rounded m k : ℚ) * 2 ^ k) ≤ 2 * m + 2 ^ k := by exact_mod_cast hBound
  have hBits' : (2 : ℚ) ^ 52 * 2 ^ k ≤ m := by exact_mod_cast hBits
  -- half a unit is small against a mantissa of 53 bits
  have hSum : (rounded m k : ℚ) * 2 ^ k ≤ m * slack := by
    unfold slack
    linarith
  have hPow : (0 : ℚ) ≤ 2 ^ e := by positivity
  calc roundedValue m e
      = (rounded m k : ℚ) * 2 ^ k * 2 ^ e := by
        rw [roundedValue, places, hk, hPlace, value, zpow_add₀ two_ne_zero, zpow_natCast]
        ring
    _ ≤ m * slack * 2 ^ e := mul_le_mul_of_nonneg_right hSum hPow
    _ = value m e * slack := by
        rw [value]
        ring

/-- A number of normal size is rounded to a mantissa of 53 bits, and hardly upwards. -/
theorem roundWithAccuracy_normal (sign : Sign) (e : Int) {m : Nat} (hm : 2 ^ 52 ≤ m)
    (hMin : -1022 ≤ e + m.log2) :
    ∃ (m' : Nat) (e' : Int) (h : 0 < m'),
      roundWithAccuracy Format.binary64 sign m e .exact = .finite sign m' e' h ∧
      2 ^ 52 ≤ m' ∧ m' < 2 ^ 53 ∧ e + m.log2 ≤ e' + 52 ∧ value m' e' ≤ value m e * slack := by
  have hPos : 0 < m := by omega
  have hFull := le_places hPos (le_place hm e) hMin
  rcases roundWithAccuracy_isRounded sign hPos (le_place hm e) with
    ⟨hZero, -⟩ | ⟨m', e', h, hEq, hRounded⟩
  · omega
  · have hPlace : e + m.log2 - 52 ≤ place m e := le_max_left _ _
    have hExponent := hRounded.exponent
    refine ⟨m', e', h, hEq, hRounded.full hFull, hRounded.placed.significand, by omega, ?_⟩
    rw [hRounded.value_eq]
    exact roundedValue_le hm hMin

/-! ## Bits and back -/

/-- A mantissa of 53 bits and an exponent in range survive packing. -/
theorem unpack_pack_normal {sign : Sign} {m : Nat} {e : Int} (h : 0 < m) (hLow : 2 ^ 52 ≤ m)
    (hHigh : m < 2 ^ 53) (hMin : -1074 ≤ e) (hMax : e ≤ 971) :
    unpack Format.binary64 (pack Format.binary64 (.finite sign m e h)) = .finite sign m e h := by
  obtain ⟨b, hb⟩ : ∃ b : Nat, e + 1075 = b := ⟨(e + 1075).toNat, by omega⟩
  -- `b` is the biased exponent, neither that of zero nor that of infinity
  have hBiased : (e + (1023 : Nat) + (52 : Nat)).toNat = b := by omega
  have hLog : m.log2 = 52 := by
    have hLe : 52 ≤ m.log2 := (Nat.le_log2 (by omega)).2 hLow
    have hLt : m.log2 < 53 := (Nat.log2_lt (by omega)).2 hHigh
    omega
  have hPack : pack Format.binary64 (.finite sign m e h) =
      packComponents Format.binary64 sign (BitVec.ofNat 11 b) (BitVec.ofNat 52 m) := by
    show (if 2 ^ 11 ≤ (e + (1023 : Nat) + (52 : Nat)).toNat + 1 then _
      else if m.log2 + 1 = 53 then
        packComponents Format.binary64 sign
          (BitVec.ofNat 11 (e + (1023 : Nat) + (52 : Nat)).toNat) (BitVec.ofNat 52 m)
      else _) = _
    rw [hBiased, if_neg (by omega), hLog, if_pos rfl]
  have hExponent : (BitVec.ofNat 11 b).toNat = b := by
    rw [BitVec.toNat_ofNat, Nat.mod_eq_of_lt (by omega)]
  have hNotOnes : BitVec.ofNat 11 b ≠ -1#11 := by
    intro hEq
    rw [hEq] at hExponent
    have hOnes : (-1#11).toNat = 2047 := by decide
    omega
  have hNotZero : BitVec.ofNat 11 b ≠ 0#11 := by
    intro hEq
    rw [hEq] at hExponent
    have hZero : (0#11).toNat = 0 := by decide
    omega
  -- the leading bit is not stored but put back when it is unpacked
  have hMantissa : (1#1 ++ BitVec.ofNat 52 m).toNat = m := by
    have hDiv : m / 2 ^ 52 = 1 := by omega
    have hMod : 2 ^ 52 * (m / 2 ^ 52) + m % 2 ^ 52 = m := Nat.div_add_mod m (2 ^ 52)
    rw [BitVec.toNat_append, ← Nat.shiftLeft_add_eq_or_of_lt (BitVec.isLt _), BitVec.toNat_ofNat,
      BitVec.toNat_ofNat, Nat.shiftLeft_eq]
    omega
  rw [hPack]
  unfold unpack
  simp only [unpackMantissa_packComponents, unpackExponent_packComponents,
    unpackSign_packComponents, Sign.ofBitVec_toBitVec, hNotOnes, hNotZero, if_false, hExponent,
    hMantissa]
  congr 1
  have hBias : (Format.binary64.exponentBias : Int) = 1023 := rfl
  omega

/-- Without its leading digit a significand is packed as it is. -/
theorem unpack_pack_subnormal {sign : Sign} {m : Nat} (h : 0 < m) (hHigh : m < 2 ^ 52) :
    unpack Format.binary64 (pack Format.binary64 (.finite sign m (-1074) h)) =
      .finite sign m (-1074) h := by
  have hLog : m.log2 < 52 := (Nat.log2_lt (by omega)).2 hHigh
  have hPack : pack Format.binary64 (.finite sign m (-1074) h) =
      packComponents Format.binary64 sign 0#11 (BitVec.ofNat 52 m) := by
    show (if 2 ^ 11 ≤ 1 + 1 then packedInfinity Format.binary64 sign
      else if m.log2 + 1 = 53 then
        packComponents Format.binary64 sign (BitVec.ofNat 11 1) (BitVec.ofNat 52 m)
      else packComponents Format.binary64 sign 0#11 (BitVec.ofNat 52 m)) = _
    rw [if_neg (by decide), if_neg (by omega)]
  have hMantissa : (BitVec.ofNat 52 m).toNat = m := by
    rw [BitVec.toNat_ofNat, Nat.mod_eq_of_lt hHigh]
  have hNotZero : BitVec.ofNat 52 m ≠ 0#52 := by
    intro hEq
    rw [hEq] at hMantissa
    have hZero : (0#52).toNat = 0 := by decide
    omega
  have hNotOnes : (0#11) ≠ -1#11 := by decide
  rw [hPack]
  unfold unpack
  simp only [unpackMantissa_packComponents, unpackExponent_packComponents,
    unpackSign_packComponents, Sign.ofBitVec_toBitVec, hNotOnes, hNotZero, if_false, if_true,
    hMantissa]
  rfl

/-- What has the form of a double is one, if its exponent is not too large. -/
theorem unpack_pack_placed {sign : Sign} {m : Nat} {e : Int} (h : 0 < m) (hPlaced : IsPlaced m e)
    (hMax : e ≤ 971) :
    unpack Format.binary64 (pack Format.binary64 (.finite sign m e h)) = .finite sign m e h := by
  by_cases hNormal : 2 ^ 52 ≤ m
  · exact unpack_pack_normal h hNormal hPlaced.significand hPlaced.lowest hMax
  · have hLowest : e = -1074 := by
      have hMin := hPlaced.lowest
      have hAbove := hPlaced.normal
      omega
    subst hLowest
    exact unpack_pack_subnormal h (by omega)

/-! ## Limits -/

/-- Whether a double is a positive one of normal size, not smaller than one and not above `v`. -/
def IsWithin (x : Float) (v : ℚ) : Prop :=
  ∃ (m : Nat) (e : Int) (h : 0 < m), x.toModel.unpack = .finite .positive m e h ∧
    2 ^ 52 ≤ m ∧ -52 ≤ e ∧ value m e ≤ v

/-- An exponent from which on a mantissa of 53 bits is worth `2 ^ 1024` or more. -/
theorem exponent_le_of_value_lt {m : Nat} {e : Int} (hLow : 2 ^ 52 ≤ m)
    (h : value m e < 2 ^ 1024) : e ≤ 971 := by
  by_contra hLarge
  have hPow : (2 : ℚ) ^ (972 : Int) ≤ 2 ^ e := zpow_le_zpow_right₀ one_le_two (by omega)
  have hLow' : (2 : ℚ) ^ 52 ≤ m := by exact_mod_cast hLow
  have hAll : (2 : ℚ) ^ 52 * 2 ^ (972 : Int) ≤ value m e :=
    mul_le_mul hLow' hPow (by positivity) (by positivity)
  -- the least mantissa of that exponent is `2 ^ 1024` already
  have hEq : (2 : ℚ) ^ 52 * 2 ^ (972 : Int) = 2 ^ 1024 := by
    rw [← zpow_natCast, ← zpow_natCast, ← zpow_add₀ two_ne_zero]
    norm_num
  rw [hEq] at hAll
  exact absurd h (not_lt.2 hAll)

/-! ## Operations on doubles -/

theorem value_nonneg (m : Nat) (e : Int) : 0 ≤ value m e := by
  unfold value
  positivity

/-- A rounded number stays within what it is rounded from and the slack. -/
theorem isWithin_of_round {x : Float} {m : Nat} {e : Int} {v : ℚ}
    (hx : x.toModel = Float.Model.pack (roundWithAccuracy Format.binary64 .positive m e .exact))
    (hm : 2 ^ 52 ≤ m) (hOne : 0 ≤ e + m.log2) (hValue : value m e * slack ≤ v)
    (hMax : v < 2 ^ 1024) : IsWithin x v := by
  obtain ⟨m', e', h, hEq, hLow, hHigh, hMin, hUp⟩ :=
    roundWithAccuracy_normal .positive e hm (by omega)
  have hLt : value m' e' < 2 ^ 1024 := lt_of_le_of_lt (hUp.trans hValue) hMax
  refine ⟨m', e', h, ?_, hLow, by omega, hUp.trans hValue⟩
  rw [hx, hEq]
  exact unpack_pack_normal h hLow hHigh (by omega) (exponent_le_of_value_lt hLow hLt)

theorem round_positive_eq {m : Nat} (hm : 0 < m) :
    ofNat Format.binary64 m = roundWithAccuracy Format.binary64 .positive (m * 2 ^ (52 - m.log2))
      (-(52 - m.log2 : Nat)) .exact := by
  have hShift : ((0 : Int) - max ((m.log2 : Int) + 1 + 0 - 53) (-1074)).toNat = 52 - m.log2 := by
    omega
  have hCompare : compare (m : Int) 0 = .gt := by
    rw [compare_gt_iff_gt]
    omega
  show (match compare (m : Int) 0 with
    | .lt => round Format.binary64 .negative (-(m : Int)).toNat 0
    | .eq => UnpackedFloat.zero .positive
    | .gt => round Format.binary64 .positive (m : Int).toNat 0) = _
  rw [hCompare]
  show roundWithAccuracy Format.binary64 .positive
    (m <<< ((0 : Int) - max ((m.log2 : Int) + 1 + 0 - 53) (-1074)).toNat)
    (0 - ((0 : Int) - max ((m.log2 : Int) + 1 + 0 - 53) (-1074)).toNat) .exact = _
  -- the shift makes room for 53 bits where there are fewer
  rw [hShift, Nat.shiftLeft_eq, Int.zero_sub]

/-- A small number is shifted first, until it has 53 bits. -/
theorem le_filled {n : Nat} (hPos : 0 < n) : 2 ^ 52 ≤ n * 2 ^ (52 - n.log2) := by
  calc 2 ^ 52 ≤ 2 ^ (n.log2 + (52 - n.log2)) := Nat.pow_le_pow_right (by omega) (by omega)
    _ = 2 ^ n.log2 * 2 ^ (52 - n.log2) := Nat.pow_add ..
    _ ≤ n * 2 ^ (52 - n.log2) := Nat.mul_le_mul_right _ (Nat.log2_self_le (by omega))

theorem value_filled (n : Nat) : value (n * 2 ^ (52 - n.log2)) (-(52 - n.log2 : Nat)) = n := by
  rw [value, Nat.cast_mul, Nat.cast_pow, zpow_neg, zpow_natCast]
  field_simp
  norm_num

theorem toModel_toFloat {n : Nat} (hPos : 0 < n) (hLt : n < 2 ^ 64) :
    (UInt64.ofNat n).toFloat.toModel = Float.Model.pack (roundWithAccuracy Format.binary64 .positive
      (n * 2 ^ (52 - n.log2)) (-(52 - n.log2 : Nat)) .exact) := by
  have hNat : (UInt64.ofNat n).toNat = n := UInt64.toNat_ofNat_of_lt' hLt
  show Float.Model.pack (ofNat Format.binary64 (UInt64.ofNat n).toNat) = _
  rw [hNat, round_positive_eq hPos]

/-- A whole number of 64 bits becomes a double within its slack. -/
theorem isWithin_toFloat {n : Nat} (hPos : 0 < n) (hLt : n < 2 ^ 64) :
    IsWithin (UInt64.ofNat n).toFloat (n * slack) := by
  have hm := le_filled hPos
  have hLog : 52 ≤ (n * 2 ^ (52 - n.log2)).log2 := (Nat.le_log2 (by omega)).2 hm
  have hLt' : (n : ℚ) < 2 ^ 64 := by exact_mod_cast hLt
  refine isWithin_of_round (toModel_toFloat hPos hLt) hm (by omega)
    (le_of_eq (by rw [value_filled])) ?_
  have hSlack : slack ≤ 2 := by
    unfold slack
    norm_num
  calc (n : ℚ) * slack ≤ 2 ^ 64 * 2 :=
        mul_le_mul hLt'.le hSlack (by unfold slack; positivity) (by positivity)
    _ = 2 ^ 65 := by norm_num
    _ < 2 ^ 1024 := pow_lt_pow_right₀ one_lt_two (by omega)

/-- The powers of ten that are looked up are exact. -/
def isPower (k : Nat) : Bool :=
  match (Json.powerOfTen k).toModel.unpack with
  | .finite .positive m e _ =>
    2 ^ 52 ≤ m && -52 ≤ e && m * 2 ^ (e + 52).toNat ≤ 10 ^ k * 2 ^ 52
  | _ => false

theorem isPower_of_lt : ∀ k : Fin 23, isPower k = true := by
  decide +kernel

theorem isWithin_of_isPower {k : Nat} (h : isPower k = true) :
    IsWithin (Json.powerOfTen k) (10 ^ k) := by
  unfold isPower at h
  split at h
  · next m e hm hUnpack =>
    simp only [Bool.and_eq_true, decide_eq_true_eq] at h
    obtain ⟨⟨hLow, hMin⟩, hUp⟩ := h
    refine ⟨m, e, hm, hUnpack, hLow, hMin, ?_⟩
    -- the exponent is moved up until it is no longer negative
    obtain ⟨d, hd⟩ : ∃ d : Nat, e + 52 = d := ⟨(e + 52).toNat, by omega⟩
    have hUp' : (m : ℚ) * 2 ^ d ≤ 10 ^ k * 2 ^ 52 := by
      rw [hd, Int.toNat_natCast] at hUp
      exact_mod_cast hUp
    have hExp : (2 : ℚ) ^ e = 2 ^ d / 2 ^ 52 := by
      rw [show e = (d : Int) - (52 : Nat) by omega, zpow_sub₀ two_ne_zero, zpow_natCast,
        zpow_natCast]
    rw [value, hExp, ← mul_div_assoc, div_le_iff₀ (by positivity)]
    exact hUp'
  · cases h

/-- A power of ten that is not looked up is rounded from its exact value. -/
theorem toModel_powerOfTen {k : Nat} (hLarge : 23 ≤ k) (hk : k ≤ 308) :
    (Json.powerOfTen k).toModel = Float.Model.pack
      (roundWithAccuracy Format.binary64 .positive (2 ^ 53 * 10 ^ k) (-53) .exact) := by
  have hProduct : ofScientific Format.binary64 1 (k : Int) =
      roundWithAccuracy Format.binary64 .positive (2 ^ 53 * 10 ^ k) (-53) .exact := by
    unfold ofScientific
    rw [dif_neg one_ne_zero, if_neg (by norm_num; omega), if_neg (by norm_num; omega),
      if_pos (Int.natCast_nonneg k)]
    rfl
  rw [← hProduct]
  unfold Json.powerOfTen Float.ofScientific
  rw [dif_neg (by omega)]
  rfl

theorem value_power (k : Nat) : value (2 ^ 53 * 10 ^ k) (-53) = 10 ^ k := by
  rw [value]
  push_cast
  rw [zpow_neg]
  norm_num
  ring

theorem pow_mul_slack_lt {k : Nat} (hk : k ≤ 308) : (10 : ℚ) ^ k * slack < 2 ^ 1024 := by
  have hPow : (10 : ℚ) ^ k ≤ 10 ^ 308 := pow_le_pow_right₀ (by norm_num) hk
  -- the largest power is compared as a whole number
  have hNat : 10 ^ 308 * (2 ^ 53 + 1) < 2 ^ 1024 * 2 ^ 53 := by decide +kernel
  have hRat : (10 : ℚ) ^ 308 * (2 ^ 53 + 1) < 2 ^ 1024 * 2 ^ 53 := by exact_mod_cast hNat
  have hSlack : slack = (2 ^ 53 + 1) / 2 ^ 53 := by
    unfold slack
    norm_num
  calc (10 : ℚ) ^ k * slack ≤ 10 ^ 308 * slack :=
        mul_le_mul_of_nonneg_right hPow (by unfold slack; positivity)
    _ < 2 ^ 1024 := by
        rw [hSlack, ← mul_div_assoc, div_lt_iff₀ (by positivity)]
        exact hRat

/-- The double nearest to a power of ten. -/
theorem isWithin_powerOfTen {k : Nat} (hk : k ≤ 308) :
    IsWithin (Json.powerOfTen k) (10 ^ k * slack) := by
  by_cases hSmall : k < 23
  · obtain ⟨m, e, h, hUnpack, hLow, hMin, hValue⟩ := isWithin_of_isPower (isPower_of_lt ⟨k, hSmall⟩)
    refine ⟨m, e, h, hUnpack, hLow, hMin, hValue.trans ?_⟩
    exact le_mul_of_one_le_right (by positivity) (by unfold slack; norm_num)
  · have hm : 2 ^ 53 ≤ 2 ^ 53 * 10 ^ k := Nat.le_mul_of_pos_right _ (by positivity)
    have hLog : 53 ≤ (2 ^ 53 * 10 ^ k).log2 := (Nat.le_log2 (by positivity)).2 hm
    exact isWithin_of_round (toModel_powerOfTen (by omega) hk) (by omega) (by omega)
      (le_of_eq (by rw [value_power])) (pow_mul_slack_lt hk)

/-- A product of two doubles stays within the product of their limits and the slack. -/
theorem isWithin_mul {x y : Float} {v w : ℚ} (hx : IsWithin x v) (hy : IsWithin y w)
    (hMax : v * w * slack < 2 ^ 1024) : IsWithin (x * y) (v * w * slack) := by
  obtain ⟨m₁, e₁, h₁, hUnpack₁, hLow₁, hMin₁, hValue₁⟩ := hx
  obtain ⟨m₂, e₂, h₂, hUnpack₂, hLow₂, hMin₂, hValue₂⟩ := hy
  -- the product of two mantissas of 53 bits has at least 105 bits
  have hm : 2 ^ 104 ≤ m₁ * m₂ := by
    calc 2 ^ 104 = 2 ^ 52 * 2 ^ 52 := by decide
      _ ≤ m₁ * m₂ := Nat.mul_le_mul hLow₁ hLow₂
  have hLog : 104 ≤ (m₁ * m₂).log2 := (Nat.le_log2 (by omega)).2 hm
  have hProduct : value (m₁ * m₂) (e₁ + e₂) = value m₁ e₁ * value m₂ e₂ := by
    rw [value, value, value, Nat.cast_mul, zpow_add₀ two_ne_zero]
    ring
  have hLe : value (m₁ * m₂) (e₁ + e₂) ≤ v * w := by
    rw [hProduct]
    exact mul_le_mul hValue₁ hValue₂ (value_nonneg ..) ((value_nonneg ..).trans hValue₁)
  refine isWithin_of_round (m := m₁ * m₂) (e := e₁ + e₂) ?_ (by omega) (by omega) ?_ hMax
  · show Float.Model.pack (mul Format.binary64 x.toModel.unpack y.toModel.unpack) = _
    rw [hUnpack₁, hUnpack₂]
    rfl
  · exact mul_le_mul_of_nonneg_right hLe (by unfold slack; positivity)

theorem isInf_eq_false_of_isWithin {x : Float} {v : ℚ} (h : IsWithin x v) : x.isInf = false := by
  obtain ⟨m, e, hm, hUnpack, -⟩ := h
  show x.toModel.unpack.isInf = false
  rw [hUnpack]
  rfl

end FeatureFlags.Decimal
