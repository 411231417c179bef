import FeatureFlags.Proofs.Decimal.Monotone

/-!
# Operations on doubles are exact up to one rounding

What a rational number is rounded to is written down here without any double, and products and
quotients of doubles, whole numbers and powers of ten are shown to be that.

* `nearest` — what a number is rounded to.
* `nearest_value` — the model of doubles rounds to it.
* `isWorth_mul`, `isWorth_div` — products and quotients.
* `isWorth_toFloat`, `isWorth_powerOfTen` — whole numbers and powers of ten.
-/

namespace FeatureFlags.Decimal

open Float.Model (Format UnpackedFloat totalExponent)
open Float.Model.UnpackedFloat

variable {x y : Float} {m n : Nat} {e : Int} {r s : ℚ}

/-! ## The nearest number of places -/

/-- The nearest whole number, the even one of two. -/
def roundEven (r : ℚ) : Int :=
  if Int.fract r < 1 / 2 then ⌊r⌋
  else if 1 / 2 < Int.fract r then ⌊r⌋ + 1
  else ⌊r⌋ + ⌊r⌋ % 2

theorem roundEven_eq {n : Int} (hLow : n - 1 / 2 ≤ r) (hHigh : r ≤ n + 1 / 2)
    (hOdd : n % 2 = 1 → n - 1 / 2 < r ∧ r < n + 1 / 2) : roundEven r = n := by
  unfold roundEven
  -- the number has the whole part before `n`, or it has that of `n`
  by_cases hBelow : r < n
  · have hFloor : ⌊r⌋ = n - 1 := by
      rw [Int.floor_eq_iff]
      push_cast
      exact ⟨by linarith, by linarith⟩
    have hFract : Int.fract r = r - n + 1 := by
      rw [Int.fract, hFloor]
      push_cast
      ring
    rw [hFract, hFloor, if_neg (by linarith)]
    split
    · omega
    · -- half a place below an even number
      have hTie : r ≤ n - 1 / 2 := by linarith
      have hEven : ¬n % 2 = 1 := fun hn => absurd (hOdd hn).1 (not_lt.2 hTie)
      omega
  · have hFloor : ⌊r⌋ = n := by
      rw [Int.floor_eq_iff]
      exact ⟨not_lt.1 hBelow, by linarith⟩
    have hFract : Int.fract r = r - n := by rw [Int.fract, hFloor]
    rw [hFract, hFloor]
    split
    · rfl
    · next hHalf =>
      rw [if_neg (by linarith)]
      have hTie : n + 1 / 2 ≤ r := by linarith
      have hEven : ¬n % 2 = 1 := fun hn => absurd (hOdd hn).2 (not_lt.2 hTie)
      omega

/-- The place to which a number is rounded: as many as a significand has below the first digit, but
none below the last that doubles have. -/
def lastPlace (r : ℚ) : Int :=
  max (Int.log 2 r - 52) (-1074)

/-- What a number that is not negative is rounded to. It is a double unless it is too large for
one. -/
def nearest (r : ℚ) : ℚ :=
  roundEven (r / 2 ^ lastPlace r) * 2 ^ lastPlace r

theorem nearest_zero : nearest 0 = 0 := by
  have hRound : roundEven 0 = 0 := roundEven_eq (by norm_num) (by norm_num) (by norm_num)
  rw [nearest, zero_div, hRound, Int.cast_zero, zero_mul]

/-- What rounds to a number of places is rounded to them. -/
theorem nearest_eq (h : RoundsTo r n (lastPlace r) false) : nearest r = value n (lastPlace r) := by
  obtain ⟨p, hp⟩ : ∃ p, lastPlace r = p := ⟨_, rfl⟩
  rw [hp] at h
  have hPos : (0 : ℚ) < 2 ^ p := by positivity
  have hEnd : lowEnd n false = n - 1 / 2 := rfl
  have hRound : roundEven (r / 2 ^ p) = n := by
    apply roundEven_eq
    · rw [le_div_iff₀ hPos, Int.cast_natCast, ← hEnd]
      exact h.low
    · rw [div_le_iff₀ hPos, Int.cast_natCast]
      exact h.high
    · intro hOdd
      rw [lt_div_iff₀ hPos, div_lt_iff₀ hPos, Int.cast_natCast, ← hEnd]
      exact h.inside (by omega)
  rw [nearest, hp, hRound, value, Int.cast_natCast]

/-- The place of the leading digit. -/
theorem log_eq {l : Int} (hLow : 2 ^ l ≤ r) (hHigh : r < 2 ^ (l + 1)) : Int.log 2 r = l := by
  have hPos : 0 < r := lt_of_lt_of_le (by positivity) hLow
  have hLe : l ≤ Int.log 2 r := (Int.zpow_le_iff_le_log one_lt_two hPos).1 (by exact_mod_cast hLow)
  have hLt : Int.log 2 r < l + 1 :=
    (Int.lt_zpow_iff_log_lt one_lt_two hPos).1 (by exact_mod_cast hHigh)
  omega

theorem lastPlace_value (hm : 0 < m) (e : Int) : lastPlace (value m e) = place m e := by
  rw [lastPlace, log_eq (leading_le_value hm e) (value_lt_leading m e), place]

/-- The model of doubles rounds to the nearest number of places. -/
theorem nearest_value (hm : 0 < m) (hShift : e ≤ place m e) :
    nearest (value m e) = roundedValue m e := by
  have hRounds := roundsTo_rounded m (place m e - e).toNat e
  rw [show e + ((place m e - e).toNat : Int) = place m e by omega, ← lastPlace_value hm] at hRounds
  rw [nearest_eq hRounds, lastPlace_value hm]
  rfl

theorem roundsTo_self (m : Nat) (q : Int) (narrow : Bool) : RoundsTo (value m q) m q narrow := by
  have hPos : (0 : ℚ) < 2 ^ q := by positivity
  have hLow : lowEnd m narrow < m := by
    unfold lowEnd
    split <;> linarith
  exact ⟨mul_le_mul_of_nonneg_right hLow.le hPos.le,
    mul_le_mul_of_nonneg_right (by linarith) hPos.le,
    fun _ => ⟨mul_lt_mul_of_pos_right hLow hPos, mul_lt_mul_of_pos_right (by linarith) hPos⟩⟩

/-- A number with at most 53 digits is left as it is. -/
theorem nearest_of_lt (hm : m < 2 ^ 53) (he : -1074 ≤ e) : nearest (value m e) = value m e := by
  by_cases hZero : m = 0
  · rw [hZero, value, Nat.cast_zero, zero_mul, nearest_zero]
  · have hPos : 0 < m := Nat.pos_of_ne_zero hZero
    have hLog : m.log2 ≤ 52 := log2_le_of_lt hm
    -- it is a whole number of the places to which it is rounded
    obtain ⟨k, hk⟩ : ∃ k : Nat, e = place m e + k :=
      ⟨(e - place m e).toNat, by unfold place; omega⟩
    have hValue : value m e = value (m * 2 ^ k) (lastPlace (value m e)) := by
      rw [lastPlace_value hPos, value, value, Nat.cast_mul, Nat.cast_pow, Nat.cast_ofNat]
      nth_rewrite 1 [hk]
      rw [zpow_add₀ two_ne_zero, zpow_natCast]
      ring
    have hSelf := roundsTo_self (m * 2 ^ k) (lastPlace (value m e)) false
    rw [← hValue] at hSelf
    rw [nearest_eq hSelf, ← hValue]

theorem nearest_natCast (h : n ≤ 2 ^ 53) : nearest n = n := by
  rcases h.lt_or_eq with hLt | rfl
  · have hSelf := nearest_of_lt (e := 0) hLt (by decide)
    rwa [value, zpow_zero, mul_one] at hSelf
  · have hSelf := nearest_of_lt (m := 1) (e := 53) (by decide) (by decide)
    rw [value] at hSelf
    norm_num at hSelf ⊢
    exact hSelf

/-- A power of ten is a power of two with a factor that has at most 53 digits. -/
theorem nearest_pow_ten {k : Nat} (hk : k ≤ 22) : nearest (10 ^ k) = 10 ^ k := by
  have hFive : 5 ^ k < 2 ^ 53 :=
    (Nat.pow_le_pow_right (by decide) hk).trans_lt (show 5 ^ 22 < 2 ^ 53 by decide)
  have hValue : (10 : ℚ) ^ k = value (5 ^ k) k := by
    rw [value, Nat.cast_pow, zpow_natCast, Nat.cast_ofNat, ← mul_pow]
    norm_num
  rw [hValue]
  exact nearest_of_lt hFive (by omega)

theorem RoundsTo.wide {q : Int} {narrow : Bool} (h : RoundsTo r m q narrow) :
    RoundsTo r m q false := by
  have hPos : (0 : ℚ) < 2 ^ q := by positivity
  have hEnds : lowEnd m false * 2 ^ q ≤ lowEnd m narrow * 2 ^ q :=
    mul_le_mul_of_nonneg_right (le_lowEnd m narrow) hPos.le
  exact ⟨hEnds.trans h.low, h.high, fun hOdd =>
    ⟨hEnds.trans_lt (h.inside hOdd).1, (h.inside hOdd).2⟩⟩

/-- Just below a power of two a number is rounded to places that are half as large, but to as many of
them as make up that power. -/
theorem nearest_of_narrow {q : Int} (hMin : -1074 < q) (h : RoundsTo r (2 ^ 52) q true)
    (hBelow : r < 2 ^ 52 * 2 ^ q) : nearest r = value (2 ^ 52) q := by
  have hHalf : (2 : ℚ) ^ q = 2 * 2 ^ (q - 1) := by
    rw [← zpow_one_add₀ two_ne_zero, add_sub_cancel]
  have hPos : (0 : ℚ) < 2 ^ (q - 1) := by positivity
  have hLow := h.low
  rw [lowEnd, hHalf] at hLow
  rw [hHalf] at hBelow
  norm_num at hLow hBelow
  have hLog : Int.log 2 r = q - 1 + 52 := by
    apply log_eq
    · rw [zpow_add₀ two_ne_zero]
      norm_num
      linarith
    · rw [add_assoc, zpow_add₀ two_ne_zero]
      norm_num
      linarith
  have hNext : lastPlace r = q - 1 := by
    unfold lastPlace
    omega
  have hRounds : RoundsTo r (2 ^ 53) (lastPlace r) false := by
    rw [hNext]
    refine ⟨?_, ?_, by norm_num⟩
    · norm_num [lowEnd]
      linarith
    · norm_num
      linarith
  rw [nearest_eq hRounds, hNext, value, value, hHalf]
  norm_num
  ring

/-- A number is rounded to the double that it rounds to. -/
theorem nearest_of_canonical {q : Int} {narrow : Bool} (hr : 0 < r) (h : RoundsTo r m q narrow)
    (hCanonical : IsCanonical m q narrow) : nearest r = value m q := by
  have hPos : (0 : ℚ) < 2 ^ q := by positivity
  have hMin := hCanonical.exponent.1
  have hm : (m : ℚ) + 1 ≤ 2 ^ 53 := by exact_mod_cast hCanonical.significand
  have hHigh : r < 2 ^ (q + 53) := by
    rw [zpow_add₀ two_ne_zero, mul_comm]
    exact h.high.trans_lt (mul_lt_mul_of_pos_right (by norm_num; linarith) hPos)
  have hLog : Int.log 2 r < q + 53 :=
    (Int.lt_zpow_iff_log_lt one_lt_two hr).1 (by exact_mod_cast hHigh)
  by_cases hPlace : lastPlace r = q
  · have hRounds := h.wide
    rw [← hPlace] at hRounds ⊢
    exact nearest_eq hRounds
  · -- the number has its first digit below that of the double
    have hBelow : Int.log 2 r < q + 52 ∧ -1074 < q := by
      unfold lastPlace at hPlace
      omega
    have hLess : r < 2 ^ 52 * 2 ^ q := by
      have hLess := (Int.lt_zpow_iff_log_lt one_lt_two hr).2 hBelow.1
      rw [Nat.cast_ofNat, zpow_add₀ two_ne_zero, mul_comm] at hLess
      exact_mod_cast hLess
    -- only the least significand has numbers below it that round to it
    have hLeast : m = 2 ^ 52 := by
      have hNormal := hCanonical.normal hBelow.2
      by_contra hMore
      have hMore' : (2 : ℚ) ^ 52 + 1 ≤ m := by exact_mod_cast (show 2 ^ 52 + 1 ≤ m by omega)
      have hEnd : (2 : ℚ) ^ 52 * 2 ^ q ≤ lowEnd m narrow * 2 ^ q :=
        mul_le_mul_of_nonneg_right (by linarith [le_lowEnd m narrow]) hPos.le
      linarith [h.low]
    obtain rfl : narrow = true := hCanonical.narrow.2 ⟨hLeast, hBelow.2⟩
    subst hLeast
    exact nearest_of_narrow hBelow.2 h hLess

/-! ## What doubles are worth -/

/-- How large the number is that a double stands for. -/
def Reading.size : Reading → ℚ
  | .finite _ m q _ => value m q
  | .infinity _ | .nan => 0

/-- Whether a double is not negative and worth a number. -/
def IsWorth (x : Float) (r : ℚ) : Prop :=
  x.toModel.unpack = .zero .positive ∧ r = 0 ∨
    ∃ m e h, x.toModel.unpack = .finite .positive m e h ∧ value m e = r

theorem IsWorth.isFinite (h : IsWorth x r) : x.isFinite = true := by
  show x.toModel.unpack.isFinite = true
  rcases h with ⟨hx, -⟩ | ⟨m, e, hm, hx, -⟩
  all_goals
    rw [hx]
    rfl

/-- What is rounded and is not too large for a double is worth the nearest number. -/
theorem isWorth_of_round (hm : 0 < m) (hShift : e ≤ place m e)
    (hx : x.toModel.unpack =
      (Float.Model.pack (roundWithAccuracy Format.binary64 .positive m e .exact)).unpack)
    (hFinite : x.toModel.unpack.isFinite = true) : IsWorth x (nearest (value m e)) := by
  rw [nearest_value hm hShift]
  -- it is rounded to zero, to a double, or to more than the largest of them
  rcases unpack_pack_rounded .positive hm hShift with
    ⟨hZero, hEq⟩ | ⟨m', e', hRounded, ⟨h, hEq⟩ | ⟨-, hEq⟩⟩
  · refine .inl ⟨hx.trans hEq, ?_⟩
    rw [roundedValue, hZero, value, Nat.cast_zero, zero_mul]
  · exact .inr ⟨m', e', h, hx.trans hEq, hRounded.value_eq⟩
  · rw [hx.trans hEq] at hFinite
    cases hFinite

theorem isWorth_of_zero (hx : x.toModel.unpack = (Float.Model.pack (.zero .positive)).unpack)
    (hr : r = 0) : IsWorth x (nearest r) := by
  rw [hr, nearest_zero]
  exact .inl ⟨hx, rfl⟩

/-- A product of doubles is the nearest one to the product of what they are worth. -/
theorem isWorth_mul (hx : IsWorth x r) (hy : IsWorth y s) (hFinite : (x * y).isFinite = true) :
    IsWorth (x * y) (nearest (r * s)) := by
  have hProduct : (x * y).toModel.unpack = (Float.Model.pack
      (mul Format.binary64 x.toModel.unpack y.toModel.unpack)).unpack := rfl
  rcases hx with ⟨hx, rfl⟩ | ⟨m₁, e₁, h₁, hx, rfl⟩
  · rcases hy with ⟨hy, rfl⟩ | ⟨m₂, e₂, h₂, hy, rfl⟩
    all_goals
      rw [hx, hy] at hProduct
      exact isWorth_of_zero hProduct (zero_mul _)
  · rcases hy with ⟨hy, rfl⟩ | ⟨m₂, e₂, h₂, hy, rfl⟩
    · rw [hx, hy] at hProduct
      exact isWorth_of_zero hProduct (mul_zero _)
    · have hPlaced₁ := (isPlaced_of_unpack hx).1
      have hPlaced₂ := (isPlaced_of_unpack hy).1
      have hValue : value m₁ e₁ * value m₂ e₂ = value (m₁ * m₂) (e₁ + e₂) := by
        rw [value, value, value, Nat.cast_mul, zpow_add₀ two_ne_zero]
        ring
      -- a product with a factor of normal size has enough digits, any other is too small for them
      have hShift : e₁ + e₂ ≤ place (m₁ * m₂) (e₁ + e₂) := by
        by_cases hSmall : e₁ + e₂ ≤ -1074
        · exact hSmall.trans (le_max_right _ _)
        · apply le_place
          rcases Int.lt_or_le (-1074) e₁ with hNormal | hLeast
          · exact (hPlaced₁.normal hNormal).trans (Nat.le_mul_of_pos_right _ h₂)
          · exact (hPlaced₂.normal (by omega)).trans (Nat.le_mul_of_pos_left _ h₁)
      rw [hx, hy] at hProduct
      rw [hValue]
      exact isWorth_of_round (Nat.mul_pos h₁ h₂) hShift hProduct hFinite

theorem unpack_neg (x : Float) :
    (-x).toModel.unpack = (Float.Model.pack x.toModel.unpack.neg).unpack :=
  rfl

/-- What a double with a sign stands for. -/
theorem IsWorth.reading (h : IsWorth x r) (negative : Bool) :
    ∃ m q narrow, Reading.of (if negative then -x else x) = .finite negative m q narrow ∧
      value m q = r := by
  rw [reading_eq_ofUnpacked]
  rcases h with ⟨hx, rfl⟩ | ⟨m, e, hm, hx, hr⟩
  · refine ⟨0, -1074, false, ?_, by rw [value, Nat.cast_zero, zero_mul]⟩
    cases negative with
    | false => exact congrArg Reading.ofUnpacked hx
    | true =>
      have hNeg := unpack_neg x
      rw [hx] at hNeg
      exact congrArg Reading.ofUnpacked hNeg
  · refine ⟨m, e, m == 2 ^ 52 && -1074 < e, ?_, hr⟩
    cases negative with
    | false => exact congrArg Reading.ofUnpacked hx
    | true =>
      obtain ⟨hPlaced, hMax⟩ := isPlaced_of_unpack hx
      have hNeg := unpack_neg x
      rw [hx] at hNeg
      exact congrArg Reading.ofUnpacked (hNeg.trans (unpack_pack_placed hm hPlaced hMax))

/-- A double is what its sign and its worth say. -/
theorem IsWorth.eq_iff {negative narrow : Bool} {q : Int} (h : IsWorth y r)
    (hx : Reading.of x = .finite negative m q narrow) :
    (if negative then -y else y) = x ↔ r = value m q := by
  obtain ⟨m', q', narrow', hReading, rfl⟩ := h.reading negative
  constructor
  · intro hEq
    rw [hEq, hx] at hReading
    cases hReading
    rfl
  · intro hValue
    -- two doubles that round to themselves are the same if they are worth the same
    have hSelf := roundsTo_self m' q' narrow'
    rw [hValue] at hSelf
    obtain ⟨rfl, rfl⟩ := hSelf.unique (roundsTo_self m q narrow)
      (isCanonical_of_reading hReading) (isCanonical_of_reading hx)
    exact eq_of_reading hReading hx

/-! ## What decimals are made of -/

/-- A whole number of 64 bits becomes the nearest double. -/
theorem isWorth_toFloat (h : n < 2 ^ 64) : IsWorth (UInt64.ofNat n).toFloat (nearest n) := by
  by_cases hZero : n = 0
  · rw [hZero]
    exact isWorth_of_zero rfl Nat.cast_zero
  · have hPos : 0 < n := Nat.pos_of_ne_zero hZero
    -- it is given zeros behind it until it has as many digits as a significand
    have hFilled := le_filled hPos
    rw [← value_filled n]
    exact isWorth_of_round (by omega) (le_place hFilled _)
      (congrArg Float.Model.unpack (toModel_toFloat hPos h)) (isWithin_toFloat hPos h).isFinite

/-- The powers of ten that are looked up are rounded like all the others. -/
theorem toBits_powerOfTen_of_lt : ∀ k : Fin 23, (Json.powerOfTen k).toModel.toBits =
    (Float.Model.pack
      (roundWithAccuracy Format.binary64 .positive (2 ^ 53 * 10 ^ k.val) (-53) .exact)).toBits := by
  decide +kernel

theorem unpack_powerOfTen {k : Nat} (hk : k ≤ 308) :
    (Json.powerOfTen k).toModel.unpack = (Float.Model.pack
      (roundWithAccuracy Format.binary64 .positive (2 ^ 53 * 10 ^ k) (-53) .exact)).unpack := by
  by_cases hSmall : k < 23
  · unfold Float.Model.unpack
    rw [toBits_powerOfTen_of_lt ⟨k, hSmall⟩]
  · rw [toModel_powerOfTen (by omega) hk]

/-- A power of ten is the nearest double to it. -/
theorem isWorth_powerOfTen {k : Nat} (hk : k ≤ 308) :
    IsWorth (Json.powerOfTen k) (nearest (10 ^ k)) := by
  have hDigits : 2 ^ 53 ≤ 2 ^ 53 * 10 ^ k := Nat.le_mul_of_pos_right _ (by positivity)
  rw [← value_power]
  exact isWorth_of_round (by omega) (le_place (by omega) _) (unpack_powerOfTen hk)
    (isWithin_powerOfTen hk).isFinite

end FeatureFlags.Decimal
