import FeatureFlags.Proofs.Decimal.Quotient
import FeatureFlags.Proofs.Decimal.Range
import FeatureFlags.Proofs.Json.Finite

/-!
# Numbers are read in two roundings

The digits of a written double fit into 64 bits, so that nothing of them is lost before the
significand is rounded. What is read is then said without doubles: `readAs` rounds the significand,
the power of ten and what they make. The digits are the shortest ones that round to the double at
once, and whether they do so in two steps is decided by that.

* `isWorth_assemble` — reading a significand and an exponent.
* `isWorth_float?_write` — reading a decimal that has been written.
* `float?_eq_some_iff` — which doubles come back.
* `float?_of_exact` — those with a short significand and a small power of ten do.
-/

namespace FeatureFlags.Json

open Decimal

variable {significand : Nat} {exponent : Int} {negative : Bool} {d : Finite} {n : Numeral}
  {x y : Float}

/-! ## Two roundings -/

/-- What `significand · 10 ^ exponent` is read as. Both factors are rounded, and then what they
make; the smallest numbers are divided twice, since there is no such large power of ten. -/
def readAs (significand : Nat) (exponent : Int) : ℚ :=
  if 0 ≤ exponent then nearest (nearest significand * nearest (10 ^ exponent))
  else if -308 ≤ exponent then nearest (nearest significand / nearest (10 ^ (-exponent)))
  else
    nearest (nearest (nearest significand / nearest (10 ^ 308)) / nearest (10 ^ (-exponent - 308)))

theorem isWorth_power {k : Int} (hLow : 0 ≤ k) (hHigh : k ≤ 308) :
    IsWorth (powerOfTen k.natAbs) (nearest (10 ^ k)) := by
  obtain ⟨j, rfl⟩ := Int.eq_ofNat_of_zero_le hLow
  rw [zpow_natCast]
  exact isWorth_powerOfTen (by omega)

/-- One stride of a division. -/
theorem isWorth_div_power {f : Float} {r : ℚ} (hf : IsWorth f r) {k : Int} (hLow : 0 < k)
    (hHigh : k ≤ 308) : IsWorth (f / powerOfTen k.natAbs) (nearest (r / nearest (10 ^ k))) :=
  isWorth_div hf (isWorth_power hLow.le hHigh) (isAtLeastTwo_powerOfTen (by omega) (by omega))

theorem eq_zero_of_isWorth {f : Float} {r : ℚ} (hf : IsWorth f r) (hZero : (f == 0) = true) :
    r = 0 := by
  rcases hf with ⟨-, rfl⟩ | ⟨m, e, h, hf, -⟩
  · rfl
  · have hCompare : (f == 0) = (f.toModel.unpack.compare (.zero .positive) == some .eq) := rfl
    rw [hCompare, hf] at hZero
    cases hZero

/-- What a significand and an exponent are read as, if they are not refused. -/
theorem isWorth_assemble (hLimit : significand < significandLimit) (hLow : -616 ≤ exponent)
    (hHigh : exponent ≤ 308) (h : assemble significand exponent = some x) :
    IsWorth x (readAs significand exponent) := by
  have hf : IsWorth (UInt64.ofNat significand).toFloat (nearest significand) :=
    isWorth_toFloat hLimit
  unfold assemble at h
  unfold readAs
  by_cases hProduct : 0 ≤ exponent
  · rw [scaleByTen, if_pos (by omega), if_pos hProduct] at h
    simp only at h
    rw [if_pos hProduct]
    split at h
    · cases h
    · next hInf =>
      cases h
      have hPower := isWorth_power hProduct hHigh
      exact isWorth_mul hf hPower
        (isFinite_mul hf.isFinite hPower.isFinite (Bool.eq_false_iff.2 hInf))
  · rw [if_neg hProduct]
    by_cases hOnce : -308 ≤ exponent
    · rw [scaleByTen, if_pos (by omega), if_neg hProduct] at h
      cases h
      rw [if_pos hOnce, ← Int.natAbs_neg]
      exact isWorth_div_power hf (by omega) (by omega)
    · -- two strides are enough, for no exponent is below twice the largest one
      rw [if_neg hOnce]
      obtain ⟨steps, hSteps⟩ : ∃ steps, exponent.natAbs / 308 = steps + 1 :=
        ⟨exponent.natAbs / 308 - 1, by omega⟩
      rw [hSteps, scaleByTen, if_neg (by omega)] at h
      split at h
      · next hZero =>
        -- nothing is left to divide
        cases h
        have hNone := eq_zero_of_isWorth hf hZero
        rw [hNone] at hf
        rwa [hNone, zero_div, nearest_zero, zero_div, nearest_zero]
      · rw [scaleByTen, if_pos (by omega), if_neg (by omega)] at h
        cases h
        have hFirst := isWorth_div_power hf (k := 308) (by decide) (by decide)
        have hSecond := isWorth_div_power hFirst (k := -exponent - 308) (by omega) (by omega)
        rw [show (exponent + 308).natAbs = (-exponent - 308).natAbs by omega]
        exact_mod_cast hSecond

/-! ## The digits of a numeral -/

/-- A number whose digits fit the significand is read with all of them. -/
theorem magnitude?_eq (hFits : n.significand < significandLimit)
    (hPower : ∀ p ∈ n.power, ofDigits p.digits < exponentLimit) :
    magnitude? n = assemble n.significand n.exponent := by
  -- the digits behind the point are gathered on top of those before it, and none is dropped
  have hAll : Nat.ofDigitChars 10 n.fraction (ofDigits n.whole) = n.significand :=
    (Nat.ofDigitChars_append 0).symm
  have hWhole : ofDigits n.whole ≤ n.significand := by
    rw [← hAll, Nat.ofDigitChars_eq_ofDigitChars_zero]
    exact (Nat.le_mul_of_pos_left _ (Nat.pow_pos (by decide))).trans (Nat.le_add_right _ _)
  have hGather : gather 0 n.whole = (ofDigits n.whole, 0) :=
    gather_eq (hWhole.trans_lt hFits)
  have hGather' : gather (ofDigits n.whole) n.fraction = (n.significand, 0) := by
    rw [gather_eq (by rwa [hAll]), hAll]
  have hExponent : ∀ e : Int, ((0 : Nat) : Int) - (n.fraction.length - 0 : Nat) + e =
      e - n.fraction.length := by
    intro e
    omega
  unfold magnitude? Numeral.exponent
  rw [hGather]
  simp only [hGather']
  cases hPart : n.power with
  | none => rw [← hExponent, Option.elim_none, add_zero]
  | some p =>
    simp only [Option.elim_some]
    rw [if_pos (hPower p hPart), hExponent]

theorem float?_eq_map (h : isWhole n = false) :
    float? n = (magnitude? n).map fun size => if n.negative then -size else size := by
  unfold float?
  rw [h]
  simp only [Bool.false_eq_true, false_and, if_false, Option.bind_eq_bind, Option.pure_def,
    Option.map_eq_bind]
  rfl

/-! ## Written decimals -/

/-- A written double has a point or a power of ten. -/
theorem isWhole_write (negative : Bool) (d : Finite) :
    isWhole (numberLayout.write negative d) = false := by
  unfold isWhole Layout.write
  simp only
  split
  · simp only [numberLayout, Bool.and_true, decide_eq_true_eq]
    split
    · rfl
    · next hNe => simp [hNe]
  · simp

/-- The last digit that is written counts what the last digit of the decimal does, or it is the zero
behind the point of a whole number. -/
theorem exponent_write (negative : Bool) (d : Finite) :
    (numberLayout.write negative d).exponent = d.exponent ∨
      0 ≤ d.exponent ∧ d.exponent + (Nat.toDigits 10 d.digits).length ≤ 16 ∧
        (numberLayout.write negative d).exponent = -1 := by
  have hLength : 0 < (Nat.toDigits 10 d.digits).length := Nat.length_toDigits_pos
  have hPlace := length_snd_place (Nat.toDigits 10 d.digits) d.exponent
  unfold Layout.write
  simp only
  split
  · next hPositional =>
    simp only [numberLayout, Bool.and_eq_true, decide_eq_true_eq] at hPositional
    simp only [Numeral.exponent, Option.elim_none]
    split
    · next hNil =>
      rw [Bool.and_eq_true, decide_eq_true_eq] at hNil
      rw [hNil.1, List.length_nil] at hPlace
      exact .inr ⟨by omega, by omega, rfl⟩
    · next hNe =>
      -- there are digits behind the point
      left
      have hPos : 0 < (Layout.place (Nat.toDigits 10 d.digits) d.exponent).2.length := by
        rw [List.length_pos_iff]
        simpa [numberLayout] using hNe
      omega
  · simp only [Numeral.exponent, Option.elim_some, toInt_power, List.length_drop]
    omega

/-! ## Written doubles come back -/

/-- The digits of a decimal are written as they are, but for a whole number, which gets its zeros
and one more behind the point. -/
theorem write_cases (negative : Bool) (d : Finite) :
    (numberLayout.write negative d).exponent = d.exponent ∧
      (numberLayout.write negative d).significand = d.digits ∨
    (numberLayout.write negative d).exponent = -1 ∧
      (numberLayout.write negative d).significand < 10 ^ 17 := by
  have hSize : ((numberLayout.write negative d).significand : ℚ) *
      10 ^ (numberLayout.write negative d).exponent = d.digits * 10 ^ d.exponent := by
    rw [← Numeral.size_eq, size_write, Finite.toRat]
  rcases exponent_write negative d with hSame | ⟨hWhole, hLength, hPoint⟩
  · -- the size is the same, so with the same exponent the digits are
    rw [hSame, mul_eq_mul_right_iff] at hSize
    refine .inl ⟨hSame, ?_⟩
    rcases hSize with hDigits | hZero
    · exact_mod_cast hDigits
    · exact absurd hZero (by positivity)
  · refine .inr ⟨hPoint, ?_⟩
    obtain ⟨k, hk⟩ := Int.eq_ofNat_of_zero_le hWhole
    have hDigits : d.digits < 10 ^ (Nat.toDigits 10 d.digits).length :=
      (Nat.length_toDigits_le_iff (by decide) Nat.length_toDigits_pos).1 le_rfl
    have hSignificand : (numberLayout.write negative d).significand = d.digits * 10 ^ (k + 1) := by
      rw [hPoint, hk, zpow_natCast, zpow_neg_one] at hSize
      have hTen : ((numberLayout.write negative d).significand : ℚ) = d.digits * 10 ^ (k + 1) := by
        rw [pow_succ, ← mul_assoc, ← hSize]
        ring
      exact_mod_cast hTen
    calc (numberLayout.write negative d).significand = d.digits * 10 ^ (k + 1) := hSignificand
      _ < 10 ^ (Nat.toDigits 10 d.digits).length * 10 ^ (k + 1) :=
        Nat.mul_lt_mul_of_pos_right hDigits (by positivity)
      _ = 10 ^ ((Nat.toDigits 10 d.digits).length + (k + 1)) := (Nat.pow_add ..).symm
      _ ≤ 10 ^ 17 := Nat.pow_le_pow_right (by decide) (by omega)

theorem power_write_lt_of_inRange (hRange : d.InRange) :
    ∀ p ∈ (numberLayout.write negative d).power, ofDigits p.digits < exponentLimit := by
  have hLength : (Nat.toDigits 10 d.digits).length ≤ 20 := by
    rw [Nat.length_toDigits_le_iff (by decide) (by decide)]
    exact hRange.digits.trans (by decide)
  obtain ⟨-, hLow, hHigh⟩ := hRange
  unfold Layout.write
  simp only
  split
  · simp
  · rintro p hp
    cases hp
    have hLimit : exponentLimit = 2147483648 := by decide
    rw [ofDigits_toDigits]
    omega

/-- What a written decimal is read as, if it is not refused. -/
theorem isWorth_float?_write (hRange : d.InRange)
    (h : float? (numberLayout.write negative d) = some y) :
    ∃ size, IsWorth size (readAs (numberLayout.write negative d).significand
      (numberLayout.write negative d).exponent) ∧ (if negative then -size else size) = y := by
  obtain ⟨hFits, hLow, hHigh⟩ :
      (numberLayout.write negative d).significand < significandLimit ∧
        -616 ≤ (numberLayout.write negative d).exponent ∧
        (numberLayout.write negative d).exponent ≤ 308 := by
    have hLimit : 10 ^ 17 ≤ significandLimit := by decide
    obtain ⟨hDigits, hMin, hMax⟩ := hRange
    rcases write_cases negative d with ⟨hExponent, hSignificand⟩ | ⟨hExponent, hSignificand⟩
    · omega
    · omega
  rw [float?_eq_map (isWhole_write negative d),
    magnitude?_eq hFits (power_write_lt_of_inRange hRange), Layout.negative_write] at h
  obtain ⟨size, hSize, rfl⟩ := Option.map_eq_some_iff.1 h
  exact ⟨size, isWorth_assemble hFits hLow hHigh hSize, rfl⟩

/-- What is written for a double is its sign and a decimal in range. -/
theorem exists_write_of_numeral? (h : numberLayout.numeral? x = some n) :
    ∃ negative m q narrow d, Reading.of x = .finite negative m q narrow ∧
      n = numberLayout.write negative d ∧ d.InRange := by
  unfold Layout.numeral? at h
  split at h
  · cases h
  · cases h
  · next negative q narrow hReading =>
    cases h
    exact ⟨negative, 0, q, narrow, _, hReading, rfl, by decide, by decide, by decide⟩
  · next negative m q narrow hZero hReading =>
    cases h
    exact ⟨negative, m, q, narrow, _, hReading, rfl,
      inRange_shortest (Nat.pos_of_ne_zero hZero) (isCanonical_of_reading hReading)⟩

/-- Reading the digits of a double in one rounding would give it back. -/
theorem nearest_size (h : numberLayout.numeral? x = some n) :
    nearest n.size = (Reading.of x).size := by
  obtain ⟨m, q, narrow, hReading, ⟨rfl, hSize⟩ | ⟨-, hSize, hRounds⟩⟩ :=
    Layout.exists_reading_of_numeral? h
  · rw [hSize, nearest_zero, hReading, Reading.size, value, Nat.cast_zero, zero_mul]
  · rw [nearest_of_canonical hSize hRounds (isCanonical_of_reading hReading), hReading]
    rfl

/-- A double that is written comes back just when reading its digits in two roundings is no
different from reading them in one. -/
theorem float?_eq_some_iff (h : numberLayout.numeral? x = some n) :
    float? n = some x ↔ readAs n.significand n.exponent = nearest n.size := by
  obtain ⟨y, hy⟩ := Option.isSome_iff_exists.1 (float?_isSome h)
  have hOnce := nearest_size h
  obtain ⟨negative, m, q, narrow, d, hReading, rfl, hRange⟩ := exists_write_of_numeral? h
  obtain ⟨size, hSize, hSign⟩ := isWorth_float?_write hRange hy
  rw [hy, Option.some.injEq, ← hSign, hSize.eq_iff hReading, hOnce, hReading]
  rfl

/-! ## Short digits -/

/-- Small significands and powers of ten are doubles, so only what they make is rounded. -/
theorem readAs_of_exact {significand : Nat} {exponent : Int} (hShort : significand ≤ 2 ^ 53)
    (hLow : -22 ≤ exponent) (hHigh : exponent ≤ 22) :
    readAs significand exponent = nearest (significand * 10 ^ exponent) := by
  have hPower : ∀ k : Int, 0 ≤ k → k ≤ 22 → nearest (10 ^ k) = 10 ^ k := by
    intro k hNonneg hLe
    obtain ⟨j, rfl⟩ := Int.eq_ofNat_of_zero_le hNonneg
    rw [zpow_natCast]
    exact nearest_pow_ten (by omega)
  unfold readAs
  rw [nearest_natCast hShort]
  split
  · next hProduct => rw [hPower exponent hProduct hHigh]
  · rw [if_pos (by omega), hPower (-exponent) (by omega) (by omega), zpow_neg, div_inv_eq_mul]

theorem float?_of_exact (h : numberLayout.numeral? x = some n) (hShort : n.significand ≤ 2 ^ 53)
    (hLow : -22 ≤ n.exponent) (hHigh : n.exponent ≤ 22) : float? n = some x :=
  (float?_eq_some_iff h).2 (readAs_of_exact hShort hLow hHigh)

end FeatureFlags.Json
