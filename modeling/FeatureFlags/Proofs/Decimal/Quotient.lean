import FeatureFlags.Proofs.Decimal.Nearest

/-!
# Quotients of doubles

A quotient of two significands is cut off, and what is cut off is kept in two more bits: nothing,
less than a half, a half or more than that. The bits stand for many quotients, but all of these are
on the same side of every place at which rounding changes, and so they are rounded alike.

* `quotient` — a quotient with its two more bits.
* `nearest_quotient` — it is rounded to what the number itself is rounded to.
* `isWorth_div` — a quotient of doubles is the nearest one.
-/

namespace FeatureFlags.Decimal

open Float.Model (Format UnpackedFloat totalExponent)
open Float.Model.UnpackedFloat

variable {x y : Float} {n N D : Nat} {e : Int} {r s : ℚ}

/-! ## Quarters -/

/-- A fraction that is less than one, in quarters. A quarter or three of them stand for everything
between no half, one half and two. -/
def quarters (num den : Nat) : Nat :=
  if num = 0 then 0
  else match compare (2 * num) den with
    | .lt => 1
    | .eq => 2
    | .gt => 3

theorem quarters_cases (num den : Nat) :
    (quarters num den = 0 ∧ num = 0) ∨ (quarters num den = 1 ∧ 0 < num ∧ 2 * num < den) ∨
      (quarters num den = 2 ∧ 0 < num ∧ 2 * num = den) ∨ (quarters num den = 3 ∧ den < 2 * num) := by
  unfold quarters
  split
  · next hZero => exact .inl ⟨rfl, hZero⟩
  · next hNe =>
    have hPos : 0 < num := Nat.pos_of_ne_zero hNe
    split
    · next hLt => exact .inr (.inl ⟨rfl, hPos, Nat.compare_eq_lt.1 hLt⟩)
    · next hEq => exact .inr (.inr (.inl ⟨rfl, hPos, Nat.compare_eq_eq.1 hEq⟩))
    · next hGt => exact .inr (.inr (.inr ⟨rfl, Nat.compare_eq_gt.1 hGt⟩))

theorem shiftRight_add (em : ExtendedMantissa) (k j : Nat) : em >>> (k + j) = em >>> k >>> j := by
  induction j with
  | zero => rfl
  | succ j ih =>
    show (em >>> (k + j)).shiftRightOne = (em >>> k >>> j).shiftRightOne
    rw [ih]

/-- The fraction behind a quotient is kept in two more bits. -/
theorem ofMantissaAndAccuracy_fraction (q num den : Nat) :
    ExtendedMantissa.ofMantissaAndAccuracy q (accuracyOfFraction num den) =
      ExtendedMantissa.ofMantissaAndAccuracy (4 * q + quarters num den) .exact >>> 2 := by
  have hShift := shiftRight_succ (4 * q + quarters num den) 1
  have hCases := quarters_cases num den
  have hQuotient : (4 * q + quarters num den) / 2 ^ (1 + 1) = q := by omega
  have hRound : (4 * q + quarters num den) / 2 ^ 1 % 2 = quarters num den / 2 := by omega
  have hSticky : (4 * q + quarters num den) % 2 ^ 1 = quarters num den % 2 := by omega
  rw [hShift, hQuotient, hRound, hSticky]
  unfold quarters accuracyOfFraction
  split
  · rfl
  · cases compare (2 * num) den <;> rfl

/-- A quotient, with the fraction behind it, in quarters. -/
def quotient (N D : Nat) : Nat :=
  4 * (N / D) + quarters (N % D) D

/-- A quotient and what stands for it are on the same side of every even number of quarters. -/
theorem le_quotient_iff (hD : 0 < D) (j : Int) :
    ((2 * j : ℚ) ≤ quotient N D ↔ (2 * j : ℚ) ≤ 4 * N / D) ∧
      ((quotient N D : ℚ) ≤ 2 * j ↔ (4 * N / D : ℚ) ≤ 2 * j) := by
  have hD' : (0 : ℚ) < D := by exact_mod_cast hD
  rw [le_div_iff₀ hD', div_le_iff₀ hD']
  have hParts : (D : Int) * (N / D : Nat) + (N % D : Nat) = N := by
    exact_mod_cast Nat.div_add_mod N D
  have hRest : N % D < D := Nat.mod_lt _ hD
  have hCases := quarters_cases (N % D) D
  have hInt : ((2 * j : Int) ≤ quotient N D ↔ (2 * j : Int) * D ≤ 4 * N) ∧
      ((quotient N D : Int) ≤ 2 * j ↔ (4 * N : Int) ≤ 2 * j * D) := by
    unfold quotient
    generalize N % D = R at *
    generalize N / D = Q at *
    rw [← hParts]
    push_cast
    -- the even numbers next to the quotient, and those farther away
    have hFar : 2 * j * (D : Int) ≤ 4 * (D * Q) - 2 * D ∧ j < 2 * Q ∨
        2 * j * (D : Int) = 4 * (D * Q) ∧ j = 2 * Q ∨
        2 * j * (D : Int) = 4 * (D * Q) + 2 * D ∧ j = 2 * Q + 1 ∨
        4 * (D * Q) + 4 * (D : Int) ≤ 2 * j * D ∧ 2 * Q + 1 < j := by
      rcases lt_trichotomy j (2 * Q) with hBelow | rfl | hAbove
      · exact .inl ⟨by nlinarith, hBelow⟩
      · exact .inr (.inl ⟨by ring, rfl⟩)
      · rcases eq_or_lt_of_le (Int.add_one_le_of_lt hAbove) with rfl | hAbove'
        · exact .inr (.inr (.inl ⟨by ring, rfl⟩))
        · exact .inr (.inr (.inr ⟨by nlinarith, hAbove'⟩))
    generalize 2 * j * (D : Int) = product at hFar ⊢
    generalize (D : Int) * Q = whole at hFar ⊢
    omega
  exact_mod_cast hInt

theorem quotient_pos (hN : 0 < N) (D : Nat) : 0 < quotient N D := by
  have hParts : D * (N / D) + N % D = N := Nat.div_add_mod N D
  have hCases := quarters_cases (N % D) D
  unfold quotient
  by_contra hZero
  -- with nothing before the point all of the number is behind it
  have hWhole : N / D = 0 := by omega
  rw [hWhole] at hParts
  omega

/-- A number on the same side of every even number as `M` rounds to whatever `M` rounds to, if at
least two digits are cut off. -/
theorem RoundsTo.of_evens {M k : Nat} {t : ℚ} {p : Int}
    (hEvens : ∀ j : Int, ((2 * j : ℚ) ≤ M ↔ (2 * j : ℚ) ≤ t) ∧ ((M : ℚ) ≤ 2 * j ↔ t ≤ 2 * j))
    (hp : p = e + (k + 2)) (h : RoundsTo (value M e) n p false) :
    RoundsTo (t * 2 ^ e) n p false := by
  have hPos : (0 : ℚ) < 2 ^ e := by positivity
  have hPow : (2 : ℚ) ^ p = 2 ^ k * 4 * 2 ^ e := by
    rw [hp, zpow_add₀ two_ne_zero, zpow_add₀ two_ne_zero, zpow_natCast]
    norm_num
    ring
  -- the ends of what rounds to `n` places are even numbers
  have hLow : lowEnd n false * 2 ^ p = 2 * ((2 * n - 1) * 2 ^ k : Int) * 2 ^ e := by
    show ((n : ℚ) - 1 / 2) * _ = _
    rw [hPow]
    push_cast
    ring
  have hHigh : ((n : ℚ) + 1 / 2) * 2 ^ p = 2 * ((2 * n + 1) * 2 ^ k : Int) * 2 ^ e := by
    rw [hPow]
    push_cast
    ring
  obtain ⟨hLowLe, hLowGe⟩ := hEvens ((2 * n - 1) * 2 ^ k)
  obtain ⟨hHighLe, hHighGe⟩ := hEvens ((2 * n + 1) * 2 ^ k)
  constructor
  · have hSide := h.low
    rw [hLow, value, mul_le_mul_iff_left₀ hPos] at hSide
    rw [hLow, mul_le_mul_iff_left₀ hPos]
    exact hLowLe.1 hSide
  · have hSide := h.high
    rw [hHigh, value, mul_le_mul_iff_left₀ hPos] at hSide
    rw [hHigh, mul_le_mul_iff_left₀ hPos]
    exact hHighGe.1 hSide
  · intro hOdd
    have hSide := h.inside hOdd
    rw [hLow, hHigh, value, mul_lt_mul_iff_left₀ hPos, mul_lt_mul_iff_left₀ hPos, ← not_le,
      ← not_le] at hSide
    rw [hLow, hHigh, mul_lt_mul_iff_left₀ hPos, mul_lt_mul_iff_left₀ hPos, ← not_le, ← not_le]
    exact ⟨mt hLowGe.2 hSide.1, mt hHighLe.2 hSide.2⟩

/-- What stands for a quotient has its first digit in the same place, unless both are so small that
the last place is that of the smallest doubles. -/
theorem lastPlace_quotient (hN : 0 < N) (hD : 0 < D)
    (hShift : e ≤ place (quotient N D) (e - 2)) :
    lastPlace (4 * N / D * 2 ^ (e - 2)) = place (quotient N D) (e - 2) := by
  have hPos : (0 : ℚ) < 2 ^ (e - 2) := by positivity
  by_cases hTwo : 2 ≤ quotient N D
  · -- the powers of two around it are even numbers of quarters, and the number is between them too
    obtain ⟨l, hl⟩ : ∃ l, (quotient N D).log2 = l + 1 := by
      have hLog : 1 ≤ (quotient N D).log2 := (Nat.le_log2 (by omega)).2 hTwo
      exact ⟨_, (Nat.sub_add_cancel hLog).symm⟩
    have hLow : (2 * (2 ^ l : Int) : ℚ) ≤ quotient N D := by
      have hSelf := Nat.log2_self_le (show quotient N D ≠ 0 by omega)
      rw [hl, Nat.pow_succ'] at hSelf
      exact_mod_cast hSelf
    have hHigh : ¬(2 * (2 ^ (l + 1) : Int) : ℚ) ≤ quotient N D := by
      have hSelf := Nat.lt_log2_self (n := quotient N D)
      rw [hl, Nat.pow_succ'] at hSelf
      rw [not_le]
      exact_mod_cast hSelf
    have hLog : Int.log 2 (4 * N / D * 2 ^ (e - 2) : ℚ) = e - 2 + (l + 1 : Nat) := by
      apply log_eq
      · rw [zpow_add₀ two_ne_zero, mul_comm, mul_le_mul_iff_left₀ hPos, zpow_natCast, pow_succ']
        have hSide := (le_quotient_iff hD (2 ^ l)).1.1 (by exact_mod_cast hLow)
        exact_mod_cast hSide
      · rw [add_assoc, zpow_add₀ two_ne_zero, mul_comm (2 ^ (e - 2)), mul_lt_mul_iff_left₀ hPos,
          ← Nat.cast_succ, zpow_natCast, pow_succ', ← not_le]
        have hSide := mt (le_quotient_iff (N := N) hD (2 ^ (l + 1))).1.2 (by exact_mod_cast hHigh)
        exact_mod_cast hSide
    rw [lastPlace, hLog, place, hl]
  · -- so small a quotient is below the smallest double
    have hOne : quotient N D = 1 := by
      have hQuotient := quotient_pos hN D
      omega
    have hSmall : (4 * N / D : ℚ) < 2 := by
      have hSide := mt (le_quotient_iff (N := N) hD 1).1.2 (by rw [hOne]; norm_num)
      rw [not_le] at hSide
      simpa using hSide
    have hLog : Int.log 2 (4 * N / D * 2 ^ (e - 2) : ℚ) < e - 1 := by
      have hPos' : (0 : ℚ) < 4 * N / D * 2 ^ (e - 2) := by positivity
      rw [← Int.lt_zpow_iff_log_lt one_lt_two hPos', show e - 1 = 1 + (e - 2) by ring,
        Nat.cast_ofNat, zpow_add₀ two_ne_zero, zpow_one]
      exact mul_lt_mul_of_pos_right hSmall hPos
    rw [hOne] at hShift ⊢
    unfold place lastPlace at *
    have hZero : Nat.log2 1 = 0 := by decide
    omega

theorem nearest_quotient (hN : 0 < N) (hD : 0 < D) (hShift : e ≤ place (quotient N D) (e - 2)) :
    nearest (N / D * 2 ^ e) = nearest (value (quotient N D) (e - 2)) := by
  have hValue : (N / D * 2 ^ e : ℚ) = 4 * N / D * 2 ^ (e - 2) := by
    rw [zpow_eq_four_mul e]
    ring
  have hM := quotient_pos hN D
  have hPlace := lastPlace_quotient hN hD hShift
  have hRounds := roundsTo_rounded (quotient N D) (place (quotient N D) (e - 2) - (e - 2)).toNat
    (e - 2)
  rw [show e - 2 + ((place (quotient N D) (e - 2) - (e - 2)).toNat : Int) =
    place (quotient N D) (e - 2) by omega] at hRounds
  have hRounds' := hRounds.of_evens (le_quotient_iff hD)
    (k := (place (quotient N D) (e - 2) - e).toNat) (by omega)
  rw [← lastPlace_value hM] at hRounds
  rw [← hPlace] at hRounds'
  rw [hValue, nearest_eq hRounds, nearest_eq hRounds', hPlace, lastPlace_value hM]

/-! ## Division -/

/-- A quotient and the fraction behind it are rounded like a number with two more bits. -/
theorem roundWithAccuracy_fraction (sign : Sign) (hShift : e ≤ place (quotient N D) (e - 2)) :
    roundWithAccuracy Format.binary64 sign (N / D) e (accuracyOfFraction (N % D) D) =
      roundWithAccuracy Format.binary64 sign (quotient N D) (e - 2) .exact := by
  obtain ⟨k, hk⟩ : ∃ k : Nat, place (quotient N D) (e - 2) = e + k :=
    ⟨(place (quotient N D) (e - 2) - e).toNat, by omega⟩
  -- the two more bits make the quotient longer and its exponent less, so both end in one place
  have hSame : max (((N / D).log2 : Int) + 1 + e - 53) (-1074) = e + k := by
    rw [← hk]
    unfold place at hShift ⊢
    have hQuotient : quotient N D / 4 = N / D := by
      have hCases := quarters_cases (N % D) D
      unfold quotient
      omega
    by_cases hZero : N / D = 0
    · have hLog : (quotient N D).log2 ≤ 1 := log2_le_of_lt (by omega)
      have hLog' : (N / D).log2 = 0 := by rw [hZero]; rfl
      omega
    · have hLog : (quotient N D).log2 = (N / D).log2 + 2 := by
        rw [Nat.log2_eq_iff (by omega)]
        have hLow := Nat.log2_self_le hZero
        have hHigh := Nat.lt_log2_self (n := N / D)
        have hFour : 2 ^ ((N / D).log2 + 2) = 2 ^ (N / D).log2 * 4 := Nat.pow_add ..
        have hEight : 2 ^ ((N / D).log2 + 2 + 1) = 2 ^ ((N / D).log2 + 1) * 4 := by ring
        omega
      omega
  have hBoth : shiftToTargetExponent Format.binary64 (N / D) e (accuracyOfFraction (N % D) D) =
      shiftToTargetExponent Format.binary64 (quotient N D) (e - 2) .exact := by
    rw [shiftToTargetExponent_eq _ (show _ = k by omega),
      shiftToTargetExponent_eq _ (show _ = 2 + k by unfold place at hk; omega),
      shiftRight_add, quotient, ← ofMantissaAndAccuracy_fraction, Nat.cast_add, Nat.cast_ofNat,
      ← add_assoc, Int.sub_add_cancel]
  unfold roundWithAccuracy
  rw [hBoth]

/-- Enough digits of a quotient are left to round it. -/
theorem le_place_quotient {m₁ m₂ k : Nat} {e₁ e₂ : Int} (h₁ : 0 < m₁) (h₂ : 0 < m₂)
    (hMin : min (e₁ - e₂) (max (m₁.log2 + e₁ - (m₂.log2 + e₂) - 53) (-1074)) = e)
    (hk : e₁ - e₂ = e + k) : e ≤ place (quotient (m₁ * 2 ^ k) m₂) (e - 2) := by
  by_cases hLeast : e ≤ -1074
  · exact hLeast.trans (le_max_right _ _)
  · -- the divisor has at least 53 digits less than the dividend
    have hDigits : m₂.log2 + 53 ≤ m₁.log2 + k := by omega
    have hDividend : 2 ^ (m₁.log2 + k) ≤ m₁ * 2 ^ k := by
      rw [Nat.pow_add]
      exact Nat.mul_le_mul_right _ (Nat.log2_self_le (by omega))
    have hWhole : 2 ^ 52 ≤ m₁ * 2 ^ k / m₂ := by
      rw [Nat.le_div_iff_mul_le h₂]
      calc 2 ^ 52 * m₂ ≤ 2 ^ 52 * 2 ^ (m₂.log2 + 1) := Nat.mul_le_mul_left _ Nat.lt_log2_self.le
        _ = 2 ^ (m₂.log2 + 53) := by ring
        _ ≤ 2 ^ (m₁.log2 + k) := Nat.pow_le_pow_right (by decide) hDigits
        _ ≤ m₁ * 2 ^ k := hDividend
    have hLog : 54 ≤ (quotient (m₁ * 2 ^ k) m₂).log2 := by
      unfold quotient
      rw [Nat.le_log2 (by omega)]
      omega
    unfold place
    omega

/-- A double divided by one that is not below two is the nearest one to the quotient of what they
are worth. -/
theorem isWorth_div (hx : IsWorth x r) (hy : IsWorth y s)
    (hTwo : isAtLeastTwo y.toModel.unpack = true) : IsWorth (x / y) (nearest (r / s)) := by
  have hFinite : (x / y).isFinite = true := isFinite_div hx.isFinite hTwo
  have hQuotient : (x / y).toModel.unpack = (Float.Model.pack
      (div Format.binary64 x.toModel.unpack y.toModel.unpack)).unpack := rfl
  rcases hy with ⟨hy, rfl⟩ | ⟨m₂, e₂, h₂, hy, rfl⟩
  · rw [hy] at hTwo
    cases hTwo
  · rcases hx with ⟨hx, rfl⟩ | ⟨m₁, e₁, h₁, hx, rfl⟩
    · rw [hx, hy] at hQuotient
      exact isWorth_of_zero hQuotient (zero_div _)
    · obtain ⟨k, e, hMin, hk, hCore⟩ := divCore_eq m₁ e₁ m₂ e₂
      have hShift := le_place_quotient h₁ h₂ hMin hk
      -- the dividend is shifted before it is divided, and the exponent makes up for that
      have hDividend : 0 < m₁ * 2 ^ k := Nat.mul_pos h₁ (Nat.two_pow_pos k)
      have hValue : value m₁ e₁ / value m₂ e₂ = ((m₁ * 2 ^ k : Nat) : ℚ) / m₂ * 2 ^ e := by
        have hPow : (2 : ℚ) ^ e₁ = 2 ^ e₂ * (2 ^ e * 2 ^ k) := by
          rw [← zpow_natCast, ← zpow_add₀ two_ne_zero, ← zpow_add₀ two_ne_zero, ← hk,
            add_sub_cancel]
        have hNe : (2 : ℚ) ^ e₂ ≠ 0 := by positivity
        rw [value, value, hPow]
        push_cast
        field_simp
      have hDiv : div Format.binary64 (.finite .positive m₁ e₁ h₁) (.finite .positive m₂ e₂ h₂) =
          roundWithAccuracy Format.binary64 .positive (quotient (m₁ * 2 ^ k) m₂) (e - 2) .exact := by
        rw [← roundWithAccuracy_fraction _ hShift, ← Nat.shiftLeft_eq]
        show roundWithAccuracy Format.binary64 .positive (divCore Format.binary64 m₁ e₁ m₂ e₂).1
          (divCore Format.binary64 m₁ e₁ m₂ e₂).2.1 (divCore Format.binary64 m₁ e₁ m₂ e₂).2.2 = _
        rw [hCore]
      rw [hx, hy, hDiv] at hQuotient
      rw [hValue, nearest_quotient hDividend h₂ hShift]
      exact isWorth_of_round (quotient_pos hDividend _) (by omega) hQuotient hFinite

end FeatureFlags.Decimal
