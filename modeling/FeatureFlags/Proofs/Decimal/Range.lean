import FeatureFlags.Proofs.Decimal.Monotone

/-!
# How long the shortest decimal is

The search for the shortest decimal begins with a power of ten above the double and is over after
twenty steps. So the digits that are found fit into 64 bits, and their exponent is between those of
the smallest and of the largest doubles.

* `value_lt_coarse` — where the search begins.
* `inRange_shortest` — the digits and the exponent that it ends with.
-/

namespace FeatureFlags.Decimal

variable {m : Nat} {q p : Int} {narrow : Bool} {tie : Tie} {d : Finite}

/-! ## The grids that are tried -/

theorem exponent_of_firstGrid? {tries : Nat} {r : Finite}
    (h : firstGrid? m q narrow tie tries p = some r) : p - tries < r.exponent ∧ r.exponent ≤ p := by
  induction tries generalizing p with
  | zero => cases h
  | succ tries ih =>
    rw [firstGrid?] at h
    split at h
    · cases h
      exact ⟨sub_lt_self p (by omega), le_refl p⟩
    · have hRest := ih h
      omega

/-- Whether the power of ten that is tried first for numbers below `2 ^ e` is no less. -/
def isCoarse (e : Int) : Bool :=
  1 * (2 ^ e.toNat * 10 ^ (-(e * 30103 / 100000 + 1)).toNat) ≤
    1 * (10 ^ (e * 30103 / 100000 + 1).toNat * 2 ^ (-e).toNat)

theorem isCoarse_of_lt : ∀ i : Fin 2098, isCoarse (i.val - 1073) = true := by
  decide +kernel

/-- A double is less than the power of ten that is tried first. -/
theorem value_lt_coarse (hm : 0 < m) (hCanonical : IsCanonical m q narrow) :
    value m q < 10 ^ coarseExponent m q := by
  have hLog : m.log2 < 53 := (Nat.log2_lt (by omega)).2 hCanonical.significand
  obtain ⟨hMin, hMax⟩ := hCanonical.exponent
  obtain ⟨e, he⟩ : ∃ e : Int, m.log2 + q + 1 = e := ⟨_, rfl⟩
  have hCoarse : isCoarse e = true := by
    have hAll := isCoarse_of_lt ⟨(e + 1073).toNat, by omega⟩
    rwa [show (((e + 1073).toNat : Nat) : Int) - 1073 = e by omega] at hAll
  have hNat := (le_grid_iff 1 1 e (e * 30103 / 100000 + 1)).1 (of_decide_eq_true hCoarse)
  rw [Nat.cast_one, one_mul, one_mul] at hNat
  unfold coarseExponent
  rw [he]
  refine lt_of_lt_of_le (value_lt_leading m q) ?_
  rwa [show q + (m.log2 : Int) + 1 = e by omega]

/-! ## Digits and exponent -/

/-- Whether the digits of a decimal fit into 64 bits, and its exponent is one that can be scaled
by. -/
structure Finite.InRange (d : Finite) : Prop where
  digits : d.digits < Json.significandLimit
  low : -342 ≤ d.exponent
  high : d.exponent ≤ 308

/-- A decimal that ends at most nineteen places below the power of ten that is tried first has digits
that fit into 64 bits. -/
theorem digits_lt_of_le (hm : 0 < m) (hCanonical : IsCanonical m q narrow)
    (hLe : d.toRat ≤ (m + 1 / 2) * 2 ^ q) (hSteps : coarseExponent m q ≤ 19 + d.exponent) :
    d.digits < Json.significandLimit := by
  have hTen : (0 : ℚ) < 10 ^ d.exponent := by positivity
  have hTwo : (0 : ℚ) < 2 ^ q := by positivity
  have hm' : (1 : ℚ) ≤ m := by exact_mod_cast hm
  have hCoarse := value_lt_coarse hm hCanonical
  have hPow : (10 : ℚ) ^ coarseExponent m q ≤ 10 ^ 19 * 10 ^ d.exponent := by
    rw [← zpow_natCast, ← zpow_add₀ (by norm_num)]
    exact zpow_le_zpow_right₀ (by norm_num) hSteps
  -- half a place is at most half the double
  have hHalf : ((m : ℚ) + 1 / 2) * 2 ^ q ≤ 3 / 2 * value m q := by
    unfold value
    nlinarith
  have hDigits : (d.digits : ℚ) * 10 ^ d.exponent < 15 * 10 ^ 18 * 10 ^ d.exponent := by
    unfold Finite.toRat at hLe
    linarith
  have hLess : (d.digits : ℚ) < 15 * 10 ^ 18 := lt_of_mul_lt_mul_right hDigits hTen.le
  have hNat : d.digits < 15 * 10 ^ 18 := by exact_mod_cast hLess
  exact hNat.trans (by decide)

/-- No double is as large as the power of ten behind the last one that is used. -/
theorem exponent_le_of_le (hCanonical : IsCanonical m q narrow) (hPos : 0 < d.digits)
    (hLe : d.toRat ≤ (m + 1 / 2) * 2 ^ q) : d.exponent ≤ 308 := by
  by_contra hLarge
  have hTen : (0 : ℚ) < 10 ^ d.exponent := by positivity
  have hTwo : (0 : ℚ) < 2 ^ q := by positivity
  have hOne : (1 : ℚ) ≤ d.digits := by exact_mod_cast hPos
  have hSignificand : (m : ℚ) + 1 ≤ 2 ^ 53 := by exact_mod_cast hCanonical.significand
  have hPower : (2 : ℚ) ^ q ≤ 2 ^ 971 := by
    rw [← zpow_natCast]
    exact zpow_le_zpow_right₀ one_le_two hCanonical.exponent.2
  have hNat : 2 ^ 53 * 2 ^ 971 < 10 ^ 309 := by decide +kernel
  have hRat : (2 : ℚ) ^ 53 * 2 ^ 971 < 10 ^ 309 := by exact_mod_cast hNat
  refine absurd hRat (not_lt.2 ?_)
  calc (10 : ℚ) ^ 309 ≤ 10 ^ d.exponent := by
        rw [← zpow_natCast]
        exact zpow_le_zpow_right₀ (by norm_num) (by omega)
    _ ≤ d.digits * 10 ^ d.exponent := le_mul_of_one_le_left hTen.le hOne
    _ ≤ (m + 1 / 2) * 2 ^ q := hLe
    _ ≤ 2 ^ 53 * 2 ^ 971 := mul_le_mul (by linarith) hPower hTwo.le (by positivity)

theorem inRange_shortest (hm : 0 < m) (hCanonical : IsCanonical m q narrow) :
    (shortest m q narrow tie).InRange := by
  obtain ⟨hMin, hMax⟩ := hCanonical.exponent
  have hFound := firstGrid?_eq_shortest hm hCanonical.significand hMin hMax narrow tie
  have hLe : (shortest m q narrow tie).toRat ≤ (m + 1 / 2) * 2 ^ q :=
    onGrid?_le (onGrid?_of_firstGrid? hFound)
  obtain ⟨hLow, hHigh⟩ := exponent_of_firstGrid? hFound
  have hCoarse : -323 ≤ coarseExponent m q := by
    unfold coarseExponent
    omega
  -- the search is over after twenty powers, and the smallest doubles begin it lowest
  exact ⟨digits_lt_of_le hm hCanonical hLe (by omega), by omega,
    exponent_le_of_le hCanonical (shortest_pos hm q narrow tie) hLe⟩

end FeatureFlags.Decimal
