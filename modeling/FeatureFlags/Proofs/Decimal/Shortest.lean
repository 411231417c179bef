import FeatureFlags.Decimal.Layout
import Mathlib.Algebra.Order.Field.Power
import Mathlib.Data.Rat.Cast.Order
import Mathlib.Tactic.FieldSimp
import Mathlib.Tactic.Linarith
import Mathlib.Tactic.NormNum
import Mathlib.Tactic.Positivity
import Mathlib.Tactic.Ring

/-!
# How large the shortest decimal is

The shortest decimal of a double lies in the interval of the reals that round to it, so it is larger
than the double by at most half the distance to the next one, and it is not zero unless the double
is.

* `shortest_le`, `shortest_pos` — the two bounds.
-/

namespace FeatureFlags.Decimal

/-- The number that a decimal stands for. -/
def Finite.toRat (d : Finite) : ℚ :=
  d.digits * 10 ^ d.exponent

namespace Interval

theorem bounds_of_contains {i : Interval} {x : Nat} (h : i.contains x = true) :
    i.low ≤ x ∧ x ≤ i.high := by
  unfold contains at h
  split at h
  · simpa only [Bool.and_eq_true, decide_eq_true_eq] using h
  · simp only [Bool.and_eq_true, decide_eq_true_eq] at h
    omega

/-- What is found on a grid lies in the interval. -/
theorem contains_of_nearest? {i : Interval} {step : Nat} {tie : Tie} {d : Nat}
    (h : i.nearest? step tie = some d) : i.contains (d * step) = true := by
  -- every branch gives one of the two neighbours of the middle, and only where it has been tested
  unfold nearest? at h
  simp only at h
  split at h
  · cases h
  · next hBelow _ => cases h; exact hBelow
  · next _ hAbove => cases h; exact hAbove
  · next hBelow hAbove =>
    split at h
    · cases h; exact hBelow
    · split at h
      · cases h; exact hAbove
      · cases tie
        · simp only [Option.some.injEq] at h
          split at h
          · subst h; exact hBelow
          · subst h; exact hAbove
        · cases h; exact hAbove

end Interval

/-! ## Grids -/

theorem zpow_eq_div (b : ℚ) (z : Int) : b ^ z = b ^ z.toNat / b ^ (-z).toNat := by
  obtain ⟨n, rfl | rfl⟩ := z.eq_nat_or_neg
  · rw [Int.toNat_natCast, Int.toNat_neg_natCast, zpow_natCast, pow_zero, div_one]
  · rw [neg_neg, Int.toNat_natCast, Int.toNat_neg_natCast, zpow_neg, zpow_natCast, pow_zero,
      one_div]

theorem le_grid_iff (a d : Nat) (u p : Int) :
    a * (2 ^ u.toNat * 10 ^ (-p).toNat) ≤ d * (10 ^ p.toNat * 2 ^ (-u).toNat) ↔
      (a : ℚ) * 2 ^ u ≤ d * 10 ^ p := by
  rw [zpow_eq_div 10 p, zpow_eq_div 2 u, ← mul_div_assoc, ← mul_div_assoc,
    div_le_div_iff₀ (by positivity) (by positivity), mul_assoc, mul_assoc]
  exact_mod_cast Iff.rfl

theorem grid_le_iff (a d : Nat) (u p : Int) :
    d * (10 ^ p.toNat * 2 ^ (-u).toNat) ≤ a * (2 ^ u.toNat * 10 ^ (-p).toNat) ↔
      (d : ℚ) * 10 ^ p ≤ a * 2 ^ u := by
  rw [zpow_eq_div 10 p, zpow_eq_div 2 u, ← mul_div_assoc, ← mul_div_assoc,
    div_le_div_iff₀ (by positivity) (by positivity), mul_assoc, mul_assoc]
  exact_mod_cast Iff.rfl

/-- Intervals are counted in quarters of the last place. -/
theorem zpow_eq_four_mul (q : Int) : (2 : ℚ) ^ q = 4 * 2 ^ (q - 2) := by
  rw [zpow_sub₀ two_ne_zero]
  norm_num
  ring

variable {m : Nat} {q p : Int} {narrowBelow : Bool} {tie : Tie} {d : Nat}

theorem high_ofSignificand (m : Nat) (narrowBelow : Bool) :
    ((Interval.ofSignificand m narrowBelow).high : ℚ) * 2 ^ (q - 2) = (m + 1 / 2) * 2 ^ q := by
  show ((4 * m + 2 : Nat) : ℚ) * 2 ^ (q - 2) = _
  rw [zpow_eq_four_mul q]
  push_cast
  ring

theorem onGrid?_le (h : onGrid? m q narrowBelow tie p = some d) :
    Finite.toRat ⟨d, p⟩ ≤ (m + 1 / 2) * 2 ^ q := by
  obtain ⟨-, hHigh⟩ := Interval.bounds_of_contains (Interval.contains_of_nearest? h)
  rw [← high_ofSignificand m narrowBelow]
  exact (grid_le_iff _ d (q - 2) p).1 hHigh

theorem onGrid?_pos (hm : 0 < m) (h : onGrid? m q narrowBelow tie p = some d) : 0 < d := by
  obtain ⟨hLow, -⟩ := Interval.bounds_of_contains (Interval.contains_of_nearest? h)
  have hNat : (4 * m - (if narrowBelow then 1 else 2)) * (2 ^ (q - 2).toNat * 10 ^ (-p).toNat) ≤
      d * (10 ^ p.toNat * 2 ^ (-(q - 2)).toNat) := hLow
  -- the interval does not reach down to zero
  have hPos : 0 < (4 * m - (if narrowBelow then 1 else 2)) *
      (2 ^ (q - 2).toNat * 10 ^ (-p).toNat) := by
    apply Nat.mul_pos
    · split <;> omega
    · positivity
  by_contra hZero
  have hEq : d = 0 := by omega
  rw [hEq, Nat.zero_mul] at hNat
  omega

theorem onGrid?_of_firstGrid? {tries : Nat} {r : Finite}
    (h : firstGrid? m q narrowBelow tie tries p = some r) :
    onGrid? m q narrowBelow tie r.exponent = some r.digits := by
  induction tries generalizing p with
  | zero => cases h
  | succ tries ih =>
    rw [firstGrid?] at h
    split at h
    · next hGrid =>
      cases h
      exact hGrid
    · exact ih h

/-! ## The shortest decimal -/

/-- The shortest decimal comes from a grid. Otherwise it is the number itself, without the fraction
that a negative exponent makes. -/
theorem shortest_cases (m : Nat) (q : Int) (narrowBelow : Bool) (tie : Tie) :
    onGrid? m q narrowBelow tie (shortest m q narrowBelow tie).exponent =
      some (shortest m q narrowBelow tie).digits ∨
    shortest m q narrowBelow tie = ⟨m * 2 ^ q.toNat, 0⟩ := by
  unfold shortest
  cases h : firstGrid? m q narrowBelow tie 20 (coarseExponent m q) with
  | none => exact .inr rfl
  | some r => exact .inl (onGrid?_of_firstGrid? h)

theorem shortest_le (m : Nat) (q : Int) (narrowBelow : Bool) (tie : Tie) :
    (shortest m q narrowBelow tie).toRat ≤ (m + 1 / 2) * 2 ^ q.toNat := by
  rcases shortest_cases m q narrowBelow tie with h | h
  · have hLe : (2 : ℚ) ^ q ≤ 2 ^ q.toNat := by
      rw [← zpow_natCast]
      exact zpow_le_zpow_right₀ one_le_two (Int.self_le_toNat q)
    calc (shortest m q narrowBelow tie).toRat ≤ (m + 1 / 2) * 2 ^ q := onGrid?_le h
      _ ≤ (m + 1 / 2) * 2 ^ q.toNat := mul_le_mul_of_nonneg_left hLe (by positivity)
  · -- without a grid it is cut off to a whole number
    rw [h, Finite.toRat, zpow_zero, mul_one]
    push_cast
    have hPos : (0 : ℚ) < 2 ^ q.toNat := by positivity
    linarith

theorem shortest_pos {m : Nat} (hm : 0 < m) (q : Int) (narrowBelow : Bool) (tie : Tie) :
    0 < (shortest m q narrowBelow tie).digits := by
  rcases shortest_cases m q narrowBelow tie with h | h
  · exact onGrid?_pos hm h
  · rw [h]
    show 0 < m * 2 ^ q.toNat
    positivity

end FeatureFlags.Decimal
