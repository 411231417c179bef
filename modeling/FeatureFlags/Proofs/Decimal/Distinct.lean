import FeatureFlags.Proofs.Decimal.Reading
import FeatureFlags.Proofs.Json.Number

/-!
# Different doubles are written differently

The shortest decimal of a double is one of the reals that round to it, ends included only where the
tie goes to it. These sets of reals do not meet, so the decimal tells the double, and with its sign
the numeral tells the bits. That there is a shortest decimal at all is due to the search: the finest
grid that it tries is finer than the distance between two doubles.

* `roundsTo_shortest` — the shortest decimal of a double rounds to it.
* `RoundsTo.unique` — no real rounds to two doubles.
* `Layout.eq_of_numeral?` — whatever the layout, the numeral of a double is that of no other.
* `Layout.isSome_numeral?` — every finite double has a numeral.
-/

namespace FeatureFlags.Decimal

variable {m m' : Nat} {q q' p : Int} {narrow narrow' : Bool} {tie : Tie} {d : Nat} {r r' : ℚ}

/-! ## What rounds to a double -/

/-- The lower end of the reals that round to `m · 2 ^ q`, in units of `2 ^ q`. -/
def lowEnd (m : Nat) (narrowBelow : Bool) : ℚ :=
  m - if narrowBelow then 1 / 4 else 1 / 2

/-- Whether a real rounds to `m · 2 ^ q`. It does so at the ends if `m` is even. -/
structure RoundsTo (r : ℚ) (m : Nat) (q : Int) (narrowBelow : Bool) : Prop where
  low : lowEnd m narrowBelow * 2 ^ q ≤ r
  high : r ≤ (m + 1 / 2) * 2 ^ q
  inside : m % 2 = 1 → lowEnd m narrowBelow * 2 ^ q < r ∧ r < (m + 1 / 2) * 2 ^ q

theorem le_lowEnd (m : Nat) (narrowBelow : Bool) : (m : ℚ) - 1 / 2 ≤ lowEnd m narrowBelow := by
  unfold lowEnd
  split <;> linarith

/-! ## Points of grids -/

theorem Interval.lt_of_contains {i : Interval} {x : Nat} (hOpen : i.closed = false)
    (h : i.contains x = true) : i.low < x ∧ x < i.high := by
  unfold contains at h
  rw [hOpen] at h
  simpa only [Bool.false_eq_true, if_false, Bool.and_eq_true, decide_eq_true_eq] using h

theorem low_ofSignificand (hm : 0 < m) (narrowBelow : Bool) :
    ((Interval.ofSignificand m narrowBelow).low : ℚ) * 2 ^ (q - 2) =
      lowEnd m narrowBelow * 2 ^ q := by
  have hCast : ((Interval.ofSignificand m narrowBelow).low : ℚ) = 4 * lowEnd m narrowBelow := by
    cases narrowBelow
    · show ((4 * m - 2 : Nat) : ℚ) = 4 * (m - 1 / 2)
      rw [Nat.cast_sub (by omega)]
      push_cast
      ring
    · show ((4 * m - 1 : Nat) : ℚ) = 4 * (m - 1 / 4)
      rw [Nat.cast_sub (by omega)]
      push_cast
      ring
  rw [hCast, zpow_eq_four_mul q]
  ring

/-- A point that is found on a grid rounds to the double. -/
theorem roundsTo_of_onGrid? (hm : 0 < m) (h : onGrid? m q narrow tie p = some d) :
    RoundsTo (Finite.toRat ⟨d, p⟩) m q narrow := by
  have hContains := Interval.contains_of_nearest? h
  obtain ⟨hLow, hHigh⟩ := Interval.bounds_of_contains hContains
  -- the ends of the scaled interval, in rational numbers
  have hLowRat := (le_grid_iff _ d (q - 2) p).1 hLow
  have hHighRat := (grid_le_iff _ d (q - 2) p).1 hHigh
  rw [low_ofSignificand hm] at hLowRat
  rw [high_ofSignificand] at hHighRat
  refine ⟨hLowRat, hHighRat, ?_⟩
  -- an odd significand leaves the ends to its neighbours
  intro hOdd
  have hOpen : (m % 2 == 0) = false := by
    rw [hOdd]
    rfl
  obtain ⟨hLow', hHigh'⟩ := Interval.lt_of_contains hOpen hContains
  have hLowNe := mt (grid_le_iff _ d (q - 2) p).2 (Nat.not_le.2 hLow')
  have hHighNe := mt (le_grid_iff _ d (q - 2) p).2 (Nat.not_le.2 hHigh')
  rw [low_ofSignificand hm, not_le] at hLowNe
  rw [high_ofSignificand, not_le] at hHighNe
  exact ⟨hLowNe, hHighNe⟩

/-! ## The search ends -/

/-- Of two neighbours on a grid that is finer than an interval is wide, one is inside. -/
theorem Interval.nearest?_isSome {i : Interval} {step : Nat} (hStep : 0 < step)
    (hLow : i.low < i.mid) (hHigh : i.mid < i.high) (hFine : step < i.high - i.low) (tie : Tie) :
    (i.nearest? step tie).isSome = true := by
  have hBelow : i.mid / step * step ≤ i.mid := Nat.div_mul_le_self _ _
  have hAbove : i.mid < (i.mid / step + 1) * step := by
    rw [Nat.mul_comm]
    exact Nat.lt_mul_div_succ i.mid hStep
  have hNext : (i.mid / step + 1) * step = i.mid / step * step + step := Nat.succ_mul _ _
  unfold nearest?
  simp only
  split
  · next hNotBelow hNotAbove =>
    -- the neighbours would be as far apart as the ends of the interval
    exfalso
    unfold contains at hNotBelow hNotAbove
    cases hClosed : i.closed with
    | true =>
      simp only [hClosed, if_true, Bool.and_eq_false_iff,
        decide_eq_false_iff_not] at hNotBelow hNotAbove
      omega
    | false =>
      simp only [hClosed, Bool.false_eq_true, if_false, Bool.and_eq_false_iff,
        decide_eq_false_iff_not] at hNotBelow hNotAbove
      omega
  · rfl
  · rfl
  · split
    · rfl
    · split
      · rfl
      · cases tie <;> rfl

/-- A grid that is finer than three quarters of the last place has a point that rounds to the
double. -/
theorem onGrid?_isSome (hm : 0 < m) (narrow : Bool) (tie : Tie)
    (hFine : (10 : ℚ) ^ p < 3 / 4 * 2 ^ q) : (onGrid? m q narrow tie p).isSome = true := by
  have hScale : 0 < 2 ^ (q - 2).toNat * 10 ^ (-p).toNat := by positivity
  have hNat : 1 * (10 ^ p.toNat * 2 ^ (-(q - 2)).toNat) <
      3 * (2 ^ (q - 2).toNat * 10 ^ (-p).toNat) := by
    rw [← not_le, le_grid_iff 3 1 (q - 2) p, not_le, Nat.cast_one, one_mul]
    rw [zpow_eq_four_mul q] at hFine
    push_cast
    linarith
  have hEnds : (Interval.ofSignificand m narrow).low + 3 ≤ (Interval.ofSignificand m narrow).high ∧
      (Interval.ofSignificand m narrow).low < (Interval.ofSignificand m narrow).mid ∧
      (Interval.ofSignificand m narrow).mid < (Interval.ofSignificand m narrow).high := by
    cases narrow
    · show 4 * m - 2 + 3 ≤ 4 * m + 2 ∧ 4 * m - 2 < 4 * m ∧ 4 * m < 4 * m + 2
      omega
    · show 4 * m - 1 + 3 ≤ 4 * m + 2 ∧ 4 * m - 1 < 4 * m ∧ 4 * m < 4 * m + 2
      omega
  obtain ⟨hWide, hLow, hHigh⟩ := hEnds
  refine Interval.nearest?_isSome (Nat.mul_pos (Nat.pow_pos (by decide)) (Nat.pow_pos (by decide)))
    (Nat.mul_lt_mul_of_pos_right hLow hScale) (Nat.mul_lt_mul_of_pos_right hHigh hScale) ?_ tie
  calc 10 ^ p.toNat * 2 ^ (-(q - 2)).toNat
      < 3 * (2 ^ (q - 2).toNat * 10 ^ (-p).toNat) := by rwa [Nat.one_mul] at hNat
    _ ≤ ((Interval.ofSignificand m narrow).high - (Interval.ofSignificand m narrow).low) *
          (2 ^ (q - 2).toNat * 10 ^ (-p).toNat) := Nat.mul_le_mul_right _ (by omega)
    _ = _ := Nat.sub_mul _ _ _

theorem firstGrid?_isSome {n tries : Nat} (hn : n < tries)
    (h : (onGrid? m q narrow tie (p - n)).isSome = true) :
    (firstGrid? m q narrow tie tries p).isSome = true := by
  induction tries generalizing n p with
  | zero => omega
  | succ tries ih =>
    rw [firstGrid?]
    split
    · rfl
    · next hNone =>
      -- the grid is not the first one, so it is one of those behind it
      cases n with
      | zero =>
        rw [Int.natCast_zero, Int.sub_zero, hNone] at h
        cases h
      | succ n =>
        refine ih (Nat.lt_of_succ_lt_succ hn) ?_
        rwa [show p - 1 - n = p - (n + 1 : Nat) by omega]

/-- Whether the power of ten that is estimated for `2 ^ e` is not much larger. -/
def isEstimate (e : Int) : Bool :=
  1 * (10 ^ (e * 30103 / 100000).toNat * 2 ^ (-e).toNat) ≤
    5 * (2 ^ e.toNat * 10 ^ (-(e * 30103 / 100000)).toNat)

theorem isEstimate_of_lt : ∀ i : Fin 2098, isEstimate (i.val - 1073) = true := by
  decide +kernel

/-- The last grid that is tried is finer than three quarters of the last place. -/
theorem pow_coarseExponent_lt (hm : 0 < m) (hLt : m < 2 ^ 53) (hMin : -1074 ≤ q) (hMax : q ≤ 971) :
    (10 : ℚ) ^ (coarseExponent m q - 19) < 3 / 4 * 2 ^ q := by
  have hLog : m.log2 < 53 := (Nat.log2_lt (by omega)).2 hLt
  obtain ⟨e, he⟩ : ∃ e : Int, m.log2 + q + 1 = e := ⟨_, rfl⟩
  have hEstimate : isEstimate e = true := by
    have hAll := isEstimate_of_lt ⟨(e + 1073).toNat, by omega⟩
    rwa [show (((e + 1073).toNat : Nat) : Int) - 1073 = e by omega] at hAll
  have hNat := (grid_le_iff 5 1 e (e * 30103 / 100000)).1 (of_decide_eq_true hEstimate)
  have hExponent : coarseExponent m q - 19 = e * 30103 / 100000 - 18 := by
    unfold coarseExponent
    rw [he]
    omega
  have hPow : (2 : ℚ) ^ e ≤ 2 ^ 53 * 2 ^ q := by
    rw [← zpow_natCast, ← zpow_add₀ two_ne_zero]
    exact zpow_le_zpow_right₀ one_le_two (by push_cast; omega)
  have hPos : (0 : ℚ) < 2 ^ q := by positivity
  rw [hExponent, zpow_sub₀ (by norm_num), div_lt_iff₀ (by positivity)]
  calc (10 : ℚ) ^ (e * 30103 / 100000) ≤ 5 * (2 ^ 53 * 2 ^ q) := by push_cast at hNat; linarith
    _ < 3 / 4 * 2 ^ q * 10 ^ (18 : Int) := by norm_num; linarith

/-- The shortest decimal is found by the search. -/
theorem firstGrid?_eq_shortest (hm : 0 < m) (hLt : m < 2 ^ 53) (hMin : -1074 ≤ q) (hMax : q ≤ 971)
    (narrow : Bool) (tie : Tie) : firstGrid? m q narrow tie 20 (coarseExponent m q) =
      some (shortest m q narrow tie) := by
  have hLast : (onGrid? m q narrow tie (coarseExponent m q - (19 : Nat))).isSome = true :=
    onGrid?_isSome hm narrow tie (pow_coarseExponent_lt hm hLt hMin hMax)
  have hFound : (firstGrid? m q narrow tie 20 (coarseExponent m q)).isSome = true :=
    firstGrid?_isSome (by omega) hLast
  obtain ⟨r, hr⟩ := Option.isSome_iff_exists.1 hFound
  unfold shortest
  rw [hr]
  rfl

theorem roundsTo_shortest (hm : 0 < m) (hLt : m < 2 ^ 53) (hMin : -1074 ≤ q) (hMax : q ≤ 971)
    (narrow : Bool) (tie : Tie) : RoundsTo (shortest m q narrow tie).toRat m q narrow :=
  roundsTo_of_onGrid? hm
    (onGrid?_of_firstGrid? (firstGrid?_eq_shortest hm hLt hMin hMax narrow tie))

/-! ## Doubles in order -/

/-- What rounds to one double is less than what rounds to another, if their intervals have at most
an end in common, and one of the two does not own it. -/
theorem RoundsTo.lt (h : RoundsTo r m q narrow) (h' : RoundsTo r' m' q' narrow')
    (hEnds : (m + 1 / 2) * 2 ^ q ≤ lowEnd m' narrow' * 2 ^ q')
    (hOpen : m % 2 = 1 ∨ m' % 2 = 1 ∨ (m + 1 / 2) * 2 ^ q < lowEnd m' narrow' * 2 ^ q') :
    r < r' := by
  rcases hOpen with hOdd | hOdd' | hApart
  · exact ((h.inside hOdd).2.trans_le hEnds).trans_le h'.low
  · exact (h.high.trans hEnds).trans_lt (h'.inside hOdd').1
  · exact (h.high.trans_lt hApart).trans_le h'.low

/-- Doubles with one exponent are in the order of their significands. -/
theorem RoundsTo.lt_of_significand (h : RoundsTo r m q narrow) (h' : RoundsTo r' m' q narrow')
    (hLt : m < m') : r < r' := by
  have hPos : (0 : ℚ) < 2 ^ q := by positivity
  have hLow := le_lowEnd m' narrow'
  have hNext : (m : ℚ) + 1 ≤ m' := by exact_mod_cast hLt
  refine h.lt h' (mul_le_mul_of_nonneg_right (by linarith) hPos.le) ?_
  -- neighbours are not both even
  by_cases hBeside : m' = m + 1
  · omega
  · have hFar : (m : ℚ) + 2 ≤ m' := by exact_mod_cast (show m + 2 ≤ m' by omega)
    exact .inr (.inr (mul_lt_mul_of_pos_right (by linarith) hPos))

/-- Doubles with different exponents are in the order of these. -/
theorem RoundsTo.lt_of_exponent (h : RoundsTo r m q narrow) (h' : RoundsTo r' m' q' narrow')
    (hLt : q < q') (hCanonical : IsCanonical m q narrow) (hCanonical' : IsCanonical m' q' narrow') :
    r < r' := by
  have hPos : (0 : ℚ) < 2 ^ q := by positivity
  have hMin : -1074 < q' := by
    have hExponent := hCanonical.exponent
    omega
  have hm : (m : ℚ) + 1 ≤ 2 ^ 53 := by exact_mod_cast hCanonical.significand
  -- the lower end of the larger double, in places of the smaller
  have hLow : (2 ^ 53 - 1 / 2) * 2 ^ q ≤ lowEnd m' narrow' * (2 : ℚ) ^ q' := by
    have hEnd : (2 : ℚ) ^ 52 - 1 / 4 ≤ lowEnd m' narrow' := by
      by_cases hNarrow : m' = 2 ^ 52
      · rw [hCanonical'.narrow.2 ⟨hNarrow, hMin⟩, hNarrow]
        norm_num [lowEnd]
      · have hNormal := hCanonical'.normal hMin
        have hMore : (2 : ℚ) ^ 52 + 1 ≤ m' := by exact_mod_cast (show 2 ^ 52 + 1 ≤ m' by omega)
        linarith [le_lowEnd m' narrow']
    have hTwice : 2 * (2 : ℚ) ^ q ≤ 2 ^ q' := by
      rw [← zpow_one_add₀ two_ne_zero]
      exact zpow_le_zpow_right₀ one_le_two (by omega)
    calc ((2 : ℚ) ^ 53 - 1 / 2) * 2 ^ q = (2 ^ 52 - 1 / 4) * (2 * 2 ^ q) := by ring
      _ ≤ lowEnd m' narrow' * 2 ^ q' :=
        mul_le_mul hEnd hTwice (by positivity) (le_trans (by norm_num) hEnd)
  have hHigh : ((m : ℚ) + 1 / 2) * 2 ^ q ≤ (2 ^ 53 - 1 / 2) * 2 ^ q :=
    mul_le_mul_of_nonneg_right (by linarith) hPos.le
  refine h.lt h' (hHigh.trans hLow) ?_
  -- the largest significand is odd
  by_cases hTop : m + 1 = 2 ^ 53
  · omega
  · have hSignificand := hCanonical.significand
    have hLess : (m : ℚ) + 2 ≤ 2 ^ 53 := by exact_mod_cast (show m + 2 ≤ 2 ^ 53 by omega)
    exact .inr (.inr (lt_of_lt_of_le (mul_lt_mul_of_pos_right (by linarith) hPos) hLow))

/-- No real rounds to two doubles. -/
theorem RoundsTo.unique (h : RoundsTo r m q narrow) (h' : RoundsTo r m' q' narrow')
    (hCanonical : IsCanonical m q narrow) (hCanonical' : IsCanonical m' q' narrow') :
    m = m' ∧ q = q' := by
  rcases lt_trichotomy q q' with hLt | rfl | hGt
  · exact absurd (h.lt_of_exponent h' hLt hCanonical hCanonical') (lt_irrefl r)
  · rcases lt_trichotomy m m' with hLt | rfl | hGt
    · exact absurd (h.lt_of_significand h' hLt) (lt_irrefl r)
    · exact ⟨rfl, rfl⟩
    · exact absurd (h'.lt_of_significand h hGt) (lt_irrefl r)
  · exact absurd (h'.lt_of_exponent h hGt hCanonical' hCanonical) (lt_irrefl r)

/-! ## The numeral of a double -/

namespace Layout

variable {layout : Layout} {x y : Float} {n : Numeral}

theorem negative_write (layout : Layout) (negative : Bool) (d : Finite) :
    (layout.write negative d).negative = negative := by
  unfold write
  simp only
  split <;> rfl

/-- What is written for a double has its sign, and a size that rounds to it. -/
theorem exists_reading_of_numeral? (h : layout.numeral? x = some n) :
    ∃ m q narrow, Reading.of x = .finite n.negative m q narrow ∧
      (m = 0 ∧ n.size = 0 ∨ 0 < m ∧ 0 < n.size ∧ RoundsTo n.size m q narrow) := by
  unfold numeral? at h
  split at h
  · cases h
  · cases h
  · next negative q narrow hReading =>
    cases h
    rw [negative_write]
    refine ⟨0, q, narrow, hReading, .inl ⟨rfl, ?_⟩⟩
    rw [size_write, Finite.toRat]
    simp
  · next negative m q narrow hZero hReading =>
    cases h
    have hPos : 0 < m := Nat.pos_of_ne_zero hZero
    have hCanonical := isCanonical_of_reading hReading
    rw [negative_write, size_write]
    refine ⟨m, q, narrow, hReading, .inr ⟨hPos, ?_, ?_⟩⟩
    · have hDigits : (0 : ℚ) < (shortest m q narrow layout.tie).digits := by
        exact_mod_cast shortest_pos hPos q narrow layout.tie
      unfold Finite.toRat
      positivity
    · exact roundsTo_shortest hPos hCanonical.significand hCanonical.exponent.1
        hCanonical.exponent.2 narrow layout.tie

theorem eq_of_numeral? (hx : layout.numeral? x = some n) (hy : layout.numeral? y = some n) :
    x = y := by
  obtain ⟨m, q, narrow, hReading, hCases⟩ := exists_reading_of_numeral? hx
  obtain ⟨m', q', narrow', hReading', hCases'⟩ := exists_reading_of_numeral? hy
  have hCanonical := isCanonical_of_reading hReading
  have hCanonical' := isCanonical_of_reading hReading'
  have hSame : m = m' ∧ q = q' := by
    rcases hCases with ⟨hZero, hSize⟩ | ⟨-, hPos, hRounds⟩
    · rcases hCases' with ⟨hZero', -⟩ | ⟨-, hPos', -⟩
      · -- zero has the smallest exponent
        have hMin := hCanonical.exponent.1
        have hMin' := hCanonical'.exponent.1
        have hNormal := hCanonical.normal
        have hNormal' := hCanonical'.normal
        omega
      · linarith
    · rcases hCases' with ⟨-, hSize'⟩ | ⟨-, -, hRounds'⟩
      · linarith
      · exact hRounds.unique hRounds' hCanonical hCanonical'
  obtain ⟨rfl, rfl⟩ := hSame
  exact eq_of_reading hReading hReading'

theorem isSome_numeral? (layout : Layout) (h : x.isFinite = true) :
    (layout.numeral? x).isSome = true := by
  obtain ⟨negative, m, q, narrow, hReading⟩ := exists_reading h
  unfold numeral?
  rw [hReading]
  cases m <;> rfl

theorem isFinite_of_numeral? (h : layout.numeral? x = some n) : x.isFinite = true := by
  obtain ⟨m, q, narrow, hReading, -⟩ := exists_reading_of_numeral? h
  exact isFinite_of_reading hReading

end Layout

end FeatureFlags.Decimal
