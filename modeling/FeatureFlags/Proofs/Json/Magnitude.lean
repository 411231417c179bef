import FeatureFlags.Proofs.Decimal.Reading
import FeatureFlags.Proofs.Decimal.Rounding
import FeatureFlags.Proofs.Json.Number

/-!
# Written doubles can be read

Reading the numeral of a double may give a neighbour of the double, but it always gives a double. No
digits are left over before the point, so the significand and the power of ten that the reader
multiplies are hardly more than the double itself; only the three largest doubles are too close to
the limit for that argument, and they are read one by one.

* `magnitude?_isSome` — a numeral whose size stays below the limit by three roundings can be read.
* `float?_isSome` — every double that is written can be read.
* `int?_ofInt` — whole numbers of 64 bits come back.
-/

namespace FeatureFlags.Json

open Decimal

/-! ## Gathering digits -/

theorem ofDigitChars_cons_eq (significand : Nat) (c : Char) (rest : List Char) :
    Nat.ofDigitChars 10 (c :: rest) significand =
      Nat.ofDigitChars 10 rest (significand * 10 + (c.toNat - 0x30)) := by
  rw [Nat.ofDigitChars_cons, Nat.mul_comm]
  rfl

/-- Gathering stops before the significand grows too large, and what is left over counts. -/
theorem gather_le {significand : Nat} (h : significand < significandLimit) (digits : List Char) :
    (gather significand digits).1 < significandLimit ∧
    (gather significand digits).2 ≤ digits.length ∧
    (gather significand digits).1 * 10 ^ (gather significand digits).2 ≤
      Nat.ofDigitChars 10 digits significand := by
  induction digits generalizing significand with
  | nil =>
    rw [gather, Nat.ofDigitChars_nil]
    exact ⟨h, Nat.le_refl _, by simp⟩
  | cons c rest ih =>
    rw [gather, ofDigitChars_cons_eq]
    split
    · next hFits =>
      obtain ⟨hLt, hLength, hLe⟩ := ih hFits
      exact ⟨hLt, Nat.le_succ_of_le hLength, hLe⟩
    · -- this digit and all behind it are left over, and at least make up for their places
      refine ⟨h, Nat.le_refl _, ?_⟩
      have hMore : significand * 10 ≤ significand * 10 + (c.toNat - 0x30) := Nat.le_add_right _ _
      rw [Nat.ofDigitChars_eq_ofDigitChars_zero, Nat.pow_succ]
      calc significand * (10 ^ rest.length * 10) = 10 ^ rest.length * (significand * 10) := by
            rw [Nat.mul_comm (10 ^ rest.length), ← Nat.mul_assoc, Nat.mul_comm]
        _ ≤ 10 ^ rest.length * (significand * 10 + (c.toNat - 0x30)) := Nat.mul_le_mul_left _ hMore
        _ ≤ _ := Nat.le_add_right _ _

theorem toNat_sub_lt {c : Char} (h : c.isDigit = true) : c.toNat - 0x30 < 10 := by
  have hHigh : c.toNat ≤ 57 := (Char.isDigit_iff_toNat.1 h).2
  omega

theorem ofDigitChars_lt {digits : List Char} (h : AreDigits digits) (significand : Nat) :
    Nat.ofDigitChars 10 digits significand < 10 ^ digits.length * (significand + 1) := by
  induction digits generalizing significand with
  | nil => simp
  | cons c rest ih =>
    obtain ⟨hc, hRest⟩ := List.forall_mem_cons.1 h
    have hDigit := toNat_sub_lt hc
    rw [ofDigitChars_cons_eq]
    calc _ < 10 ^ rest.length * (significand * 10 + (c.toNat - 0x30) + 1) := ih hRest _
      _ ≤ 10 ^ rest.length * (10 * (significand + 1)) := Nat.mul_le_mul_left _ (by omega)
      _ = 10 ^ (c :: rest).length * (significand + 1) := by
        rw [List.length_cons, Nat.pow_succ, Nat.mul_assoc]

/-- If the number that all digits make up fits, none are left over. -/
theorem gather_eq {significand : Nat} {digits : List Char}
    (hFits : Nat.ofDigitChars 10 digits significand < significandLimit) :
    gather significand digits = (Nat.ofDigitChars 10 digits significand, 0) := by
  induction digits generalizing significand with
  | nil => rfl
  | cons c rest ih =>
    rw [ofDigitChars_cons_eq] at hFits
    -- a number does not become less when digits are appended
    have hNext : significand * 10 + (c.toNat - 0x30) ≤
        Nat.ofDigitChars 10 rest (significand * 10 + (c.toNat - 0x30)) := by
      rw [Nat.ofDigitChars_eq_ofDigitChars_zero]
      exact (Nat.le_mul_of_pos_left _ (Nat.pow_pos (by decide))).trans (Nat.le_add_right _ _)
    rw [gather, ofDigitChars_cons_eq, if_pos (by omega), ih hFits]

/-! ## Multiplying by a power of ten -/

/-- Dividing never fails. -/
theorem scaleByTen_isSome_of_neg {steps : Nat} {f : Float} {e : Int} (h : e < 0) :
    (scaleByTen steps f e).isSome = true := by
  -- by induction on the steps: each divides and brings the exponent nearer to zero
  induction steps generalizing f e with
  | zero => rfl
  | succ steps ih =>
    rw [scaleByTen]
    split
    · rw [if_neg (by omega)]
      rfl
    · split
      · rfl
      · rw [if_neg (by omega)]
        exact ih (by omega)

/-- What a significand and a power of ten may come to, so that no rounding of theirs overflows. -/
def IsReadable (v : ℚ) : Prop :=
  v * slack ^ 3 < 2 ^ 1024

theorem IsReadable.of_le {v w : ℚ} (h : IsReadable w) (hLe : v ≤ w) : IsReadable v :=
  lt_of_le_of_lt (mul_le_mul_of_nonneg_right hLe (by unfold slack; positivity)) h

theorem one_le_slack_pow : 1 ≤ slack ^ 3 := by
  unfold slack
  norm_num

/-- A power of ten below `2 ^ 1024`. -/
theorem le_of_isReadable {v : ℚ} {k : Nat} (h : IsReadable v) (hLe : 10 ^ k ≤ v) : k ≤ 308 := by
  by_contra hLarge
  have hPos : (0 : ℚ) ≤ v := le_trans (by positivity) hLe
  have hNat : 2 ^ 1024 ≤ 10 ^ 309 := by decide +kernel
  have hRat : (2 : ℚ) ^ 1024 ≤ 10 ^ 309 := by exact_mod_cast hNat
  have hChain : (2 : ℚ) ^ 1024 ≤ v * slack ^ 3 :=
    calc (2 : ℚ) ^ 1024 ≤ 10 ^ 309 := hRat
      _ ≤ 10 ^ k := pow_le_pow_right₀ (by norm_num) (by omega)
      _ ≤ v := hLe
      _ ≤ v * slack ^ 3 := le_mul_of_one_le_right hPos one_le_slack_pow
  exact absurd h (not_lt.2 hChain)

theorem isInf_zero_mul {y : Float} {v : ℚ} (h : IsWithin y v) :
    ((UInt64.ofNat 0).toFloat * y).isInf = false := by
  obtain ⟨m, e, hm, hUnpack, -⟩ := h
  have hZero : (UInt64.ofNat 0).toFloat.toModel.unpack = .zero .positive := rfl
  have hMul : Float.Model.UnpackedFloat.mul Float.Model.Format.binary64
      (UInt64.ofNat 0).toFloat.toModel.unpack y.toModel.unpack = .zero .positive := by
    rw [hZero, hUnpack]
    rfl
  show (Float.Model.pack (Float.Model.UnpackedFloat.mul Float.Model.Format.binary64
    (UInt64.ofNat 0).toFloat.toModel.unpack y.toModel.unpack)).unpack.isInf = false
  rw [hMul]
  decide +kernel

/-- The product of a significand and a power of ten is finite. -/
theorem isInf_product {n k : Nat} (hn : n < 2 ^ 64) (hk : k ≤ 308)
    (h : IsReadable (n * 10 ^ k)) : ((UInt64.ofNat n).toFloat * powerOfTen k).isInf = false := by
  have hPower := isWithin_powerOfTen hk
  by_cases hZero : n = 0
  · rw [hZero]
    exact isInf_zero_mul hPower
  · have hEq : (n * slack) * (10 ^ k * slack) * slack = n * 10 ^ k * slack ^ 3 := by ring
    refine isInf_eq_false_of_isWithin (isWithin_mul (isWithin_toFloat (by omega) hn) hPower ?_)
    rw [hEq]
    exact h

theorem assemble_isSome {n : Nat} {e : Int} (hn : n < significandLimit)
    (h : IsReadable (n * 10 ^ e)) : (assemble n e).isSome = true := by
  unfold assemble
  by_cases hNeg : e < 0
  · exact scaleByTen_isSome_of_neg hNeg
  · obtain ⟨k, rfl⟩ : ∃ k : Nat, e = k := ⟨e.toNat, by omega⟩
    rw [zpow_natCast] at h
    rw [scaleByTen, Int.natAbs_natCast]
    -- beyond 308 there is no power of ten to multiply by, but then the significand is zero
    by_cases hk : k ≤ 308
    · rw [if_pos hk, if_pos (Int.natCast_nonneg k)]
      simp only [isInf_product hn hk h, Bool.false_eq_true, if_false, Option.isSome_some]
    · have hZero : n = 0 := by
        by_contra hPos
        have hOne : (1 : ℚ) ≤ n := by exact_mod_cast Nat.one_le_iff_ne_zero.2 hPos
        exact hk (le_of_isReadable h (le_mul_of_one_le_left (by positivity) hOne))
      have hFloat : ((UInt64.ofNat 0).toFloat == 0) = true := by decide +kernel
      rw [if_neg hk, hZero, hFloat]
      rfl

/-! ## Reading a numeral -/

/-- Few enough digits before the point to fit the significand. -/
def wholeLimit : Nat := 16

/-- A numeral whose size stays below the limit by three roundings can be read. -/
theorem magnitude?_isSome {n : Numeral} (h : n.IsJson) (hWhole : n.whole.length ≤ wholeLimit)
    (hPower : ∀ p ∈ n.power, p.negative = false → ofDigits p.digits < exponentLimit)
    (hSize : IsReadable n.size) : (magnitude? n).isSome = true := by
  have hLength : 10 ^ n.whole.length ≤ 10 ^ wholeLimit := Nat.pow_le_pow_right (by omega) hWhole
  have hLimit : 10 ^ wholeLimit ≤ significandLimit := by decide
  -- the digits before the point fit, so none of them is left over
  have hLt : ofDigits n.whole < significandLimit := by
    have hDigits := ofDigitChars_lt h.whole 0
    have hEq : ofDigits n.whole = Nat.ofDigitChars 10 n.whole 0 := rfl
    omega
  have hGather : gather 0 n.whole = (ofDigits n.whole, 0) := gather_eq hLt
  -- those behind it may be left over
  obtain ⟨hFit, hLeft, hLe⟩ := gather_le hLt n.fraction
  have hAll : Nat.ofDigitChars 10 n.fraction (ofDigits n.whole) =
      ofDigits (n.whole ++ n.fraction) := (Nat.ofDigitChars_append 0).symm
  rw [hAll] at hLe
  obtain ⟨⟨significand, left⟩, hRead⟩ : ∃ read, gather (ofDigits n.whole) n.fraction = read :=
    ⟨_, rfl⟩
  rw [hRead] at hFit hLeft hLe
  -- The digits that are left over make the number smaller.
  have hValue : ∀ e : Int, (significand : ℚ) * 10 ^ (0 - (n.fraction.length - left : Nat) + e) ≤
      ofDigits (n.whole ++ n.fraction) * 10 ^ (e - n.fraction.length) := by
    intro e
    have hExponent : (0 : Int) - (n.fraction.length - left : Nat) + e =
        left + (e - n.fraction.length) := by omega
    have hLe' : (significand : ℚ) * 10 ^ left ≤ ofDigits (n.whole ++ n.fraction) := by
      exact_mod_cast hLe
    rw [hExponent, zpow_add₀ (by norm_num), zpow_natCast, ← mul_assoc]
    exact mul_le_mul_of_nonneg_right hLe' (by positivity)
  unfold magnitude?
  rw [hGather]
  simp only [hRead]
  split
  · next hNone =>
    rw [Numeral.size, hNone] at hSize
    have hZero := hValue 0
    rw [add_zero] at hZero
    exact assemble_isSome hFit (hSize.of_le hZero)
  · next p hSome =>
    rw [Numeral.size, hSome] at hSize
    split
    · exact assemble_isSome hFit (hSize.of_le (hValue p.toInt))
    · next hLarge =>
      -- so large a power has to be negative, and then the number counts as zero
      have hNegative : p.negative = true := by
        by_contra hPositive
        exact hLarge (hPower p hSome (Bool.eq_false_iff.2 hPositive))
      rw [if_pos (.inr hNegative)]
      rfl

theorem float?_isSome_of_magnitude? {n : Numeral} (h : (magnitude? n).isSome = true) :
    (float? n).isSome = true := by
  obtain ⟨x, hx⟩ := Option.isSome_iff_exists.1 h
  unfold float?
  rw [hx]
  split
  · split <;> rfl
  · split <;> rfl

/-! ## Written doubles -/

theorem length_whole_write (negative : Bool) (d : Finite) :
    (numberLayout.write negative d).whole.length ≤ wholeLimit := by
  -- positional numbers have sixteen digits before the point at most, all others have one
  unfold Layout.write
  simp only
  have hLength : 0 < (Nat.toDigits 10 d.digits).length := Nat.length_toDigits_pos
  split
  · next hPositional =>
    have hFirst : d.exponent + (Nat.toDigits 10 d.digits).length - 1 < 16 := by
      simp only [numberLayout, Bool.and_eq_true, decide_eq_true_eq] at hPositional
      exact hPositional.2
    show (Layout.place _ _).1.length ≤ 16
    unfold Layout.place
    split
    · rw [List.length_append, List.length_replicate]
      omega
    · simp only
      split
      · rw [List.length_take]
        omega
      · simp
  · show (List.take 1 _).length ≤ 16
    rw [List.length_take]
    omega

/-- A decimal has as many places as its size says. -/
theorem pow_first_le {d : Finite} (hPos : 0 < d.digits) {k : Nat}
    (hk : d.exponent + (Nat.toDigits 10 d.digits).length - 1 = k) : 10 ^ k ≤ d.toRat := by
  obtain ⟨l, hl⟩ : ∃ l, (Nat.toDigits 10 d.digits).length = l + 1 :=
    ⟨(Nat.toDigits 10 d.digits).length - 1, by
      have hLength : 0 < (Nat.toDigits 10 d.digits).length := Nat.length_toDigits_pos
      omega⟩
  -- a number with `l + 1` digits is at least `10 ^ l`
  have hDigits : 10 ^ l ≤ d.digits := by
    by_contra hLt
    cases l with
    | zero => omega
    | succ l =>
      have hLe : (Nat.toDigits 10 d.digits).length ≤ l + 1 :=
        (Nat.length_toDigits_le_iff (by decide) (by omega)).2 (by omega)
      omega
  have hDigits' : (10 : ℚ) ^ l ≤ d.digits := by exact_mod_cast hDigits
  have hExponent : (k : Int) = l + d.exponent := by omega
  calc (10 : ℚ) ^ k = 10 ^ (k : Int) := (zpow_natCast 10 k).symm
    _ = 10 ^ l * 10 ^ d.exponent := by rw [hExponent, zpow_add₀ (by norm_num), zpow_natCast]
    _ ≤ d.digits * 10 ^ d.exponent := mul_le_mul_of_nonneg_right hDigits' (by positivity)

theorem power_write_lt (negative : Bool) {d : Finite} (hPos : 0 < d.digits)
    (h : IsReadable d.toRat) :
    ∀ p ∈ (numberLayout.write negative d).power, p.negative = false →
      ofDigits p.digits < exponentLimit := by
  unfold Layout.write
  simp only
  split
  · simp
  · rintro p hp hNegative
    cases hp
    obtain ⟨k, hk⟩ : ∃ k : Nat, d.exponent + (Nat.toDigits 10 d.digits).length - 1 = k :=
      ⟨_, (Int.toNat_of_nonneg (by simpa using hNegative)).symm⟩
    -- the power that is written is that of the first digit, which the size bounds
    have hLe : k ≤ 308 := le_of_isReadable h (pow_first_le hPos hk)
    have hLimit : exponentLimit = 2147483648 := by decide
    rw [ofDigits_toDigits, hk, Int.natAbs_natCast]
    omega

theorem float?_write_isSome (negative : Bool) {d : Finite} (hPos : 0 < d.digits)
    (h : IsReadable d.toRat) : (float? (numberLayout.write negative d)).isSome = true := by
  apply float?_isSome_of_magnitude?
  apply magnitude?_isSome
  · exact isJson_write _ _ (fun hZero => absurd hZero (by omega))
  · exact length_whole_write negative d
  · exact power_write_lt negative hPos h
  · rw [size_write]
    exact h

/-- The doubles that are too close to the limit for the general argument are read one by one. -/
theorem float?_largest : ∀ i : Fin 3, ∀ negative : Bool,
    (float? (numberLayout.write negative (shortest (2 ^ 53 - 1 - i) 971 false .toEven))).isSome =
      true := by
  decide +kernel

theorem isReadable_shortest {m : Nat} {q : Int} {narrow : Bool} (hm : m < 2 ^ 53) (hq : q ≤ 971)
    (hNotLargest : q = 971 → m < 2 ^ 53 - 3) : IsReadable (shortest m q narrow .toEven).toRat := by
  have hPow : (2 : ℚ) ^ 1024 = 2 ^ 53 * 2 ^ 971 := by rw [← pow_add]
  have hPos : (0 : ℚ) < 2 ^ 971 := by positivity
  -- the shortest decimal is no more than half a unit above the double
  refine IsReadable.of_le ?_ (shortest_le m q narrow .toEven)
  unfold IsReadable
  rw [hPow]
  by_cases hTop : q = 971
  · -- in the highest binade three units are enough room for three roundings
    have hm' : (m : ℚ) ≤ 2 ^ 53 - 4 := by
      have hNat : m + 4 ≤ 2 ^ 53 := by
        have hLt := hNotLargest hTop
        omega
      have hRat : (m : ℚ) + 4 ≤ 2 ^ 53 := by exact_mod_cast hNat
      linarith
    have hSlack : ((2 : ℚ) ^ 53 - 4 + 1 / 2) * slack ^ 3 < 2 ^ 53 := by
      unfold slack
      norm_num
    have hTwo : q.toNat = 971 := by omega
    have hSlackPos : (0 : ℚ) < slack ^ 3 := lt_of_lt_of_le one_pos one_le_slack_pow
    have hLt : ((m : ℚ) + 1 / 2) * slack ^ 3 < 2 ^ 53 := by
      refine lt_of_le_of_lt (mul_le_mul_of_nonneg_right ?_ hSlackPos.le) hSlack
      linarith
    rw [hTwo, mul_right_comm]
    exact mul_lt_mul_of_pos_right hLt hPos
  · -- below it there is room for a factor of two
    have hm' : (m : ℚ) + 1 ≤ 2 ^ 53 := by exact_mod_cast hm
    have hq' : (2 : ℚ) ^ q.toNat ≤ 2 ^ 970 := pow_le_pow_right₀ one_le_two (by omega)
    have hHalf : (2 : ℚ) ^ 971 = 2 * 2 ^ 970 := by rw [← pow_succ']
    have hSlack : slack ^ 3 < 2 := by
      unfold slack
      norm_num
    have hSlackPos : (0 : ℚ) < slack ^ 3 := lt_of_lt_of_le one_pos one_le_slack_pow
    calc ((m : ℚ) + 1 / 2) * 2 ^ q.toNat * slack ^ 3
        ≤ 2 ^ 53 * 2 ^ 970 * slack ^ 3 := by
          refine mul_le_mul_of_nonneg_right ?_ hSlackPos.le
          exact mul_le_mul (by linarith) hq' (by positivity) (by positivity)
      _ < 2 ^ 53 * 2 ^ 970 * 2 := mul_lt_mul_of_pos_left hSlack (by positivity)
      _ = 2 ^ 53 * 2 ^ 971 := by rw [hHalf, mul_assoc, mul_comm ((2 : ℚ) ^ 970) 2]

/-- Every double that is written can be read. -/
theorem float?_isSome {x : Float} {n : Numeral} (h : numberLayout.numeral? x = some n) :
    (float? n).isSome = true := by
  unfold Layout.numeral? at h
  split at h
  · cases h
  · cases h
  · next negative _ _ _ =>
    cases h
    -- the two zeros
    cases negative <;> decide +kernel
  · next negative m q narrow hZero hReading =>
    cases h
    obtain ⟨hm, ⟨-, hq⟩, -, hNarrow⟩ := isCanonical_of_reading hReading
    -- the three largest significands of the highest binade stand apart
    by_cases hLargest : q = 971 ∧ 2 ^ 53 - 3 ≤ m
    · obtain ⟨rfl, hLow⟩ := hLargest
      obtain ⟨i, hi, rfl⟩ : ∃ i, i < 3 ∧ m = 2 ^ 53 - 1 - i := ⟨2 ^ 53 - 1 - m, by omega, by omega⟩
      -- they are no powers of two, so the doubles next to them are equally far away
      have hWide : narrow = false := by
        by_contra hTrue
        have hEq := (hNarrow.1 (Bool.eq_true_of_not_eq_false hTrue)).1
        omega
      rw [hWide]
      exact float?_largest ⟨i, hi⟩ negative
    · refine float?_write_isSome negative (shortest_pos ?_ q narrow .toEven)
        (isReadable_shortest hm hq (by omega))
      exact Nat.pos_of_ne_zero hZero

theorem isJson_numeral? {x : Float} {n : Numeral} (h : numberLayout.numeral? x = some n) :
    n.IsJson := by
  unfold Layout.numeral? at h
  split at h
  · cases h
  · cases h
  · cases h
    exact isJson_write _ _ fun _ => rfl
  · next m q narrow hZero _ =>
    cases h
    have hPos := shortest_pos (Nat.pos_of_ne_zero hZero) q narrow numberLayout.tie
    exact isJson_write _ _ fun hDigits => absurd hDigits (by omega)

/-! ## Whole numbers -/

theorem isJson_ofInt (i : Int) : (Numeral.ofInt i).IsJson := by
  refine ⟨Nat.toDigits_ne_nil, areDigits_toDigits _, by simp [Numeral.ofInt, AreDigits],
    by simp [Numeral.ofInt], fun hHead => ?_⟩
  by_cases hZero : i.natAbs = 0
  · show Nat.toDigits 10 i.natAbs = _
    rw [hZero]
    rfl
  · exact absurd hHead (head?_toDigits_ne (by omega))

/-- Whole numbers of 64 bits come back. -/
theorem int?_ofInt {i : Int} (hLow : -2 ^ 63 ≤ i) (hHigh : i < 2 ^ 64) :
    int? (.ofInt i) = some i := by
  have hWhole : isWhole (.ofInt i) = true := rfl
  have hSize : ofDigits (Numeral.ofInt i).whole = i.natAbs := ofDigits_toDigits _
  have hLimit : significandLimit = 2 ^ 64 := rfl
  unfold int?
  rw [hSize, hWhole]
  simp only [Bool.not_true, Bool.false_eq_true, if_false, Nat.pow_eq]
  -- the sign is written apart from the digits
  by_cases hNeg : i < 0
  · rw [if_pos (by simpa [Numeral.ofInt] using hNeg), if_neg (by omega)]
    congr 1
    omega
  · rw [if_neg (by simpa [Numeral.ofInt] using hNeg), if_pos (by omega)]
    congr 1
    omega

end FeatureFlags.Json
