import FeatureFlags.Proofs.Decimal.Reading
import FeatureFlags.Proofs.Decimal.Rounding

/-!
# Which doubles are finite

A number that is packed as a double stays finite as long as its exponent is one that doubles have.
Rounding raises the place of the leading digit by one at most, and dividing by two or more lowers
it, so a quotient of finite doubles with such a divisor is finite; a product is finite or infinite,
but never no number.

* `isFinite_unpack_pack`, `isPlaced_of_unpack` — what packing keeps finite, and what is unpacked.
* `unpack_pack_rounded` — what comes out when a number is rounded and packed.
* `fits_roundWithAccuracy` — what rounding keeps in range.
* `isFinite_mul`, `isFinite_div`, `isFinite_neg` — the operations on doubles.
-/

namespace FeatureFlags.Decimal

open Float.Model (Format UnpackedFloat totalExponent)
open Float.Model.UnpackedFloat

/-! ## Packing -/

/-- Whether a number is zero or has an exponent that doubles have. -/
def Fits : UnpackedFloat → Prop
  | .zero _ => True
  | .finite _ _ e _ => e ≤ 971
  | .infinity _ | .notANumber => False

theorem isFinite_unpack_packComponents (sign : Sign) {exponent : BitVec 11}
    (mantissa : BitVec 52) (h : exponent ≠ -1#11) :
    (unpack Format.binary64 (packComponents Format.binary64 sign exponent mantissa)).isFinite =
      true := by
  unfold unpack
  simp only [unpackMantissa_packComponents, unpackExponent_packComponents, if_neg h]
  split
  · split
    · rfl
    · rfl
  · rfl

/-- A number whose exponent doubles have is finite as a double. -/
theorem isFinite_unpack_pack {u : UnpackedFloat} (h : Fits u) :
    (unpack Format.binary64 (pack Format.binary64 u)).isFinite = true := by
  cases u with
  | infinity sign => cases h
  | notANumber => cases h
  | zero sign => exact isFinite_unpack_packComponents sign 0 (by decide)
  | finite sign m e hm =>
    have hMax : e ≤ 971 := h
    have hBiased : ¬2 ^ 11 ≤ (e + (1023 : Nat) + (52 : Nat)).toNat + 1 := by omega
    show (unpack Format.binary64
      (if 2 ^ 11 ≤ (e + (1023 : Nat) + (52 : Nat)).toNat + 1 then
        packedInfinity Format.binary64 sign
      else if m.log2 + 1 = 53 then
        packComponents Format.binary64 sign
          (BitVec.ofNat 11 (e + (1023 : Nat) + (52 : Nat)).toNat) (BitVec.ofNat 52 m)
      else packComponents Format.binary64 sign 0#11 (BitVec.ofNat 52 m))).isFinite = true
    rw [if_neg hBiased]
    split
    · refine isFinite_unpack_packComponents sign _ ?_
      intro hOnes
      have hNat := congrArg BitVec.toNat hOnes
      rw [BitVec.toNat_ofNat, Nat.mod_eq_of_lt (by omega)] at hNat
      have hMinusOne : (-1#11).toNat = 2047 := by decide
      omega
    · exact isFinite_unpack_packComponents sign _ (by decide)

/-- A larger exponent makes an infinity. -/
theorem unpack_pack_of_large {sign : Sign} {m : Nat} {e : Int} (hm : 0 < m) (hLarge : 971 < e) :
    unpack Format.binary64 (pack Format.binary64 (.finite sign m e hm)) = .infinity sign := by
  have hPack : pack Format.binary64 (.finite sign m e hm) =
      packedInfinity Format.binary64 sign := by
    show (if 2 ^ 11 ≤ (e + (1023 : Nat) + (52 : Nat)).toNat + 1 then _ else _) = _
    rw [if_pos (by omega)]
  rw [hPack]
  cases sign
  · rfl
  · rfl

/-- What is rounded and packed is zero, the number that it is rounded to, or infinite if that has
too large an exponent. -/
theorem unpack_pack_rounded (sign : Sign) {m : Nat} {e : Int} (hPos : 0 < m)
    (hShift : e ≤ place m e) :
    (places m e = 0 ∧ unpack Format.binary64 (pack Format.binary64
      (roundWithAccuracy Format.binary64 sign m e .exact)) = .zero sign) ∨
    ∃ m' e', IsRounded m e m' e' ∧
      ((∃ h, unpack Format.binary64 (pack Format.binary64
        (roundWithAccuracy Format.binary64 sign m e .exact)) = .finite sign m' e' h) ∨
      971 < e' ∧ unpack Format.binary64 (pack Format.binary64
        (roundWithAccuracy Format.binary64 sign m e .exact)) = .infinity sign) := by
  rcases roundWithAccuracy_isRounded sign hPos hShift with
    ⟨hZero, hEq⟩ | ⟨m', e', h, hEq, hRounded⟩
  · rw [hEq]
    refine .inl ⟨hZero, ?_⟩
    cases sign <;> rfl
  · rw [hEq]
    refine .inr ⟨m', e', hRounded, ?_⟩
    by_cases hMax : e' ≤ 971
    · exact .inl ⟨h, unpack_pack_placed h hRounded.placed hMax⟩
    · exact .inr ⟨Int.not_le.1 hMax, unpack_pack_of_large h (Int.not_le.1 hMax)⟩

theorem fits_of_isInf_eq_false {sign : Sign} {m : Nat} {e : Int} (hm : 0 < m)
    (h : (unpack Format.binary64 (pack Format.binary64 (.finite sign m e hm))).isInf = false) :
    Fits (.finite sign m e hm) := by
  by_contra hLarge
  rw [unpack_pack_of_large hm (Int.not_le.1 hLarge)] at h
  cases h

/-- Whether a number is zero, or has a significand of 53 bits and an exponent that doubles have. -/
def IsDouble : UnpackedFloat → Prop
  | .zero _ => True
  | .finite _ m e _ => m < 2 ^ 53 ∧ e ≤ 971
  | .infinity _ | .notANumber => False

/-- A double that is finite has a significand and an exponent of the form that doubles have. -/
theorem isPlaced_of_unpack {x : Float} {sign : Sign} {m : Nat} {e : Int} {h : 0 < m}
    (hx : x.toModel.unpack = .finite sign m e h) : IsPlaced m e ∧ e ≤ 971 := by
  have hReading := reading_eq_ofUnpacked x
  rw [hx] at hReading
  have hCanonical := isCanonical_of_reading hReading
  exact ⟨⟨hCanonical.significand, hCanonical.exponent.1, hCanonical.normal⟩,
    hCanonical.exponent.2⟩

/-- What a finite double is made of. -/
theorem isDouble_of_isFinite {x : Float} (h : x.isFinite = true) : IsDouble x.toModel.unpack := by
  have hFinite : x.toModel.unpack.isFinite = true := h
  cases hUnpack : x.toModel.unpack with
  | zero sign => trivial
  | finite sign m e hm =>
    obtain ⟨hPlaced, hMax⟩ := isPlaced_of_unpack hUnpack
    exact ⟨hPlaced.significand, hMax⟩
  | infinity sign =>
    rw [hUnpack] at hFinite
    cases hFinite
  | notANumber =>
    rw [hUnpack] at hFinite
    cases hFinite

/-! ## Rounding -/

/-- What is left when `k` bits are dropped, and one more if that is rounded up. -/
theorem log2_add_le {m n k : Nat} (h : n ≤ m / 2 ^ k + 1) :
    n.log2 + k ≤ max (m.log2 + 1) k := by
  by_cases hk : k ≤ m.log2 + 1
  · -- one more than what is left is at most the next power of two
    have hLt : m / 2 ^ k < 2 ^ (m.log2 + 1 - k) := by
      rw [Nat.div_lt_iff_lt_mul (Nat.two_pow_pos k), ← Nat.pow_add, Nat.sub_add_cancel hk]
      exact Nat.lt_log2_self
    have hLog : n.log2 ≤ m.log2 + 1 - k := by
      have hPos := Nat.two_pow_pos (m.log2 + 1 - k)
      refine log2_le_of_lt ?_
      rw [Nat.pow_succ]
      omega
    omega
  · -- nothing is left of a number that is shifted beyond its digits
    have hZero : m / 2 ^ k = 0 := by
      refine Nat.div_eq_of_lt (Nat.lt_of_lt_of_le Nat.lt_log2_self ?_)
      exact Nat.pow_le_pow_right (by decide) (by omega)
    have hLog : n.log2 ≤ 0 := log2_le_of_lt (by omega)
    omega

theorem roundedMantissa_le (em : ExtendedMantissa) : em.roundedMantissa ≤ em.mantissa + 1 := by
  obtain ⟨m, roundBit, stickyBit⟩ := em
  have hEven : m + m % 2 ≤ m + 1 := by omega
  cases roundBit
  · cases stickyBit <;> exact Nat.le_succ m
  · cases stickyBit
    · exact hEven
    · exact Nat.le_refl (m + 1)

/-- Rounding keeps a number in range whose leading digit is not in the highest place. -/
theorem fits_roundWithAccuracy (sign : Sign) {m : Nat} {e : Int} (accuracy : Accuracy)
    (hTotal : totalExponent m e ≤ 1023) (hMax : e ≤ 971) :
    Fits (roundWithAccuracy Format.binary64 sign m e accuracy) := by
  obtain ⟨k, hk⟩ : ∃ k : Nat,
      (max (totalExponent m e - 53) (-1074) - e).toNat = k := ⟨_, rfl⟩
  have hFirst := shiftToTargetExponent_eq accuracy hk
  -- rounding up moves the leading digit by one place at most
  have hMantissa : (ExtendedMantissa.ofMantissaAndAccuracy m accuracy >>> k).mantissa =
      m / 2 ^ k := by
    rw [mantissa_shiftRight]
    unfold ExtendedMantissa.ofMantissaAndAccuracy
    split <;> rfl
  have hRounded :
      (ExtendedMantissa.ofMantissaAndAccuracy m accuracy >>> k).roundedMantissa.log2 + k ≤
        max (m.log2 + 1) k := by
    have hLe := roundedMantissa_le (ExtendedMantissa.ofMantissaAndAccuracy m accuracy >>> k)
    rw [hMantissa] at hLe
    exact log2_add_le hLe
  unfold totalExponent at hTotal hk
  have hShifted : e + k ≤ 971 := by omega
  unfold roundWithAccuracy
  rw [hFirst]
  simp only
  split
  · trivial
  · show e + k + (max (totalExponent _ (e + k) - 53) (-1074) - (e + k)).toNat ≤ 971
    unfold totalExponent
    omega

theorem roundWithAccuracy_cases (sign : Sign) (m : Nat) (e : Int) (accuracy : Accuracy) :
    (∃ sign', roundWithAccuracy Format.binary64 sign m e accuracy = .zero sign') ∨
    ∃ sign' m' e' hm', roundWithAccuracy Format.binary64 sign m e accuracy =
      .finite sign' m' e' hm' := by
  unfold roundWithAccuracy
  simp only
  split
  · exact .inl ⟨_, rfl⟩
  · next hNe => exact .inr ⟨_, _, _, Nat.pos_of_ne_zero hNe, rfl⟩

/-! ## Operations -/

variable {x y : Float}

/-- A product of finite doubles is finite unless it is infinite. -/
theorem isFinite_mul (hx : x.isFinite = true) (hy : y.isFinite = true)
    (h : (x * y).isInf = false) : (x * y).isFinite = true := by
  have hDouble := isDouble_of_isFinite hx
  have hDouble' := isDouble_of_isFinite hy
  change (unpack Format.binary64 (pack Format.binary64
    (mul Format.binary64 x.toModel.unpack y.toModel.unpack))).isInf = false at h
  show (unpack Format.binary64 (pack Format.binary64
    (mul Format.binary64 x.toModel.unpack y.toModel.unpack))).isFinite = true
  generalize x.toModel.unpack = u at hDouble h
  generalize y.toModel.unpack = v at hDouble' h
  refine isFinite_unpack_pack ?_
  match u, v with
  | .zero _, .zero _ | .zero _, .finite .. | .finite .., .zero _ => trivial
  | .finite sign₁ m₁ e₁ _, .finite sign₂ m₂ e₂ _ =>
    -- only here something is rounded
    change (unpack Format.binary64 (pack Format.binary64 (roundWithAccuracy Format.binary64
      (sign₁ * sign₂) (m₁ * m₂) (e₁ + e₂) .exact))).isInf = false at h
    show Fits (roundWithAccuracy Format.binary64 (sign₁ * sign₂) (m₁ * m₂) (e₁ + e₂) .exact)
    rcases roundWithAccuracy_cases (sign₁ * sign₂) (m₁ * m₂) (e₁ + e₂) .exact with
      ⟨sign, hZero⟩ | ⟨sign, m, e, hm, hFinite⟩
    · rw [hZero]
      trivial
    · rw [hFinite] at h ⊢
      exact fits_of_isInf_eq_false hm h

/-- The leading digit of a quotient. -/
theorem log2_div_le (m₁ k : Nat) {m₂ : Nat} (hm₂ : 0 < m₂) :
    (m₁ <<< k / m₂).log2 ≤ m₁.log2 + k - m₂.log2 := by
  refine log2_le_of_lt ?_
  rw [Nat.div_lt_iff_lt_mul hm₂, Nat.shiftLeft_eq]
  calc m₁ * 2 ^ k < 2 ^ (m₁.log2 + 1) * 2 ^ k :=
        Nat.mul_lt_mul_of_pos_right Nat.lt_log2_self (Nat.two_pow_pos k)
    _ = 2 ^ (m₁.log2 + 1 + k) := (Nat.pow_add ..).symm
    _ ≤ 2 ^ (m₁.log2 + k - m₂.log2 + 1 + m₂.log2) := Nat.pow_le_pow_right (by decide) (by omega)
    _ = 2 ^ (m₁.log2 + k - m₂.log2 + 1) * 2 ^ m₂.log2 := Nat.pow_add ..
    _ ≤ 2 ^ (m₁.log2 + k - m₂.log2 + 1) * m₂ :=
        Nat.mul_le_mul_left _ (Nat.log2_self_le (by omega))

/-- A dividend is shifted until enough digits of the quotient are left. -/
theorem divCore_eq (m₁ : Nat) (e₁ : Int) (m₂ : Nat) (e₂ : Int) :
    ∃ (k : Nat) (e : Int),
      min (e₁ - e₂) (max (m₁.log2 + e₁ - (m₂.log2 + e₂) - 53) (-1074)) = e ∧ e₁ - e₂ = e + k ∧
      divCore Format.binary64 m₁ e₁ m₂ e₂ =
        (m₁ <<< k / m₂, e, accuracyOfFraction (m₁ <<< k % m₂) m₂) := by
  obtain ⟨e, he⟩ : ∃ e, min (e₁ - e₂) (max (totalExponent m₁ e₁ - totalExponent m₂ e₂ - 53)
    (-1074)) = e := ⟨_, rfl⟩
  obtain ⟨k, hk⟩ : ∃ k, (e₁ - e₂ - e).toNat = k := ⟨_, rfl⟩
  refine ⟨k, e, ?_, by omega, ?_⟩
  · unfold totalExponent at he
    omega
  · subst hk he
    rfl

/-- Whether a number is finite and at least two, its sign apart. -/
def isAtLeastTwo : UnpackedFloat → Bool
  | .finite _ m e _ => 2 ≤ totalExponent m e
  | .zero _ | .infinity _ | .notANumber => false

/-- A finite double divided by a number of at least two is finite. -/
theorem isFinite_div (hx : x.isFinite = true) (hy : isAtLeastTwo y.toModel.unpack = true) :
    (x / y).isFinite = true := by
  show (unpack Format.binary64 (pack Format.binary64
    (div Format.binary64 x.toModel.unpack y.toModel.unpack))).isFinite = true
  refine isFinite_unpack_pack ?_
  have hDouble := isDouble_of_isFinite hx
  generalize x.toModel.unpack = u at hDouble
  generalize y.toModel.unpack = v at hy
  match u, v with
  | .zero _, .finite .. => trivial
  | .finite sign₁ m₁ e₁ _, .finite sign₂ m₂ e₂ hm₂ =>
    obtain ⟨hLt, hMax⟩ := hDouble
    have hLog : m₁.log2 ≤ 52 := log2_le_of_lt hLt
    have hTwo : 2 ≤ totalExponent m₂ e₂ := of_decide_eq_true hy
    unfold totalExponent at hTwo
    obtain ⟨k, e, he, hk, hCore⟩ := divCore_eq m₁ e₁ m₂ e₂
    show Fits (match divCore Format.binary64 m₁ e₁ m₂ e₂ with
      | (m, e, accuracy) => roundWithAccuracy Format.binary64 (sign₁ / sign₂) m e accuracy)
    rw [hCore]
    have hQuotient := log2_div_le m₁ k hm₂
    refine fits_roundWithAccuracy _ _ ?_ (by omega)
    unfold totalExponent
    omega

theorem isFinite_neg (h : x.isFinite = true) : (-x).isFinite = true := by
  show (unpack Format.binary64 (pack Format.binary64 x.toModel.unpack.neg)).isFinite = true
  refine isFinite_unpack_pack ?_
  have hDouble := isDouble_of_isFinite h
  generalize x.toModel.unpack = u at hDouble
  match u with
  | .zero _ => trivial
  | .finite .. => exact hDouble.2

theorem IsWithin.isFinite {v : ℚ} (h : IsWithin x v) : x.isFinite = true := by
  obtain ⟨m, e, hm, hUnpack, -⟩ := h
  show x.toModel.unpack.isFinite = true
  rw [hUnpack]
  rfl

end FeatureFlags.Decimal
