import FeatureFlags.Proofs.Decimal.Shortest
import FeatureFlags.Proofs.Json.Numeral

/-!
# Numerals written

What is written for a decimal is a numeral of the notation that stands for that decimal, whichever
way its digits are laid out.

* `isJson_write` — what is written is a numeral of the notation.
* `size_write` — it stands for the decimal that it is written for.
-/

namespace FeatureFlags.Decimal

/-! ## Digits -/

theorem areDigits_toDigits (n : Nat) : AreDigits (Nat.toDigits 10 n) :=
  fun _ hc => Nat.isDigit_of_mem_toDigits (by decide) (by decide) hc

theorem areDigits_replicate (k : Nat) : AreDigits (List.replicate k '0') := by
  intro c hc
  rw [(List.mem_replicate.1 hc).2]
  rfl

theorem AreDigits.append {l m : List Char} (hl : AreDigits l) (hm : AreDigits m) :
    AreDigits (l ++ m) := by
  intro c hc
  rcases List.mem_append.1 hc with hc | hc
  · exact hl c hc
  · exact hm c hc

theorem AreDigits.of_subset {l m : List Char} (hm : AreDigits m) (h : l ⊆ m) : AreDigits l :=
  fun c hc => hm c (h hc)

/-- The digits of a number that is not zero do not begin with a zero. -/
theorem head?_toDigits_ne {n : Nat} (h : 0 < n) : (Nat.toDigits 10 n).head? ≠ some '0' := by
  induction n using Nat.base_induction 10 (by decide) with
  | single m hm =>
    rw [Nat.toDigits_of_lt_base hm, List.head?_cons]
    intro hEq
    rw [Option.some.injEq, Nat.digitChar_eq_zero] at hEq
    omega
  | digit m k hk hm ih =>
    rw [← Nat.toDigits_append_toDigits (by decide) hm hk,
      List.head?_append_of_ne_nil _ Nat.toDigits_ne_nil]
    exact ih hm

theorem ofDigits_toDigits (n : Nat) : ofDigits (Nat.toDigits 10 n) = n :=
  Nat.ofDigitChars_ten_toDigits

/-! ## What is written is a numeral -/

/-- A decimal without a superfluous zero: zero itself has no power of ten. -/
def Finite.IsPlain (d : Finite) : Prop :=
  d.digits = 0 → d.exponent = 0

theorem head?_toDigits_of_isPlain {d : Finite} (h : d.IsPlain)
    (hHead : (Nat.toDigits 10 d.digits).head? = some '0') :
    Nat.toDigits 10 d.digits = ['0'] ∧ d.exponent = 0 := by
  by_cases hZero : d.digits = 0
  · rw [hZero]
    exact ⟨rfl, h hZero⟩
  · exact absurd hHead (head?_toDigits_ne (by omega))

theorem place_isJson {d : Finite} (h : d.IsPlain) {whole fraction : List Char}
    (hPlace : Layout.place (Nat.toDigits 10 d.digits) d.exponent = (whole, fraction)) :
    whole ≠ [] ∧ AreDigits whole ∧ AreDigits fraction ∧
    (whole.head? = some '0' → whole = ['0']) := by
  have hDigits := areDigits_toDigits d.digits
  unfold Layout.place at hPlace
  split at hPlace
  · -- zeros behind the digits
    cases hPlace
    refine ⟨by simp, hDigits.append (areDigits_replicate _), by simp [AreDigits], fun hHead => ?_⟩
    rw [List.head?_append_of_ne_nil _ Nat.toDigits_ne_nil] at hHead
    obtain ⟨hEq, hExponent⟩ := head?_toDigits_of_isPlain h hHead
    rw [hEq, hExponent]
    rfl
  · simp only at hPlace
    split at hPlace
    · -- a point among the digits
      next hNeg hLt =>
      cases hPlace
      refine ⟨?_, hDigits.of_subset (List.take_subset _ _),
        hDigits.of_subset (List.drop_subset _ _), fun hHead => ?_⟩
      · rw [Ne, List.take_eq_nil_iff]
        simp only [Nat.toDigits_ne_nil, or_false]
        omega
      · rw [List.head?_take, if_neg (by omega)] at hHead
        have hExponent := (head?_toDigits_of_isPlain h hHead).2
        omega
    · -- zeros in front of the digits
      cases hPlace
      refine ⟨by simp, by simp [AreDigits], (areDigits_replicate _).append hDigits, fun _ => rfl⟩

/-- Whatever the layout, a decimal is written as a numeral of the notation. -/
theorem isJson_write (layout : Layout) (negative : Bool) {d : Finite} (h : d.IsPlain) :
    (layout.write negative d).IsJson := by
  unfold Layout.write
  simp only
  split
  · -- written positionally
    obtain ⟨hNe, hWhole, hFraction, hZero⟩ :=
      place_isJson h (Prod.mk.eta (p := Layout.place _ _)).symm
    refine ⟨hNe, hWhole, ?_, by simp, hZero⟩
    show AreDigits (if _ then _ else _)
    split
    · intro c hc
      rw [List.mem_singleton.1 hc]
      rfl
    · exact hFraction
  · -- written with a power of ten, behind the first digit
    have hDigits := areDigits_toDigits d.digits
    refine ⟨?_, hDigits.of_subset (List.take_subset _ _), hDigits.of_subset (List.drop_subset _ _),
      ?_, fun hHead => ?_⟩
    · show List.take 1 _ ≠ []
      simp
    · rintro p hp
      cases hp
      exact ⟨Nat.toDigits_ne_nil, areDigits_toDigits _⟩
    · obtain ⟨c, ds, hCons⟩ :=
        List.exists_cons_of_ne_nil (Nat.toDigits_ne_nil (n := d.digits) (b := 10))
      show List.take 1 _ = _
      have hHead : (List.take 1 (Nat.toDigits 10 d.digits)).head? = some '0' := hHead
      rw [hCons] at hHead ⊢
      cases hHead
      rfl

/-! ## What a numeral stands for -/

/-- The size of the number that a numeral stands for. -/
def Numeral.size (n : Numeral) : ℚ :=
  ofDigits (n.whole ++ n.fraction) * 10 ^ (n.power.elim 0 Power.toInt - n.fraction.length)

/-- All digits of a numeral as one number. -/
def Numeral.significand (n : Numeral) : Nat :=
  ofDigits (n.whole ++ n.fraction)

/-- The power of ten that the last digit of a numeral counts. -/
def Numeral.exponent (n : Numeral) : Int :=
  n.power.elim 0 Power.toInt - n.fraction.length

theorem Numeral.size_eq (n : Numeral) : n.size = n.significand * 10 ^ n.exponent :=
  rfl

theorem ofDigits_append_replicate (l : List Char) (k : Nat) :
    ofDigits (l ++ List.replicate k '0') = ofDigits l * 10 ^ k := by
  rw [ofDigits, Nat.ofDigitChars_append, Nat.ofDigitChars_replicate_zero, Nat.mul_comm]
  rfl

theorem ofDigits_replicate_append (l : List Char) (k : Nat) :
    ofDigits (List.replicate k '0' ++ l) = ofDigits l := by
  rw [ofDigits, Nat.ofDigitChars_append, Nat.ofDigitChars_replicate_zero, Nat.mul_zero]
  rfl

theorem length_snd_place (digits : List Char) (exponent : Int) :
    ((Layout.place digits exponent).2.length : Int) = max (-exponent) 0 := by
  unfold Layout.place
  split
  · show (0 : Int) = _
    omega
  · simp only
    split
    · rw [List.length_drop]
      omega
    · rw [List.length_append, List.length_replicate]
      omega

theorem size_place {d : Finite} {whole fraction : List Char}
    (hPlace : Layout.place (Nat.toDigits 10 d.digits) d.exponent = (whole, fraction)) :
    (ofDigits (whole ++ fraction) : ℚ) * 10 ^ (-(fraction.length : Int)) = d.toRat := by
  unfold Layout.place at hPlace
  split at hPlace
  · cases hPlace
    -- zeros behind the digits multiply them
    have hPow : (10 : ℚ) ^ d.exponent = 10 ^ d.exponent.toNat := by
      rw [← zpow_natCast, Int.toNat_of_nonneg (by omega)]
    rw [List.append_nil, ofDigits_append_replicate, ofDigits_toDigits, Finite.toRat, hPow]
    push_cast
    simp
  · simp only at hPlace
    split at hPlace
    · cases hPlace
      -- a point among the digits counts those behind it
      have hLength : -((List.drop ((Nat.toDigits 10 d.digits).length - (-d.exponent).toNat)
          (Nat.toDigits 10 d.digits)).length : Int) = d.exponent := by
        rw [List.length_drop]
        omega
      rw [List.take_append_drop, ofDigits_toDigits, hLength, Finite.toRat]
    · cases hPlace
      -- zeros in front of the digits change nothing but that count
      have hLength :
          -((List.replicate ((-d.exponent).toNat - (Nat.toDigits 10 d.digits).length) '0' ++
            Nat.toDigits 10 d.digits).length : Int) = d.exponent := by
        rw [List.length_append, List.length_replicate]
        omega
      have hZeros : ∀ k, ['0'] ++ (List.replicate k '0' ++ Nat.toDigits 10 d.digits) =
          List.replicate (k + 1) '0' ++ Nat.toDigits 10 d.digits := by
        intro k
        rfl
      rw [hZeros, ofDigits_replicate_append, ofDigits_toDigits, hLength, Finite.toRat]

theorem toInt_power (e : Int) : Power.toInt ⟨e < 0, Nat.toDigits 10 e.natAbs⟩ = e := by
  unfold Power.toInt
  simp only [ofDigits_toDigits, decide_eq_true_eq]
  split <;> omega

/-- Whatever the layout, a numeral stands for the decimal that it is written for. -/
theorem size_write (layout : Layout) (negative : Bool) (d : Finite) :
    (layout.write negative d).size = d.toRat := by
  unfold Layout.write
  simp only
  split
  · have hPlace := size_place (d := d) (Prod.mk.eta (p := Layout.place _ _)).symm
    unfold Numeral.size
    simp only [Option.elim_none, zero_sub]
    split
    · next hNil =>
      rw [Bool.and_eq_true, decide_eq_true_eq] at hNil
      rw [hNil.1, List.append_nil] at hPlace
      -- a zero behind the point changes nothing
      have hZero := ofDigits_append_replicate
        (Layout.place (Nat.toDigits 10 d.digits) d.exponent).1 1
      rw [← hPlace, show ['0'] = List.replicate 1 '0' from rfl, hZero]
      push_cast
      simp
    · exact hPlace
  · have hSplit := List.take_append_drop 1 (Nat.toDigits 10 d.digits)
    have hLength : 0 < (Nat.toDigits 10 d.digits).length := Nat.length_toDigits_pos
    unfold Numeral.size
    simp only [Option.elim_some, toInt_power, hSplit, ofDigits_toDigits, List.length_drop]
    rw [Finite.toRat]
    congr 2
    omega

end FeatureFlags.Decimal
