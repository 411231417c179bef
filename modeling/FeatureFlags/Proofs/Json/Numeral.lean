import FeatureFlags.Json.Number
import FeatureFlags.Json.Reader

/-!
# Numerals read back

A numeral of the notation is scanned as a whole, provided that what follows could not be more of it.

* `Numeral.IsJson` — the numerals that the notation has.
* `scanNumber_ofAscii` — scanning a written numeral gives it back.
-/

namespace FeatureFlags.Decimal

/-- Whether every character is a decimal digit. -/
def AreDigits (cs : List Char) : Prop :=
  ∀ c ∈ cs, c.isDigit = true

/-- A power of ten has digits. -/
def Power.IsJson (p : Power) : Prop :=
  p.digits ≠ [] ∧ AreDigits p.digits

/-- The numerals that the notation has: before the point stand digits, and a zero in front of others
does not occur. -/
structure Numeral.IsJson (n : Numeral) : Prop where
  whole_ne_nil : n.whole ≠ []
  whole : AreDigits n.whole
  fraction : AreDigits n.fraction
  power : ∀ p ∈ n.power, p.IsJson
  noLeadingZero : n.whole.head? = some '0' → n.whole = ['0']

end FeatureFlags.Decimal

namespace FeatureFlags.Json

open Decimal (Numeral Power AreDigits)

/-! ## Digits as bytes -/

theorem isDigit_toUInt8 {c : Char} (h : c.isDigit = true) : Byte.isDigit c.toUInt8 = true := by
  obtain ⟨hLow, hHigh⟩ := Char.isDigit_iff_toNat.1 h
  have hLow : 48 ≤ c.toNat := hLow
  have hHigh : c.toNat ≤ 57 := hHigh
  have hNat : c.toUInt8.toNat = c.toNat := by
    show c.toNat % 256 = c.toNat
    omega
  rw [Byte.isDigit, Bool.and_eq_true, decide_eq_true_eq, decide_eq_true_eq, UInt8.le_iff_toNat_le,
    UInt8.le_iff_toNat_le, hNat]
  exact ⟨hLow, hHigh⟩

theorem ofNat_toUInt8 {c : Char} (h : c.isDigit = true) : Char.ofNat c.toUInt8.toNat = c := by
  obtain ⟨_, hHigh⟩ := Char.isDigit_iff_toNat.1 h
  have hHigh : c.toNat ≤ 57 := hHigh
  have hNat : c.toUInt8.toNat = c.toNat := by
    show c.toNat % 256 = c.toNat
    omega
  rw [hNat, Char.ofNat_toNat]

/-- Whether the bytes do not begin with a digit. -/
def EndsDigits (rest : Bytes) : Prop :=
  ∀ b ∈ rest.head?, Byte.isDigit b = false

/-- Whether the bytes could not be more of a number. -/
def EndsNumber (rest : Bytes) : Prop :=
  ∀ b ∈ rest.head?, Byte.isDigit b = false ∧ b ≠ Byte.point ∧ b ≠ 0x65 ∧ b ≠ 0x45

theorem EndsNumber.endsDigits {rest : Bytes} (h : EndsNumber rest) : EndsDigits rest :=
  fun b hb => (h b hb).1

/-! ## Scanning -/

theorem scanDigits_ofAscii {ds : List Char} (hDigits : AreDigits ds) {rest : Bytes}
    (hRest : EndsDigits rest) : scanDigits (Bytes.ofAscii ds ++ rest) = (ds, rest) := by
  unfold scanDigits Bytes.ofAscii
  induction ds with
  | nil =>
    cases rest with
    | nil => rfl
    | cons b rest =>
      -- the digits end where the rest does not begin with one
      have hb : Byte.isDigit b = false := hRest b rfl
      rw [List.map_nil, List.nil_append, List.takeWhile_cons, List.dropWhile_cons, hb]
      rfl
  | cons c ds ih =>
    obtain ⟨hc, hds⟩ := List.forall_mem_cons.1 hDigits
    have ih := ih hds
    rw [Prod.mk.injEq] at ih ⊢
    obtain ⟨hTake, hDrop⟩ := ih
    rw [List.map_cons, List.cons_append, List.takeWhile_cons, List.dropWhile_cons,
      isDigit_toUInt8 hc, if_pos rfl, if_pos rfl, List.map_cons, hTake, hDrop, ofNat_toUInt8 hc]
    exact ⟨rfl, rfl⟩

theorem scanWhole_ofAscii {n : Numeral} (h : n.IsJson) {rest : Bytes} (hRest : EndsDigits rest) :
    scanWhole (Bytes.ofAscii n.whole ++ rest) = some (n.whole, rest) := by
  by_cases hZero : n.whole.head? = some '0'
  · rw [h.noLeadingZero hZero]
    rfl
  · have hScan := scanDigits_ofAscii h.whole hRest
    obtain ⟨c, ds, hWhole⟩ := List.exists_cons_of_ne_nil h.whole_ne_nil
    have hc : c.isDigit = true := h.whole c (hWhole ▸ List.mem_cons_self)
    -- only a lone zero is scanned without what follows it
    have hNotZero : c.toUInt8 ≠ Byte.zero := by
      intro hEq
      have hChar := ofNat_toUInt8 hc
      rw [hEq] at hChar
      rw [hWhole, ← hChar] at hZero
      exact hZero rfl
    rw [hWhole] at hScan ⊢
    show scanWhole (c.toUInt8 :: (Bytes.ofAscii ds ++ rest)) = _
    unfold scanWhole
    split
    · next hEq => exact absurd (List.cons.inj hEq).1 hNotZero
    · show (if (scanDigits (Bytes.ofAscii (c :: ds) ++ rest)).1 = [] then none
        else some (scanDigits (Bytes.ofAscii (c :: ds) ++ rest))) = _
      rw [hScan, if_neg (List.cons_ne_nil c ds)]

/-- What is written for the digits after the point. -/
def fractionBytes (digits : List Char) : Bytes :=
  Bytes.ofAscii (if digits = [] then [] else '.' :: digits)

theorem scanFraction_fractionBytes {digits : List Char} (hDigits : AreDigits digits) {rest : Bytes}
    (hRest : EndsDigits rest) (hPoint : Byte.point ∉ rest.head?) :
    scanFraction (fractionBytes digits ++ rest) = some (digits, rest) := by
  unfold fractionBytes
  by_cases hNil : digits = []
  · subst hNil
    show scanFraction rest = _
    unfold scanFraction
    split
    · exact absurd rfl hPoint
    · rfl
  · rw [if_neg hNil]
    show (if (scanDigits (Bytes.ofAscii digits ++ rest)).1 = [] then none
      else some (scanDigits (Bytes.ofAscii digits ++ rest))) = _
    rw [scanDigits_ofAscii hDigits hRest, if_neg hNil]

/-- What is written for a power of ten. -/
def powerBytes (power : Option Power) : Bytes :=
  Bytes.ofAscii (match power with | some p => p.chars | none => [])

theorem scanPower_powerBytes {power : Option Power} (hPower : ∀ p ∈ power, p.IsJson) {rest : Bytes}
    (hRest : EndsNumber rest) : scanPower (powerBytes power ++ rest) = some (power, rest) := by
  cases power with
  | none =>
    show scanPower rest = _
    cases rest with
    | nil => rfl
    | cons b rest =>
      obtain ⟨_, _, hLower, hUpper⟩ := hRest b rfl
      rw [scanPower, if_neg (by simp [hLower, hUpper])]
  | some p =>
    obtain ⟨negative, digits⟩ := p
    obtain ⟨hNe, hDigits⟩ := hPower _ rfl
    -- the sign is always written, so one byte is taken off before the digits
    have hScan := scanDigits_ofAscii hDigits hRest.endsDigits
    cases negative
    · show (if (scanDigits (Bytes.ofAscii digits ++ rest)).1 = [] then none
        else some (some (Power.mk false (scanDigits (Bytes.ofAscii digits ++ rest)).1),
          (scanDigits (Bytes.ofAscii digits ++ rest)).2)) = _
      rw [hScan, if_neg hNe]
    · show (if (scanDigits (Bytes.ofAscii digits ++ rest)).1 = [] then none
        else some (some (Power.mk true (scanDigits (Bytes.ofAscii digits ++ rest)).1),
          (scanDigits (Bytes.ofAscii digits ++ rest)).2)) = _
      rw [hScan, if_neg hNe]

/-! ## The whole numeral -/

theorem ofAscii_chars (n : Numeral) : Bytes.ofAscii n.chars =
    (if n.negative then [Byte.minus] else []) ++
      (Bytes.ofAscii n.whole ++ (fractionBytes n.fraction ++ powerBytes n.power)) := by
  unfold Numeral.chars fractionBytes powerBytes
  simp only [Bytes.ofAscii, List.map_append, List.append_assoc]
  congr 1
  cases n.negative <;> rfl

theorem endsDigits_powerBytes (power : Option Power) {rest : Bytes} (hRest : EndsDigits rest) :
    EndsDigits (powerBytes power ++ rest) := by
  cases power with
  | none => exact hRest
  | some p =>
    rintro b hb
    cases hb
    rfl

theorem point_not_mem_powerBytes {power : Option Power} {rest : Bytes} (hRest : EndsNumber rest) :
    Byte.point ∉ (powerBytes power ++ rest).head? := by
  cases power with
  | none => exact fun hb => (hRest _ hb).2.1 rfl
  | some p =>
    intro hb
    cases hb

theorem endsDigits_fractionBytes (digits : List Char) {rest : Bytes} (hRest : EndsDigits rest) :
    EndsDigits (fractionBytes digits ++ rest) := by
  unfold fractionBytes
  split
  · exact hRest
  · rintro b hb
    cases hb
    rfl

/-- Scans what follows the sign of a number. -/
def scanUnsigned (negative : Bool) (s : Bytes) : Option (Numeral × Bytes) := do
  let (whole, s) ← scanWhole s
  let (fraction, s) ← scanFraction s
  let (power, s) ← scanPower s
  return (⟨negative, whole, fraction, power⟩, s)

theorem scanNumber_minus (s : Bytes) : scanNumber (Byte.minus :: s) = scanUnsigned true s :=
  rfl

theorem scanNumber_of_not_minus {s : Bytes} (h : Byte.minus ∉ s.head?) :
    scanNumber s = scanUnsigned false s := by
  unfold scanNumber
  split
  next negative s' hEq =>
    split at hEq
    · exact absurd rfl h
    · cases hEq
      rfl

/-- A numeral is scanned as a whole, and nothing beyond it. -/
theorem scanNumber_ofAscii {n : Numeral} (h : n.IsJson) {rest : Bytes} (hRest : EndsNumber rest) :
    scanNumber (Bytes.ofAscii n.chars ++ rest) = some (n, rest) := by
  have hPower := scanPower_powerBytes h.power hRest
  have hFraction := scanFraction_fractionBytes h.fraction
    (endsDigits_powerBytes n.power hRest.endsDigits) (point_not_mem_powerBytes hRest)
  have hWhole := scanWhole_ofAscii h (endsDigits_fractionBytes n.fraction
    (endsDigits_powerBytes n.power hRest.endsDigits))
  -- each part ends where the next one begins
  have hUnsigned : ∀ negative, scanUnsigned negative (Bytes.ofAscii n.whole ++
      (fractionBytes n.fraction ++ (powerBytes n.power ++ rest))) =
      some (⟨negative, n.whole, n.fraction, n.power⟩, rest) := by
    intro negative
    rw [scanUnsigned, hWhole]
    show (scanFraction _).bind _ = _
    rw [hFraction]
    show (scanPower _).bind _ = _
    rw [hPower]
    rfl
  rw [ofAscii_chars, List.append_assoc, List.append_assoc, List.append_assoc]
  by_cases hSign : n.negative = true
  · rw [if_pos hSign, List.cons_append, List.nil_append, scanNumber_minus, hUnsigned, ← hSign]
  · rw [if_neg hSign, List.nil_append, scanNumber_of_not_minus, hUnsigned,
      ← Bool.eq_false_iff.2 hSign]
    -- without a sign the numeral begins with a digit
    obtain ⟨c, ds, hCons⟩ := List.exists_cons_of_ne_nil h.whole_ne_nil
    have hDigit := isDigit_toUInt8 (h.whole c (hCons ▸ List.mem_cons_self))
    rw [hCons]
    intro hMinus
    have hEq : c.toUInt8 = Byte.minus := Option.some.inj hMinus
    rw [hEq] at hDigit
    cases hDigit

end FeatureFlags.Json
