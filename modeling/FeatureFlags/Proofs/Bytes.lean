import FeatureFlags.Bytes
import Mathlib.Algebra.Group.Nat.Defs
import Mathlib.Data.List.Basic
import Mathlib.Tactic.SplitIfs

/-!
# Encodings in order

Texts stand in the order of their encodings, and one text begins with another one just when its
encoding does. The code points of a text are compared by their first bytes: the first byte of an
encoding tells how many bytes follow, more of them for a greater code point, and the bytes that
follow are the last digits of the code point to the base 64.

* `utf8EncodeChar_eq_cons` — the encoding of a character as its digits.
* `utf8EncodeChar_append_lt` — the first different character decides, whatever follows.
* `ofString_lt_ofString_iff`, `ofString_isPrefix_iff` — order and beginnings of texts.
-/

namespace FeatureFlags.Bytes

variable {n m : Nat}

/-! ## The bytes of a character -/

/-- The last `k` digits of a number to the base 64, each marked as no first byte. -/
def trail : Nat → Nat → Bytes
  | 0, _ => []
  | k + 1, n => UInt8.ofNat (n / 64 ^ k % 64 + 0x80) :: trail k n

/-- How many bytes follow the first one in the encoding of a code point. -/
def trailing (n : Nat) : Nat :=
  if n ≤ 0x7F then 0 else if n ≤ 0x7FF then 1 else if n ≤ 0xFFFF then 2 else 3

/-- What the first byte has besides the first digit: the mark of how many bytes follow. -/
def leadMark : Nat → Nat
  | 0 => 0
  | 1 => 0xC0
  | 2 => 0xE0
  | _ => 0xF0

/-- The first byte of the encoding of a code point. -/
def lead (n : Nat) : Nat :=
  n / 64 ^ trailing n + leadMark (trailing n)

theorem toNat_lt (c : Char) : c.toNat < 0x110000 := by
  have hValid := c.valid
  unfold UInt32.isValidChar Nat.isValidChar at hValid
  unfold Char.toNat
  omega

theorem lead_lt (h : n < 0x110000) : lead n < UInt8.size := by
  unfold lead trailing UInt8.size
  split_ifs <;> simp only [leadMark] <;> omega

/-- The encoding of a character is made of the digits of its code point. -/
theorem utf8EncodeChar_eq_cons (c : Char) :
    String.utf8EncodeChar c = UInt8.ofNat (lead c.toNat) :: trail (trailing c.toNat) c.toNat := by
  have hMax : c.toNat < 0x110000 := toNat_lt c
  unfold String.utf8EncodeChar lead trailing
  simp only [Char.toNat_val]
  -- the first digit is too small for the mask of the first byte to cut anything off
  split_ifs
  · simp [leadMark, trail]
  · have hDigit : c.toNat / 64 % 32 = c.toNat / 64 := Nat.mod_eq_of_lt (by omega)
    simp [leadMark, trail, hDigit]
  · have hDigit : c.toNat / 4096 % 16 = c.toNat / 4096 := Nat.mod_eq_of_lt (by omega)
    simp [leadMark, trail, hDigit]
  · have hDigit : c.toNat / 262144 % 8 = c.toNat / 262144 := Nat.mod_eq_of_lt (by omega)
    simp [leadMark, trail, hDigit]

/-- An ASCII character is its own encoding. -/
theorem utf8EncodeChar_of_lt {c : Char} (h : c.toNat < 0x80) :
    String.utf8EncodeChar c = [UInt8.ofNat c.toNat] := by
  unfold String.utf8EncodeChar
  exact if_pos (Nat.le_of_lt_succ h)

/-! ## Order of encodings -/

/-- Where more bytes follow the first one is greater. -/
theorem lead_lt_lead (hLt : n < m) (hMax : m < 0x110000) (hTrailing : trailing n ≠ trailing m) :
    lead n < lead m := by
  unfold lead trailing at *
  split_ifs at * <;> simp only [leadMark] <;> omega

/-- Of numbers that begin alike the smaller one has the smaller digits, whatever follows them. -/
theorem trail_append_lt (hLt : n < m) (k : Nat) (hHigh : n / 64 ^ k = m / 64 ^ k)
    (l l' : Bytes) : trail k n ++ l < trail k m ++ l' := by
  induction k with
  | zero =>
    rw [Nat.pow_zero, Nat.div_one, Nat.div_one] at hHigh
    omega
  | succ k ih =>
    rw [trail, trail, List.cons_append, List.cons_append, List.cons_lt_cons_iff]
    by_cases hSame : n / 64 ^ k = m / 64 ^ k
    · exact .inr ⟨by rw [hSame], ih hSame⟩
    · -- what stands before the digit is the same, so the digit itself decides
      left
      have hLe : n / 64 ^ k ≤ m / 64 ^ k := Nat.div_le_div_right (Nat.le_of_lt hLt)
      rw [Nat.pow_succ, ← Nat.div_div_eq_div_mul, ← Nat.div_div_eq_div_mul] at hHigh
      rw [UInt8.ofNat_lt_iff_lt (by unfold UInt8.size; omega) (by unfold UInt8.size; omega)]
      omega

/-- The first different character decides, whatever follows it. -/
theorem utf8EncodeChar_append_lt {c d : Char} (h : c < d) (l l' : Bytes) :
    String.utf8EncodeChar c ++ l < String.utf8EncodeChar d ++ l' := by
  have hLt : c.toNat < d.toNat := h
  have hLead : UInt8.ofNat (lead c.toNat) < UInt8.ofNat (lead d.toNat) ↔
      lead c.toNat < lead d.toNat :=
    UInt8.ofNat_lt_iff_lt (lead_lt (toNat_lt c)) (lead_lt (toNat_lt d))
  rw [utf8EncodeChar_eq_cons, utf8EncodeChar_eq_cons, List.cons_append, List.cons_append,
    List.cons_lt_cons_iff, hLead]
  -- of encodings of one length the digits are compared, the first one in the first byte
  by_cases hTrailing : trailing c.toNat = trailing d.toNat
  · rw [← hTrailing, lead, lead, ← hTrailing]
    rcases Nat.lt_or_eq_of_le (Nat.div_le_div_right (c := 64 ^ trailing c.toNat) (Nat.le_of_lt hLt))
      with hDigit | hDigit
    · exact .inl (Nat.add_lt_add_right hDigit _)
    · exact .inr ⟨by rw [hDigit], trail_append_lt hLt _ hDigit l l'⟩
  · exact .inl (lead_lt_lead hLt (toNat_lt d) hTrailing)

/-! ## Texts -/

/-- The encoding of a text is made of those of its characters. -/
theorem ofString_eq_flatMap (s : String) :
    ofString s = s.toList.flatMap String.utf8EncodeChar := by
  rw [ofString, ← String.utf8Encode_toList, List.utf8Encode]
  simp

/-- The encoding of a text of ASCII characters is the list of its characters. -/
theorem ofString_eq_ofAscii {s : String} (h : ∀ c ∈ s.toList, c.toNat < 0x80) :
    ofString s = ofAscii s.toList := by
  rw [ofString_eq_flatMap, ofAscii, List.map_eq_flatMap]
  exact List.flatMap_congr fun c hc => utf8EncodeChar_of_lt (h c hc)

theorem flatMap_utf8EncodeChar_lt {l l' : List Char} (h : l < l') :
    l.flatMap String.utf8EncodeChar < l'.flatMap String.utf8EncodeChar := by
  -- by induction on the first text: it is at its end, or its first character decides or is the same
  induction l generalizing l' with
  | nil =>
    cases l' with
    | nil => exact absurd h (List.lt_irrefl _)
    | cons d l' =>
      rw [List.flatMap_nil, List.flatMap_cons, utf8EncodeChar_eq_cons, List.cons_append]
      exact List.nil_lt_cons _ _
  | cons c l ih =>
    cases l' with
    | nil => exact absurd h (List.not_lt_nil _)
    | cons d l' =>
      rw [List.flatMap_cons, List.flatMap_cons]
      rcases List.cons_lt_cons_iff.1 h with hFirst | ⟨rfl, hRest⟩
      · exact utf8EncodeChar_append_lt hFirst _ _
      · exact List.append_left_lt (ih hRest)

/-- Texts stand in the order of their encodings. -/
theorem ofString_lt_ofString_iff {a b : String} : ofString a < ofString b ↔ a < b := by
  have hMono : ∀ {a b : String}, a < b → ofString a < ofString b := by
    intro a b h
    rw [ofString_eq_flatMap, ofString_eq_flatMap]
    exact flatMap_utf8EncodeChar_lt (String.lt_iff.1 h)
  refine ⟨fun h => ?_, hMono⟩
  -- any two texts can be compared, so it is enough that encoding keeps the order
  rcases Std.lt_trichotomy a b with hLt | rfl | hGt
  · exact hLt
  · exact absurd h (List.lt_irrefl _)
  · exact absurd (hMono hGt) (List.lt_asymm h)

/-- A text begins with another one just when its encoding does. -/
theorem ofString_isPrefix_iff {a b : String} :
    ofString a <+: ofString b ↔ a.toList <+: b.toList := by
  constructor
  · rintro ⟨rest, hRest⟩
    apply List.isPrefix_of_utf8Encode_append_eq_utf8Encode rest.toByteArray
    rw [String.utf8Encode_toList, String.utf8Encode_toList]
    apply ByteArray.ext
    apply Array.toList_inj.1
    simpa [ofString] using hRest
  · rintro ⟨rest, hRest⟩
    rw [ofString_eq_flatMap, ofString_eq_flatMap, ← hRest, List.flatMap_append]
    exact List.prefix_append _ _

end FeatureFlags.Bytes
