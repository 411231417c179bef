import FeatureFlags.Json.Reader
import FeatureFlags.Json.Text
import FeatureFlags.Json.Writer
import Mathlib.Data.Option.Basic

/-!
# Strings read back

The bytes that spell a text between two quotes are scanned up to the closing quote and nowhere
beyond it, and they spell that text again.

* `text?_rawOf` — a text is what its bytes spell.
* `scanString_rawOf` — a written string is scanned as a whole.
-/

namespace FeatureFlags.Json

/-! ## Bytes of a text -/

/-- The piece that a written byte is taken apart into: control characters without a letter of their
own come back as units. -/
def Piece.ofByte (b : UInt8) : Piece :=
  if (escape b).length = 6 then .unit b.toNat else .byte b

theorem hexValue?_hexDigit {n : Nat} (h : n < 16) : Byte.hexValue? (hexDigit n) = some n := by
  have hAll : ∀ n : Fin 16, Byte.hexValue? (hexDigit n) = some n.val := by decide
  exact hAll ⟨n, h⟩

theorem toNat_div_lt (b : UInt8) : b.toNat / 16 < 16 := by
  have h : b.toNat < 256 := b.toNat_lt
  omega

/-- What `escape` writes for a byte, by cases. -/
theorem escape_cases (b : UInt8) :
    (∃ e, escape b = [Byte.backslash, e] ∧ Piece.ofLetter? e = some b ∧ e ≠ Byte.lowerU) ∨
    (escape b = [Byte.backslash, Byte.lowerU, Byte.zero, Byte.zero,
      hexDigit (b.toNat / 16), hexDigit (b.toNat % 16)] ∧ b < 0x20) ∨
    (escape b = [b] ∧ ¬ b < 0x20 ∧ b ≠ Byte.quote ∧ b ≠ Byte.backslash) := by
  unfold escape
  split
  -- the byte has no letter of its own
  case h_8 hQuote hBackslash _ _ _ _ _ =>
    split
    · next h => exact .inr (.inl ⟨rfl, h⟩)
    · next h => exact .inr (.inr ⟨rfl, h, hQuote, hBackslash⟩)
  all_goals exact .inl ⟨_, rfl, rfl, by decide⟩

/-! ## What a text's bytes spell -/

theorem ofRaw?_unit (a b c d : UInt8) (rest : Bytes) :
    Piece.ofRaw? (Byte.backslash :: Byte.lowerU :: a :: b :: c :: d :: rest) = do
      let u ← Piece.hex4? a b c d
      return .unit u :: (← Piece.ofRaw? rest) :=
  Piece.ofRaw?.eq_2 ..

theorem ofRaw?_letter {e : UInt8} (h : e ≠ Byte.lowerU) (rest : Bytes) :
    Piece.ofRaw? (Byte.backslash :: e :: rest) = do
      let b ← Piece.ofLetter? e
      return .byte b :: (← Piece.ofRaw? rest) := by
  apply Piece.ofRaw?.eq_3
  rintro a b c d tail rfl
  exact absurd rfl h

theorem ofRaw?_byte {b : UInt8} (h : b ≠ Byte.backslash) (rest : Bytes) :
    Piece.ofRaw? (b :: rest) = (Piece.ofRaw? rest).map (.byte b :: ·) := by
  rw [Piece.ofRaw?.eq_4 b rest (fun _ _ _ _ _ hb => absurd hb h) fun _ _ hb => absurd hb h]
  cases Piece.ofRaw? rest <;> rfl

theorem ofRaw?_escape_append (b : UInt8) (rest : Bytes) :
    Piece.ofRaw? (escape b ++ rest) = (Piece.ofRaw? rest).map (Piece.ofByte b :: ·) := by
  unfold Piece.ofByte
  rcases escape_cases b with ⟨e, hEscape, hLetter, hUnit⟩ | ⟨hEscape, hLt⟩ | ⟨hEscape, _, _, hNe⟩
  · -- a letter
    rw [hEscape, if_neg (by simp)]
    show Piece.ofRaw? (Byte.backslash :: e :: rest) = _
    rw [ofRaw?_letter hUnit, hLetter]
    cases Piece.ofRaw? rest <;> rfl
  · -- a unit, which is the byte in hexadecimal digits
    have hMod : b.toNat % 16 < 16 := Nat.mod_lt _ (by omega)
    have hNat : ((0 * 16 + 0) * 16 + b.toNat / 16) * 16 + b.toNat % 16 = b.toNat := by omega
    have hHex : Piece.hex4? Byte.zero Byte.zero (hexDigit (b.toNat / 16))
        (hexDigit (b.toNat % 16)) = some b.toNat := by
      rw [Piece.hex4?, hexValue?_hexDigit (toNat_div_lt b), hexValue?_hexDigit hMod,
        show Byte.hexValue? Byte.zero = some 0 from rfl]
      exact congrArg some hNat
    rw [hEscape, if_pos (by simp)]
    show Piece.ofRaw?
      (Byte.backslash :: Byte.lowerU :: Byte.zero :: Byte.zero :: _ :: _ :: rest) = _
    rw [ofRaw?_unit, hHex]
    cases Piece.ofRaw? rest <;> rfl
  · -- the byte itself
    rw [hEscape, if_neg (by simp)]
    exact ofRaw?_byte hNe rest

theorem ofRaw?_flatMap_escape (bytes : Bytes) :
    Piece.ofRaw? (bytes.flatMap escape) = some (bytes.map Piece.ofByte) := by
  induction bytes with
  | nil => rfl
  | cons b rest ih =>
    rw [List.flatMap_cons, ofRaw?_escape_append, ih, List.map_cons, Option.map_some]

/-- A unit below the halves of pairs stands for its own character, whatever follows. -/
theorem encode?_ascii {u : Nat} (h : u < 0x80) (rest : List Piece) :
    Piece.encode? (.unit u :: rest) = (Piece.encode? rest).map (UInt8.ofNat u :: ·) := by
  have hHigh : Piece.isHigh u = false := by
    simp only [Piece.isHigh, Bool.and_eq_false_iff, decide_eq_false_iff_not]
    omega
  have hLow : Piece.isLow u = false := by
    simp only [Piece.isLow, Bool.and_eq_false_iff, decide_eq_false_iff_not]
    omega
  have hAll : ∀ u : Fin 0x80, String.utf8EncodeChar (Char.ofNat u) = [UInt8.ofNat u] := by decide
  have hChar : String.utf8EncodeChar (Char.ofNat u) = [UInt8.ofNat u] := hAll ⟨u, h⟩
  -- what follows decides nothing, but it has to be known for the cases to open
  match rest with
  | [] | .byte _ :: _ | .unit _ :: _ =>
    simp only [Piece.encode?, hHigh, hLow, hChar, Bool.or_self, Bool.false_eq_true, if_false]
    first
      | rfl
      | (generalize Piece.encode? _ = tail; cases tail <;> rfl)

theorem encode?_ofByte (b : UInt8) (rest : List Piece) :
    Piece.encode? (Piece.ofByte b :: rest) = (Piece.encode? rest).map (b :: ·) := by
  unfold Piece.ofByte
  split
  · next h =>
    -- only a control character is written with six bytes
    have hLt : b < 0x20 := by
      rcases escape_cases b with ⟨e, hEscape, _⟩ | ⟨_, hLt⟩ | ⟨hEscape, _⟩
      · simp [hEscape] at h
      · exact hLt
      · simp [hEscape] at h
    have hNat : b.toNat < 0x80 := by
      have h20 : b.toNat < 0x20 := hLt
      omega
    rw [encode?_ascii hNat, UInt8.ofNat_toNat]
  · rw [Piece.encode?]
    cases Piece.encode? rest <;> rfl

theorem encode?_map_ofByte (bytes : Bytes) :
    Piece.encode? (bytes.map Piece.ofByte) = some bytes := by
  induction bytes with
  | nil => rfl
  | cons b rest ih => rw [List.map_cons, encode?_ofByte, ih, Option.map_some]

/-- A text is what its bytes spell. -/
@[simp]
theorem text?_rawOf (s : String) : text? (rawOf s) = some s := by
  rw [text?, rawOf, ofRaw?_flatMap_escape]
  show (Piece.encode? _).bind Bytes.text? = _
  rw [encode?_map_ofByte]
  exact Bytes.text?_ofString s

theorem rawOf_inj {s t : String} : rawOf s = rawOf t ↔ s = t := by
  constructor
  · intro h
    have hText := text?_rawOf s
    rw [h, text?_rawOf] at hText
    exact (Option.some.inj hText).symm
  · rintro rfl
    rfl

/-! ## Where a written string ends -/

theorem scanString_unit (a b c d : UInt8) (rest : Bytes) :
    scanString (Byte.backslash :: Byte.lowerU :: a :: b :: c :: d :: rest) = do
      guard ([a, b, c, d].all fun x => (Byte.hexValue? x).isSome)
      let (raw, rest) ← scanString rest
      return (Byte.backslash :: Byte.lowerU :: a :: b :: c :: d :: raw, rest) :=
  scanString.eq_3 ..

theorem scanString_letter {e : UInt8} (h : e ≠ Byte.lowerU) (rest : Bytes) :
    scanString (Byte.backslash :: e :: rest) = do
      guard ([Byte.quote, Byte.backslash, Byte.slash, Byte.lowerB, Byte.lowerF, Byte.lowerN,
        Byte.lowerR, Byte.lowerT].contains e)
      let (raw, rest) ← scanString rest
      return (Byte.backslash :: e :: raw, rest) := by
  apply scanString.eq_4
  rintro a b c d tail rfl
  exact absurd rfl h

theorem scanString_byte {b : UInt8} (hLow : 0x20 ≤ b) (hQuote : b ≠ Byte.quote)
    (hNe : b ≠ Byte.backslash) (rest : Bytes) :
    scanString (b :: rest) = (scanString rest).map fun scanned => (b :: scanned.1, scanned.2) := by
  have hPlain : (0x20 ≤ b && b != Byte.backslash) = true := by
    rw [Bool.and_eq_true, bne_iff_ne, decide_eq_true_eq]
    exact ⟨hLow, hNe⟩
  rw [scanString.eq_5 b rest hQuote (fun _ _ _ _ _ hb => absurd hb hNe) fun _ _ hb => absurd hb hNe,
    hPlain]
  cases scanString rest <;> rfl

theorem isSome_hexValue?_hexDigit {n : Nat} (h : n < 16) :
    (Byte.hexValue? (hexDigit n)).isSome = true := by
  rw [hexValue?_hexDigit h, Option.isSome_some]

theorem scanString_escape_append (b : UInt8) (rest : Bytes) :
    scanString (escape b ++ rest) =
      (scanString rest).map fun scanned => (escape b ++ scanned.1, scanned.2) := by
  rcases escape_cases b with
    ⟨e, hEscape, hLetter, hUnit⟩ | ⟨hEscape, _⟩ | ⟨hEscape, hLow, hQuote, hNe⟩
  · -- every letter that is written is one of those that are read
    have hKnown : [Byte.quote, Byte.backslash, Byte.slash, Byte.lowerB, Byte.lowerF, Byte.lowerN,
        Byte.lowerR, Byte.lowerT].contains e = true := by
      unfold Piece.ofLetter? at hLetter
      split at hLetter
      case h_9 => cases hLetter
      all_goals decide
    rw [hEscape]
    show scanString (Byte.backslash :: e :: rest) = _
    rw [scanString_letter hUnit, hKnown]
    cases scanString rest <;> rfl
  · -- and every digit is a hexadecimal one
    have hHex : [Byte.zero, Byte.zero, hexDigit (b.toNat / 16), hexDigit (b.toNat % 16)].all
        (fun x => (Byte.hexValue? x).isSome) = true := by
      have hHigh := isSome_hexValue?_hexDigit (toNat_div_lt b)
      have hLow : (Byte.hexValue? (hexDigit (b.toNat % 16))).isSome = true :=
        isSome_hexValue?_hexDigit (Nat.mod_lt _ (by omega))
      have hZero : (Byte.hexValue? Byte.zero).isSome = true := rfl
      simp only [List.all_cons, List.all_nil, hHigh, hLow, hZero, Bool.and_self]
    rw [hEscape]
    show scanString (Byte.backslash :: Byte.lowerU :: Byte.zero :: Byte.zero :: _ :: _ :: rest) = _
    rw [scanString_unit, hHex]
    cases scanString rest <;> rfl
  · rw [hEscape]
    exact scanString_byte (UInt8.not_lt.1 hLow) hQuote hNe rest

/-- The bytes of a text are scanned up to the quote behind them. -/
theorem scanString_rawOf (s : String) (rest : Bytes) :
    scanString (rawOf s ++ Byte.quote :: rest) = some (rawOf s, rest) := by
  unfold rawOf
  induction Bytes.ofString s with
  | nil => rfl
  | cons b bytes ih =>
    rw [List.flatMap_cons, List.append_assoc, scanString_escape_append, ih, Option.map_some]

end FeatureFlags.Json
