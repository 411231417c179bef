import FeatureFlags.Http.Message
import FeatureFlags.Proofs.Bytes

/-!
# Texts in header values

A text of visible characters can be sent in a header, and whoever reads the header finds the text
again. Other texts can be sent too, unless a control character is in them, but they are not found
again as texts.

* `headerText?_ofString` — a visible text is found again.
* `headerValue?_ofString` — which texts can be sent.
* `getAll_set_self`, `getAll_set_of_ne` — what a header line does to the values of a header.
-/

namespace FeatureFlags

namespace Http

/-! ## Visible texts -/

/-- Whether a character may stand in a header value that is read as a text. -/
def isVisible (c : Char) : Bool :=
  (0x20 ≤ c.toNat && c.toNat < 0x7F) || c.toNat == 0x09

theorem toNat_lt_of_isVisible {c : Char} (h : isVisible c = true) : c.toNat < 0x7F := by
  simp only [isVisible, Bool.or_eq_true, Bool.and_eq_true, decide_eq_true_eq, beq_iff_eq] at h
  omega

theorem toNat_toUInt8 {c : Char} (h : isVisible c = true) : c.toUInt8.toNat = c.toNat := by
  have hLt := toNat_lt_of_isVisible h
  show c.val.toNat % 256 = c.val.toNat
  exact Nat.mod_eq_of_lt (Nat.lt_trans hLt (by decide))

theorem isVisibleByte_toUInt8 {c : Char} (h : isVisible c = true) :
    isVisibleByte c.toUInt8 = true := by
  have hNat := toNat_toUInt8 h
  simp only [isVisible, Bool.or_eq_true, Bool.and_eq_true, decide_eq_true_eq, beq_iff_eq] at h
  simp only [isVisibleByte, Bool.or_eq_true, Bool.and_eq_true, decide_eq_true_eq,
    UInt8.le_iff_toNat_le, UInt8.lt_iff_toNat_lt, ← UInt8.toNat_inj]
  rw [hNat]
  exact h

variable {s : String}

theorem ofString_eq_map (h : ∀ c ∈ s.toList, isVisible c = true) :
    Bytes.ofString s = s.toList.map Char.toUInt8 :=
  Bytes.ofString_eq_ofAscii fun c hc => Nat.lt_trans (toNat_lt_of_isVisible (h c hc)) (by decide)

theorem all_isVisibleByte_ofString (h : ∀ c ∈ s.toList, isVisible c = true) :
    (Bytes.ofString s).all isVisibleByte = true := by
  rw [ofString_eq_map h, List.all_map, List.all_eq_true]
  exact fun c hc => isVisibleByte_toUInt8 (h c hc)

/-- A visible text that was sent is found again. -/
theorem headerText?_ofString (h : ∀ c ∈ s.toList, isVisible c = true) :
    headerText? (Bytes.ofString s) = some s := by
  rw [headerText?, if_pos (all_isVisibleByte_ofString h), ofString_eq_map h, List.map_map]
  -- every character is below 128, so its byte gives it back
  have hSame : s.toList.map ((fun b => Char.ofNat b.toNat) ∘ Char.toUInt8) = s.toList := by
    rw [List.map_congr_left (g := id), List.map_id]
    intro c hc
    show Char.ofNat c.toUInt8.toNat = c
    rw [toNat_toUInt8 (h c hc), Char.ofNat_toNat]
  rw [hSame, String.ofList_toList]

/-! ## Texts that can be sent -/

/-- Whether a character may stand in a header value: of the control characters only the tab may. -/
def isSendable (c : Char) : Bool :=
  (0x20 ≤ c.toNat && c.toNat != 0x7F) || c.toNat == 0x09

/-- Whether a text can be sent as a header value. -/
def IsSendable (s : String) : Prop :=
  ∀ c ∈ s.toList, isSendable c = true

instance (s : String) : Decidable (IsSendable s) :=
  decidable_of_iff (s.toList.all isSendable = true) List.all_eq_true

theorem isSendable_of_isVisible {c : Char} (h : isVisible c = true) : isSendable c = true := by
  simp only [isVisible, Bool.or_eq_true, Bool.and_eq_true, decide_eq_true_eq, beq_iff_eq] at h
  simp only [isSendable, Bool.or_eq_true, Bool.and_eq_true, decide_eq_true_eq, bne_iff_ne,
    beq_iff_eq]
  omega

/-- Bytes beyond ASCII may stand in a header value. -/
theorem isValueByte_of_le {n : Nat} (hLow : 0x80 ≤ n) (hHigh : n < 0x100) :
    isValueByte (UInt8.ofNat n) = true := by
  have hNat : (UInt8.ofNat n).toNat = n := Nat.mod_eq_of_lt hHigh
  simp only [isValueByte, Bool.or_eq_true, Bool.and_eq_true, decide_eq_true_eq, ne_eq,
    UInt8.le_iff_toNat_le, ← UInt8.toNat_inj, hNat]
  left
  exact ⟨Nat.le_trans (by decide) hLow, fun h => absurd (h ▸ hLow) (by decide)⟩

theorem isValueByte_ofNat {n : Nat} (h : n < 0x80) :
    isValueByte (UInt8.ofNat n) = ((0x20 ≤ n && n != 0x7F) || n == 0x09) := by
  have hNat : (UInt8.ofNat n).toNat = n := Nat.mod_eq_of_lt (by omega)
  rw [Bool.eq_iff_iff]
  simp only [isValueByte, Bool.or_eq_true, Bool.and_eq_true, decide_eq_true_eq, ne_eq,
    UInt8.le_iff_toNat_le, ← UInt8.toNat_inj, hNat, bne_iff_ne, beq_iff_eq]
  rfl

/-- The bytes of a character may stand in a header value if the character may. -/
theorem all_isValueByte_utf8EncodeChar (c : Char) :
    (String.utf8EncodeChar c).all isValueByte = isSendable c := by
  by_cases hAscii : c.toNat < 0x80
  · rw [Bytes.utf8EncodeChar_of_lt hAscii, List.all_cons, List.all_nil, Bool.and_true,
      isValueByte_ofNat hAscii]
    rfl
  · -- every byte of a longer encoding is beyond ASCII, and so is the character
    have hSendable : isSendable c = true := by
      simp only [isSendable, Bool.or_eq_true, Bool.and_eq_true, decide_eq_true_eq, bne_iff_ne]
      left
      omega
    have hNot : ¬ c.val.toNat ≤ 0x7f := fun hLe => hAscii (Nat.lt_succ_of_le hLe)
    rw [hSendable, List.all_eq_true]
    unfold String.utf8EncodeChar
    simp only [if_neg hNot]
    intro b hb
    split at hb
    · simp only [List.mem_cons, List.not_mem_nil, or_false] at hb
      rcases hb with rfl | rfl <;> exact isValueByte_of_le (by omega) (by omega)
    · split at hb
      · simp only [List.mem_cons, List.not_mem_nil, or_false] at hb
        rcases hb with rfl | rfl | rfl <;> exact isValueByte_of_le (by omega) (by omega)
      · simp only [List.mem_cons, List.not_mem_nil, or_false] at hb
        rcases hb with rfl | rfl | rfl | rfl <;> exact isValueByte_of_le (by omega) (by omega)

theorem all_isValueByte_ofString (s : String) :
    (Bytes.ofString s).all isValueByte = true ↔ IsSendable s := by
  rw [Bytes.ofString_eq_flatMap, List.all_flatMap, List.all_eq_true]
  simp only [all_isValueByte_utf8EncodeChar]
  rfl

/-- What a text is as a header value. -/
theorem headerValue?_ofString (s : String) :
    headerValue? (Bytes.ofString s) = if IsSendable s then some (Bytes.ofString s) else none := by
  unfold headerValue?
  by_cases h : IsSendable s
  · rw [if_pos h, if_pos ((all_isValueByte_ofString s).2 h)]
  · rw [if_neg h, if_neg fun hAll => h ((all_isValueByte_ofString s).1 hAll)]

/-! ## Header lines -/

namespace Headers

variable {name other : String} {value : Bytes}

theorem getAll_set_self (h : Headers) (name : String) (value : Bytes) :
    (h.set name value).getAll name = [value] := by
  simp [getAll, set, List.filter_filter]

theorem getAll_set_of_ne (h : Headers) (hOther : other ≠ name) :
    (h.set name value).getAll other = h.getAll other := by
  have hKept : (h.filter fun e => decide (e.1 ≠ name)).filter (fun e => decide (e.1 = other)) =
      h.filter fun e => decide (e.1 = other) := by
    rw [List.filter_filter]
    apply List.filter_congr
    intro e _
    by_cases hName : e.1 = other
    · simp [hName, hOther]
    · simp [hName]
  have hLast : [(name, value)].filter (fun e => decide (e.1 = other)) = [] := by
    simp [hOther.symm]
  show ((h.filter _ ++ [(name, value)]).filter _).map _ = _
  rw [List.filter_append, hKept, hLast, List.append_nil]
  rfl

end Headers

end Http

end FeatureFlags
