import FeatureFlags.Proofs.Json.Numeral
import FeatureFlags.Proofs.Json.Text
import Mathlib.Data.List.DropRight

/-!
# Documents read back

A document of the notation is read back from what is written for it, in both styles and at every
depth, and nothing beyond it is read. The fuel that is needed is the number of bytes written.

* `Doc.IsWellWritten` — the documents of the notation: strings end at their own quote, and numerals
  are those that the notation has.
* `readDoc_writeAt` — reading a written document gives it back, with what follows it.
* `ofBytes?_write` — the same for a document that stands alone.
-/

namespace FeatureFlags.Json

/-- Whether the bytes between two quotes are scanned up to the second one. -/
def IsRaw (raw : Bytes) : Prop :=
  ∀ rest, scanString (raw ++ Byte.quote :: rest) = some (raw, rest)

theorem isRaw_rawOf (s : String) : IsRaw (rawOf s) :=
  scanString_rawOf s

mutual

/-- Whether a document is one of the notation. -/
def Doc.IsWellWritten : Doc → Prop
  | .null | .bool _ => True
  | .number n => n.IsJson
  | .string raw => IsRaw raw
  | .array items => Doc.AreWellWritten items
  | .object members => Doc.MembersWellWritten members

/-- Whether all items of an array are documents of the notation. -/
def Doc.AreWellWritten : List Doc → Prop
  | [] => True
  | item :: items => item.IsWellWritten ∧ Doc.AreWellWritten items

/-- Whether all members of an object are documents of the notation, under such names. -/
def Doc.MembersWellWritten : List (Bytes × Doc) → Prop
  | [] => True
  | (name, value) :: members =>
    IsRaw name ∧ value.IsWellWritten ∧ Doc.MembersWellWritten members

end

/-! ## Blanks -/

theorem skipBlank_of_not_blank {b : UInt8} (h : Byte.isBlank b = false) (s : Bytes) :
    skipBlank (b :: s) = b :: s := by
  unfold skipBlank
  rw [List.dropWhile_cons, h]
  rfl

theorem isBlank_lineBreak {style : Style} {depth : Nat} {b : UInt8}
    (h : b ∈ style.lineBreak depth) : Byte.isBlank b = true := by
  cases style with
  | compact => cases h
  | indented =>
    rcases List.mem_cons.1 h with rfl | h
    · rfl
    · rw [(List.mem_replicate.1 h).2]
      rfl

@[simp]
theorem skipBlank_lineBreak (style : Style) (depth : Nat) (s : Bytes) :
    skipBlank (style.lineBreak depth ++ s) = skipBlank s := by
  unfold skipBlank
  exact List.dropWhile_append_of_pos fun _ hb => isBlank_lineBreak hb

@[simp]
theorem skipBlank_skipBlank (s : Bytes) : skipBlank (skipBlank s) = skipBlank s :=
  List.dropWhile_idempotent _ s

theorem readDoc_congr {s s' : Bytes} (h : skipBlank s = skipBlank s') (fuel : Nat) :
    readDoc fuel s = readDoc fuel s' := by
  cases fuel with
  | zero => rfl
  | succ fuel => rw [readDoc, readDoc, h]

theorem readMembers_congr {s s' : Bytes} (h : skipBlank s = skipBlank s') (fuel : Nat) :
    readMembers fuel s = readMembers fuel s' := by
  cases fuel with
  | zero => rfl
  | succ fuel => rw [readMembers, readMembers, h]

theorem readItems_congr {s s' : Bytes} (h : skipBlank s = skipBlank s') (fuel : Nat) :
    readItems fuel s = readItems fuel s' := by
  cases fuel with
  | zero => rfl
  | succ fuel => rw [readItems, readItems, readDoc_congr h]

/-! ## The first byte -/

/-- Whether a byte begins a document and could not be anything else there. -/
def BeginsDoc (b : UInt8) : Prop :=
  Byte.isBlank b = false ∧ b ≠ Byte.closeBracket

theorem beginsDoc_digit {b : UInt8} (h : Byte.isDigit b = true) : BeginsDoc b := by
  rw [Byte.isDigit, Bool.and_eq_true, decide_eq_true_eq, decide_eq_true_eq] at h
  obtain ⟨hLow, hHigh⟩ := h
  constructor
  · simp only [Byte.isBlank, Bool.or_eq_false_iff, beq_eq_false_iff_ne]
    refine ⟨⟨⟨?_, ?_⟩, ?_⟩, ?_⟩ <;>
    · rintro rfl
      exact absurd hLow (by decide)
  · rintro rfl
    exact absurd hHigh (by decide)

/-- A numeral begins with a minus or a digit. -/
theorem ofAscii_chars_cons {n : Decimal.Numeral} (h : n.IsJson) :
    ∃ b tail, Bytes.ofAscii n.chars = b :: tail ∧ (b = Byte.minus ∨ Byte.isDigit b = true) := by
  obtain ⟨c, ds, hWhole⟩ := List.exists_cons_of_ne_nil h.whole_ne_nil
  rw [ofAscii_chars]
  by_cases hSign : n.negative = true
  · rw [if_pos hSign]
    exact ⟨_, _, rfl, .inl rfl⟩
  · rw [if_neg hSign, hWhole]
    exact ⟨_, _, rfl, .inr (isDigit_toUInt8 (h.whole c (hWhole ▸ List.mem_cons_self)))⟩

theorem writeAt_cons {doc : Doc} (h : doc.IsWellWritten) (style : Style) (depth : Nat) :
    ∃ b tail, doc.writeAt style depth = b :: tail ∧ BeginsDoc b := by
  -- whatever it is, its first byte is fixed, except for numbers
  match doc with
  | .null => exact ⟨_, _, rfl, by decide, by decide⟩
  | .bool true => exact ⟨_, _, rfl, by decide, by decide⟩
  | .bool false => exact ⟨_, _, rfl, by decide, by decide⟩
  | .number n =>
    have hn : n.IsJson := h
    obtain ⟨b, tail, hCons, hb⟩ := ofAscii_chars_cons hn
    refine ⟨b, tail, hCons, ?_⟩
    rcases hb with rfl | hb
    · exact ⟨by decide, by decide⟩
    · exact beginsDoc_digit hb
  | .string raw => exact ⟨_, _, rfl, by decide, by decide⟩
  | .array [] => exact ⟨_, _, rfl, by decide, by decide⟩
  | .array (item :: items) => exact ⟨_, _, rfl, by decide, by decide⟩
  | .object [] => exact ⟨_, _, rfl, by decide, by decide⟩
  | .object ((name, value) :: members) => exact ⟨_, _, rfl, by decide, by decide⟩

/-! ## What follows a member -/

theorem endsNumber_lineBreak {style : Style} {depth : Nat} {rest : Bytes} (h : EndsNumber rest) :
    EndsNumber (style.lineBreak depth ++ rest) := by
  cases style with
  | compact => exact h
  | indented =>
    rintro b hb
    cases hb
    exact ⟨by decide, by decide, by decide, by decide⟩

theorem endsNumber_closing {b : UInt8}
    (h : b = Byte.comma ∨ b = Byte.closeBracket ∨ b = Byte.closeBrace) (rest : Bytes) :
    EndsNumber (b :: rest) := by
  rintro b' hb'
  cases hb'
  rcases h with rfl | rfl | rfl <;> exact ⟨by decide, by decide, by decide, by decide⟩

theorem endsNumber_writeItems (style : Style) (depth : Nat) (items : List Doc) {rest : Bytes}
    (h : EndsNumber rest) : EndsNumber (Doc.writeItems style depth items ++ rest) := by
  cases items with
  | nil => exact h
  | cons item items => exact endsNumber_closing (.inl rfl) _

theorem endsNumber_writeMembers (style : Style) (depth : Nat) (members : List (Bytes × Doc))
    {rest : Bytes} (h : EndsNumber rest) :
    EndsNumber (Doc.writeMembers style depth members ++ rest) := by
  match members with
  | [] => exact h
  | (_, _) :: _ => exact endsNumber_closing (.inl rfl) _

/-! ## One step of reading -/

theorem readDoc_string {raw : Bytes} (h : IsRaw raw) (fuel : Nat) (rest : Bytes) :
    readDoc (fuel + 1) (Byte.quote :: (raw ++ Byte.quote :: rest)) = some (.string raw, rest) := by
  show (scanString (raw ++ Byte.quote :: rest)).map _ = _
  rw [h rest]
  rfl

theorem readDoc_number {n : Decimal.Numeral} (h : n.IsJson) (fuel : Nat) {rest : Bytes}
    (hRest : EndsNumber rest) :
    readDoc (fuel + 1) (Bytes.ofAscii n.chars ++ rest) = some (.number n, rest) := by
  have hScan := scanNumber_ofAscii h hRest
  obtain ⟨b, tail, hCons, hb⟩ := ofAscii_chars_cons h
  have hBlank : Byte.isBlank b = false := by
    rcases hb with rfl | hb
    · decide
    · exact (beginsDoc_digit hb).1
  rw [hCons, List.cons_append] at hScan ⊢
  rw [readDoc, skipBlank_of_not_blank hBlank]
  -- None of the other documents begins with a minus or a digit.
  split
  case h_7 => rw [hScan, Option.map_some]
  all_goals
    next hEq =>
      obtain rfl := (List.cons.inj hEq).1
      rcases hb with hb | hb <;> exact absurd hb (by decide)

/-- What is read behind the bracket that opens an array. -/
def arrayFrom (fuel : Nat) (s : Bytes) : Option (Doc × Bytes) :=
  match s with
  | Byte.closeBracket :: rest => some (.array [], rest)
  | rest => (readItems fuel rest).map fun (items, rest) => (.array items, rest)

/-- What is read behind the brace that opens an object. -/
def objectFrom (fuel : Nat) (s : Bytes) : Option (Doc × Bytes) :=
  match s with
  | Byte.closeBrace :: rest => some (.object [], rest)
  | rest => (readMembers fuel rest).map fun (members, rest) => (.object members, rest)

/-- What is read behind an item. -/
def itemsFrom (fuel : Nat) (item : Doc) (s : Bytes) : Option (List Doc × Bytes) :=
  match s with
  | Byte.closeBracket :: rest => some ([item], rest)
  | Byte.comma :: rest => do
    let (items, rest) ← readItems fuel rest
    some (item :: items, rest)
  | _ => none

/-- What is read behind a member. -/
def membersFrom (fuel : Nat) (name : Bytes) (value : Doc) (s : Bytes) :
    Option (List (Bytes × Doc) × Bytes) :=
  match s with
  | Byte.closeBrace :: rest => some ([(name, value)], rest)
  | Byte.comma :: rest => do
    let (members, rest) ← readMembers fuel rest
    some ((name, value) :: members, rest)
  | _ => none

theorem readDoc_array (fuel : Nat) {s : Bytes} (hs : Byte.closeBracket ∉ (skipBlank s).head?) :
    readDoc (fuel + 1) (Byte.openBracket :: s) =
      (readItems fuel s).map fun read => (Doc.array read.1, read.2) := by
  -- blanks are skipped once here and once more by whoever reads the items
  have hItems : readItems fuel (skipBlank s) = readItems fuel s :=
    readItems_congr (skipBlank_skipBlank s) fuel
  rw [← hItems]
  show arrayFrom fuel (skipBlank s) = _
  unfold arrayFrom
  split
  · next rest hEq =>
    rw [hEq] at hs
    exact absurd rfl hs
  · rfl

theorem readDoc_object (fuel : Nat) {s : Bytes} (hs : Byte.closeBrace ∉ (skipBlank s).head?) :
    readDoc (fuel + 1) (Byte.openBrace :: s) =
      (readMembers fuel s).map fun read => (Doc.object read.1, read.2) := by
  -- as with arrays, blanks are skipped twice
  have hMembers : readMembers fuel (skipBlank s) = readMembers fuel s :=
    readMembers_congr (skipBlank_skipBlank s) fuel
  rw [← hMembers]
  show objectFrom fuel (skipBlank s) = _
  unfold objectFrom
  split
  · next rest hEq =>
    rw [hEq] at hs
    exact absurd rfl hs
  · rfl

/-- Reading the items of an array, when the first one is known. -/
theorem readItems_succ {fuel : Nat} {s rest : Bytes} {item : Doc}
    (h : readDoc fuel s = some (item, rest)) :
    readItems (fuel + 1) s = itemsFrom fuel item (skipBlank rest) := by
  rw [readItems, h]
  rfl

/-- Reading the members of an object, when the first one is known. -/
theorem readMembers_succ {fuel : Nat} {s name rest : Bytes} {value : Doc} (style : Style)
    (hName : IsRaw name) (h : readDoc fuel s = some (value, rest)) :
    readMembers (fuel + 1) (quoted name ++ (style.colon ++ s)) =
      membersFrom fuel name value (skipBlank rest) := by
  have hColon : skipBlank (style.colon ++ s) = Byte.colon :: (style.colon.drop 1 ++ s) := by
    cases style <;> rfl
  -- behind the colon there may be a blank, which is skipped
  have hSpace : readDoc fuel (style.colon.drop 1 ++ s) = some (value, rest) := by
    rw [← h]
    apply readDoc_congr
    cases style <;> rfl
  have hQuoted : quoted name ++ (style.colon ++ s) =
      Byte.quote :: (name ++ Byte.quote :: (style.colon ++ s)) := by
    simp only [quoted, List.cons_append, List.append_assoc, List.nil_append]
  rw [hQuoted, readMembers, skipBlank_of_not_blank (by decide)]
  show ((scanString (name ++ Byte.quote :: (style.colon ++ s))).bind _) = _
  rw [hName (style.colon ++ s), Option.bind_some]
  simp only [hColon]
  show (readDoc fuel (style.colon.drop 1 ++ s)).bind _ = _
  rw [hSpace]
  rfl

/-! ## Whole documents -/

theorem writeAt_array_cons_append (style : Style) (depth : Nat) (item : Doc) (items : List Doc)
    (rest : Bytes) :
    Doc.writeAt style depth (.array (item :: items)) ++ rest =
      Byte.openBracket :: (style.lineBreak (depth + 1) ++ (item.writeAt style (depth + 1) ++
        (Doc.writeItems style (depth + 1) items ++
          (style.lineBreak depth ++ Byte.closeBracket :: rest)))) := by
  simp only [Doc.writeAt, List.cons_append, List.append_assoc, List.nil_append]

theorem writeAt_object_cons_append (style : Style) (depth : Nat) (name : Bytes) (value : Doc)
    (members : List (Bytes × Doc)) (rest : Bytes) :
    Doc.writeAt style depth (.object ((name, value) :: members)) ++ rest =
      Byte.openBrace :: (style.lineBreak (depth + 1) ++ (quoted name ++ (style.colon ++
        (value.writeAt style (depth + 1) ++ (Doc.writeMembers style (depth + 1) members ++
          (style.lineBreak depth ++ Byte.closeBrace :: rest)))))) := by
  simp only [Doc.writeAt, List.cons_append, List.append_assoc, List.nil_append]

theorem writeItems_cons_append (style : Style) (depth : Nat) (item : Doc) (items : List Doc)
    (rest : Bytes) :
    Doc.writeItems style depth (item :: items) ++ rest =
      Byte.comma :: (style.lineBreak depth ++ (item.writeAt style depth ++
        (Doc.writeItems style depth items ++ rest))) := by
  simp only [Doc.writeItems, List.cons_append, List.append_assoc]

theorem writeMembers_cons_append (style : Style) (depth : Nat) (name : Bytes) (value : Doc)
    (members : List (Bytes × Doc)) (rest : Bytes) :
    Doc.writeMembers style depth ((name, value) :: members) ++ rest =
      Byte.comma :: (style.lineBreak depth ++ (quoted name ++ (style.colon ++
        (value.writeAt style depth ++ (Doc.writeMembers style depth members ++ rest))))) := by
  simp only [Doc.writeMembers, List.cons_append, List.append_assoc]

/-- What follows the items of an array. -/
theorem endsNumber_items (style : Style) (depth outer : Nat) (items : List Doc) (rest : Bytes) :
    EndsNumber (Doc.writeItems style depth items ++
      (style.lineBreak outer ++ Byte.closeBracket :: rest)) :=
  endsNumber_writeItems _ _ _ (endsNumber_lineBreak (endsNumber_closing (.inr (.inl rfl)) rest))

/-- What follows the members of an object. -/
theorem endsNumber_members (style : Style) (depth outer : Nat) (members : List (Bytes × Doc))
    (rest : Bytes) :
    EndsNumber (Doc.writeMembers style depth members ++
      (style.lineBreak outer ++ Byte.closeBrace :: rest)) :=
  endsNumber_writeMembers _ _ _ (endsNumber_lineBreak (endsNumber_closing (.inr (.inr rfl)) rest))

-- The induction is on the document. A list of items is read from behind its first item, so that
-- each of the three statements is about one part of the document.
mutual

/-- Reading a written document gives it back, with what follows it. -/
theorem readDoc_writeAt (style : Style) (depth : Nat) (doc : Doc) (h : doc.IsWellWritten)
    (fuel : Nat) (hFuel : (doc.writeAt style depth).length ≤ fuel) {rest : Bytes}
    (hRest : EndsNumber rest) :
    readDoc fuel (doc.writeAt style depth ++ rest) = some (doc, rest) := by
  -- a document takes a byte at least, so there is fuel for one step
  obtain ⟨b, tail, hCons, -⟩ := writeAt_cons h style depth
  have hPos : 0 < (doc.writeAt style depth).length := by
    rw [hCons]
    exact Nat.succ_pos _
  obtain ⟨fuel, rfl⟩ : ∃ n, fuel = n + 1 := ⟨fuel - 1, by omega⟩
  match doc with
  | .null | .bool true | .bool false => rfl
  | .number n => exact readDoc_number h fuel hRest
  | .string raw =>
    have hWritten : Doc.writeAt style depth (.string raw) ++ rest =
        Byte.quote :: (raw ++ Byte.quote :: rest) := by
      simp only [Doc.writeAt, quoted, List.cons_append, List.append_assoc, List.nil_append]
    rw [hWritten]
    exact readDoc_string h fuel rest
  | .array [] => rfl
  | .array (item :: items) =>
    obtain ⟨hItem, hItems⟩ := h
    simp only [Doc.writeAt, List.length_cons, List.length_append] at hFuel
    obtain ⟨fuel, rfl⟩ : ∃ n, fuel = n + 1 := ⟨fuel - 1, by omega⟩
    have hFirst := readDoc_writeAt style (depth + 1) item hItem fuel (by omega)
      (endsNumber_items style (depth + 1) depth items rest)
    have hAll := readItems_writeItems style (depth + 1) depth items hItems hFirst (by omega)
    -- an item never begins with the bracket that would close an empty array
    obtain ⟨b, tail, hCons, hBegins⟩ := writeAt_cons hItem style (depth + 1)
    rw [writeAt_array_cons_append, readDoc_array, readItems_congr (skipBlank_lineBreak _ _ _),
      hAll, Option.map_some]
    rw [skipBlank_lineBreak, hCons, List.cons_append, skipBlank_of_not_blank hBegins.1]
    exact fun hEq => hBegins.2 (Option.some.inj hEq)
  | .object [] => rfl
  | .object ((name, value) :: members) =>
    obtain ⟨hName, hValue, hMembers⟩ := h
    simp only [Doc.writeAt, List.length_cons, List.length_append] at hFuel
    obtain ⟨fuel, rfl⟩ : ∃ n, fuel = n + 1 := ⟨fuel - 1, by omega⟩
    have hFirst := readDoc_writeAt style (depth + 1) value hValue fuel (by omega)
      (endsNumber_members style (depth + 1) depth members rest)
    have hAll := readMembers_writeMembers style (depth + 1) depth members hMembers hName hFirst
      (by omega)
    rw [writeAt_object_cons_append, readDoc_object, readMembers_congr (skipBlank_lineBreak _ _ _),
      hAll, Option.map_some]
    -- nor does a member begin with a brace, since its name has a quote in front
    rw [skipBlank_lineBreak, quoted, List.cons_append, List.cons_append,
      skipBlank_of_not_blank (by decide)]
    exact fun hEq => absurd (Option.some.inj hEq) (by decide)

/-- Reading the items of an array, the first of which is known. -/
theorem readItems_writeItems (style : Style) (depth outer : Nat) (items : List Doc)
    (h : Doc.AreWellWritten items) {fuel : Nat} {s rest : Bytes} {item : Doc}
    (hFirst : readDoc fuel s = some (item, Doc.writeItems style depth items ++
      (style.lineBreak outer ++ Byte.closeBracket :: rest)))
    (hFuel : (Doc.writeItems style depth items).length ≤ fuel) :
    readItems (fuel + 1) s = some (item :: items, rest) := by
  rw [readItems_succ hFirst]
  match items with
  | [] =>
    rw [Doc.writeItems, List.nil_append, skipBlank_lineBreak, skipBlank_of_not_blank (by decide)]
    rfl
  | next :: items =>
    obtain ⟨hNext, hItems⟩ := h
    simp only [Doc.writeItems, List.length_cons, List.length_append] at hFuel
    obtain ⟨fuel, rfl⟩ : ∃ n, fuel = n + 1 := ⟨fuel - 1, by omega⟩
    -- the comma counts for the one unit of fuel that the step takes
    have hRead := readDoc_writeAt style depth next hNext fuel (by omega)
      (endsNumber_items style depth outer items rest)
    have hAll := readItems_writeItems style depth outer items hItems hRead (by omega)
    rw [writeItems_cons_append, skipBlank_of_not_blank (by decide)]
    show (readItems _ _).bind _ = _
    rw [readItems_congr (skipBlank_lineBreak _ _ _), hAll]
    rfl

/-- Reading the members of an object, the first of which is known. -/
theorem readMembers_writeMembers (style : Style) (depth outer : Nat) (members : List (Bytes × Doc))
    (h : Doc.MembersWellWritten members) {fuel : Nat} {s name rest : Bytes} {value : Doc}
    (hName : IsRaw name)
    (hFirst : readDoc fuel s = some (value, Doc.writeMembers style depth members ++
      (style.lineBreak outer ++ Byte.closeBrace :: rest)))
    (hFuel : (Doc.writeMembers style depth members).length ≤ fuel) :
    readMembers (fuel + 1) (quoted name ++ (style.colon ++ s)) =
      some ((name, value) :: members, rest) := by
  rw [readMembers_succ style hName hFirst]
  match members with
  | [] =>
    rw [Doc.writeMembers, List.nil_append, skipBlank_lineBreak, skipBlank_of_not_blank (by decide)]
    rfl
  | (next, nextValue) :: members =>
    obtain ⟨hNext, hNextValue, hMembers⟩ := h
    simp only [Doc.writeMembers, List.length_cons, List.length_append] at hFuel
    -- the name that comes next takes bytes, so there is fuel for it
    obtain ⟨fuel, rfl⟩ : ∃ n, fuel = n + 1 := ⟨fuel - 1, by omega⟩
    have hRead := readDoc_writeAt style depth nextValue hNextValue fuel (by omega)
      (endsNumber_members style depth outer members rest)
    have hAll := readMembers_writeMembers style depth outer members hMembers hNext hRead (by omega)
    rw [writeMembers_cons_append, skipBlank_of_not_blank (by decide)]
    show (readMembers _ _).bind _ = _
    rw [readMembers_congr (skipBlank_lineBreak _ _ _), hAll]
    rfl

end

/-- A document that stands alone is read back. -/
theorem read?_write (style : Style) {doc : Doc} (h : doc.IsWellWritten) :
    Doc.read? (doc.write style) = some (doc, []) := by
  have hEnds : EndsNumber [] := fun b hb => absurd hb (by simp)
  have hRead := readDoc_writeAt style 0 doc h ((doc.write style).length + 1) (Nat.le_succ _) hEnds
  rwa [List.append_nil] at hRead

/-- Documents that are written alike are the same. -/
theorem write_inj (style : Style) {doc doc' : Doc} (h : doc.IsWellWritten)
    (h' : doc'.IsWellWritten) : doc.write style = doc'.write style ↔ doc = doc' := by
  constructor
  · intro hEq
    have hRead := read?_write style h
    rw [hEq, read?_write style h'] at hRead
    exact (Prod.mk.inj (Option.some.inj hRead)).1.symm
  · rintro rfl
    rfl

theorem ofBytes?_write (style : Style) {doc : Doc} (h : doc.IsWellWritten) :
    Doc.ofBytes? (doc.write style) = some doc := by
  rw [Doc.ofBytes?, read?_write style h]
  rfl

end FeatureFlags.Json
