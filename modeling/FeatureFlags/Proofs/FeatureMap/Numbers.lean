import FeatureFlags.Proofs.FeatureMap.RoundTrip
import FeatureFlags.Proofs.Json.Roundings
import FeatureFlags.Proofs.SortedMap

/-!
# Numbers that a map hands on

A map that has been read can always be written and read again, and every number in it comes back as
a finite one. It need not come back as the same one: the digits that are written are the shortest
that a single rounding needs, and they are read in two. So a map that is handed on comes back
unchanged just when its numbers survive the two roundings, whatever else is in it.

* `Scope.shape_of_ofDoc?` — what is read is finite and not too high.
* `Value.isKept_iff` — which numbers come back.
* `FeatureMap.parse_write_iff_survives` — which maps do.
-/

namespace FeatureFlags

open Json (Doc)

/-! ## What is read -/

namespace Scope

/-- Whether a member has finite numbers only, and no more levels than there is room for. -/
def Fits (room : Nat) : Tree.Item Value → Prop
  | .leaf v => v.isFinite = true
  | .branch inner => inner.Forall (fun v => v.isFinite = true) ∧ inner.height ≤ room

theorem fits_ofList {room : Nat} {l : List (String × Tree.Item Value)}
    (h : ∀ m ∈ l, Fits room m.2) : Fits (room + 1) (.branch (.ofList l)) := by
  constructor
  · apply Tree.forall_ofList
    rintro ⟨name, item⟩ hm
    have hItem := h _ hm
    cases item with
    | leaf v => exact hItem
    | branch inner => exact hItem.1
  · apply Tree.height_ofList
    rintro ⟨name, item⟩ hm inner rfl
    exact (h _ hm).2

mutual

theorem fits_of_itemOf? (room : Nat) (doc : Doc) {item : Tree.Item Value}
    (h : itemOf? room doc = some item) : Fits room item := by
  match doc with
  | .object members =>
    rw [itemOf?] at h
    split at h
    · cases h
    · next hRoom =>
      obtain ⟨l, hl, rfl⟩ := Option.map_eq_some_iff.1 h
      -- the members have one level less to go
      have hItems := fits_ofList (fits_of_itemsOf? (room - 1) members hl)
      rwa [Nat.sub_add_cancel (Nat.pos_of_ne_zero hRoom)] at hItems
  | .null | .bool _ | .number _ | .string _ | .array _ =>
    simp only [itemOf?, Option.map_eq_some_iff] at h
    obtain ⟨v, hv, rfl⟩ := h
    exact Value.isFinite_of_ofDoc? hv

theorem fits_of_itemsOf? (room : Nat) (members : List (Bytes × Doc))
    {l : List (String × Tree.Item Value)} (h : itemsOf? room members = some l) :
    ∀ m ∈ l, Fits room m.2 := by
  match members with
  | [] =>
    cases h
    simp
  | (raw, doc) :: rest =>
    simp only [itemsOf?, Option.bind_eq_bind, Option.bind_eq_some_iff, Option.pure_def,
      Option.some.injEq] at h
    obtain ⟨name, -, item, hItem, l', hRest, rfl⟩ := h
    intro m hm
    rcases List.mem_cons.1 hm with rfl | hm
    · exact fits_of_itemOf? room doc hItem
    · exact fits_of_itemsOf? room rest hRest m hm

end

/-- What is read has finite numbers only, and no more levels than there is room for. -/
theorem shape_of_ofDoc? {room : Nat} {doc : Doc} {s : Scope} (h : ofDoc? room doc = some s) :
    s.Forall (fun v => v.isFinite = true) ∧ s.height ≤ room := by
  rw [ofDoc?] at h
  split at h
  · next hItem =>
    cases h
    exact fits_of_itemOf? room doc hItem
  · cases h

end Scope

/-- What is read under a map's name has finite numbers only and is not too high. -/
theorem Root.shape_of_ofDoc? {room : Nat} (hRoom : 1 < room) {doc : Doc} {r : Root}
    (h : ofDoc? room doc = some r) :
    r.features.Forall (fun v => v.isFinite = true) ∧ r.features.height ≤ room - 1 := by
  simp only [ofDoc?, Option.bind_eq_bind, Option.bind_eq_some_iff, Option.pure_def,
    Option.some.injEq] at h
  obtain ⟨given, -, info, -, features, hFeatures, rfl⟩ := h
  rw [Given.optional?] at hFeatures
  split at hFeatures
  · exact Scope.shape_of_ofDoc? hFeatures
  · cases hFeatures
    exact ⟨trivial, Nat.le_sub_of_add_le hRoom⟩

/-- Everything that is read of a list is read of one of its members. -/
theorem exists_of_mem_mapM {α β : Type} {read : α → Option β} {l : List α} {l' : List β}
    (h : l.mapM read = some l') {b : β} (hb : b ∈ l') : ∃ a ∈ l, read a = some b := by
  induction l generalizing l' with
  | nil =>
    cases h
    cases hb
  | cons a l ih =>
    simp only [List.mapM_cons, Option.bind_eq_bind, Option.bind_eq_some_iff, Option.pure_def,
      Option.some.injEq] at h
    obtain ⟨b', hHead, l', hRest, rfl⟩ := h
    rcases List.mem_cons.1 hb with rfl | hb
    · exact ⟨a, List.mem_cons_self, hHead⟩
    · obtain ⟨a', hMem, hRead⟩ := ih hRest hb
      exact ⟨a', List.mem_cons_of_mem _ hMem, hRead⟩

/-- Every value of a dictionary is read from some document. -/
theorem Json.exists_of_mem_dictionary? {α : Type} {read : Doc → Option α}
    {members : List (Bytes × Doc)} {values : SortedMap α}
    (h : Doc.dictionary? read members = some values) {e : String × α} (he : e ∈ values.toList) :
    ∃ doc, read doc = some e.2 := by
  simp only [Doc.dictionary?, Option.bind_eq_bind, Option.bind_eq_some_iff, Option.pure_def,
    Option.some.injEq] at h
  obtain ⟨named, -, entries, hEntries, rfl⟩ := h
  obtain ⟨⟨name, doc⟩, -, hEntry⟩ := exists_of_mem_mapM hEntries (SortedMap.mem_of_mem_ofList he)
  simp only [Option.bind_eq_some_iff, Option.some.injEq] at hEntry
  obtain ⟨value, hValue, rfl⟩ := hEntry
  exact ⟨doc, hValue⟩

/-! ## Which numbers come back -/

namespace Value

/-- Whether reading the digits that are written in two roundings is no different from reading them
in one. A truth value has no digits. -/
def Survives : Value → Prop
  | .bool _ => True
  | .number x => ∀ n ∈ Json.numberLayout.numeral? x,
      Json.readAs n.significand n.exponent = Decimal.nearest n.size

theorem isKept_number_iff {x : Float} {n : Decimal.Numeral}
    (h : Json.numberLayout.numeral? x = some n) :
    (number x).IsKept ↔ Json.float? n = some x := by
  have hDoc : (number x).reread = (Json.float? n).map number := by
    show ofDoc? (Doc.ofFloat x) = _
    unfold Doc.ofFloat
    rw [h]
    rfl
  rw [IsKept, hDoc]
  cases Json.float? n with
  | none => simp
  | some y => simp

/-- A finite value comes back just when it survives the two roundings. -/
theorem isKept_iff {v : Value} (h : v.isFinite = true) : v.IsKept ↔ v.Survives := by
  cases v with
  | bool b => exact ⟨fun _ => trivial, fun _ => isKept_bool b⟩
  | number x =>
    obtain ⟨n, hn⟩ := Option.isSome_iff_exists.1
      (Decimal.Layout.isSome_numeral? Json.numberLayout h)
    rw [isKept_number_iff hn, Json.float?_eq_some_iff hn, Survives]
    simp [hn]

end Value

/-! ## Which maps come back -/

namespace FeatureMap

/-- A map that is read has finite numbers only and is not too high to be written and read again. -/
theorem shape_of_parse {bytes : Bytes} {m : FeatureMap} (h : parse bytes = .ok m) :
    m.features.Forall (fun v => v.isFinite = true) ∧ m.features.height ≤ heightLimit := by
  -- only a document with a single root is not refused
  unfold parse at h
  split at h
  · split at h
    · next roots hRoots =>
      split at h
      · next root r hEntry =>
        split at h
        · cases h
          obtain ⟨doc, hDoc⟩ := Json.exists_of_mem_dictionary? hRoots
            (hEntry ▸ List.mem_singleton_self _)
          exact Root.shape_of_ofDoc? (by decide) (Root.sortedOfDoc?_eq_some_iff.1 hDoc)
        · cases h
      · cases h
    · cases h
  · cases h

/-- A finite number comes back as the same double just when its digits survive the two roundings in
which they are read. A map that has been read, and is written and read again, comes back as it was
just when all its numbers do. -/
theorem parse_write_iff_survives (x : Float) (bytes : Bytes) (m : FeatureMap) :
    (x.isFinite = true → ((Value.number x).IsKept ↔ (Value.number x).Survives)) ∧
    (parse bytes = .ok m → (parse m.write = .ok m ↔ m.features.Forall Value.Survives)) := by
  refine ⟨fun hx => Value.isKept_iff hx, ?_⟩
  intro hParse
  obtain ⟨hFinite, hHeight⟩ := shape_of_parse hParse
  have hKept := Tree.forall_congr (fun v hv => Value.isKept_iff hv) hFinite
  rw [parse_write_eq_ok_iff, Scope.ofDoc?_toDoc_iff m.sorted, hKept]
  -- the name, the record and the height of a map that was read always come back
  exact ⟨fun h => h.2.2.1, fun h => ⟨rfl, rfl, h, hHeight⟩⟩

/-- The map with a limit for everybody. -/
def limited (x : Float) : FeatureMap :=
  ⟨"dcdr", none, .branch "default" (.leaf "limit" (.number x) .empty) .empty,
    by simp [Tree.Sorted, Tree.names, Tree.toList]⟩

/-- How it may be written by hand. -/
def limitedText (digits : String) : Bytes :=
  Bytes.ofAscii ("\x7b\"dcdr\":\x7b\"features\":\x7b\"default\":\x7b\"limit\":".toList ++
    digits.toList ++ "\x7d\x7d\x7d\x7d".toList)

/-- The largest odd whole number that is a double is written with a zero behind the point, and with
that its digits are too many for a double. -/
theorem parse_write_limited :
    (parse (limitedText "0.25") = .ok (limited 0.25) ∧
      parse (limited 0.25).write = .ok (limited 0.25)) ∧
    parse (limitedText "9007199254740991") = .ok (limited 9007199254740991) ∧
      ¬(Value.number 9007199254740991).Survives ∧
      parse (limited 9007199254740991).write = .ok (limited 9007199254740990) := by
  constructor
  · obtain ⟨hNumber, hMap⟩ :=
      parse_write_iff_survives 0.25 (limitedText "0.25") (limited 0.25)
    have hParse : parse (limitedText "0.25") = .ok (limited 0.25) := by decide +kernel
    have hKept : (Value.number 0.25).IsKept := by
      show Value.reread _ = some _
      decide +kernel
    refine ⟨hParse, (hMap hParse).2 ⟨⟨?_, trivial⟩, trivial⟩⟩
    exact (hNumber (by decide +kernel)).1 hKept
  · obtain ⟨-, hMap⟩ := parse_write_iff_survives 9007199254740991
      (limitedText "9007199254740991") (limited 9007199254740991)
    have hParse : parse (limitedText "9007199254740991") = .ok (limited 9007199254740991) := by
      decide +kernel
    have hDrift : parse (limited 9007199254740991).write = .ok (limited 9007199254740990) := by
      decide +kernel
    refine ⟨hParse, fun hSurvives => ?_, hDrift⟩
    have hSame := (hMap hParse).2 ⟨⟨hSurvives, trivial⟩, trivial⟩
    rw [hDrift] at hSame
    revert hSame
    decide +kernel

end FeatureMap

end FeatureFlags
