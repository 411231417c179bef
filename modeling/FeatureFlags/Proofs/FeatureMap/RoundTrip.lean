import FeatureFlags.Proofs.FeatureMap.Document

/-!
# Which maps come back

A map that is written and read comes back as it was if each of its numbers does and its scopes are
not nested too deep; and there is no other way for it to come back. Whatever the root, the info
block and the names are, they are no obstacle.

* `Scope.ofDoc?_toDoc_iff` — which scopes come back.
* `FeatureMap.parse_write_self_iff` — which maps come back.
* `FeatureMap.exists_parse_write_iff` — which maps can be read at all.
-/

namespace FeatureFlags

namespace Scope

/-! ## Members one by one -/

theorem itemsOf?_cons_eq_some_iff {room : Nat} {name : String} {doc : Json.Doc}
    {rest : List (Bytes × Json.Doc)} {l : List (String × Tree.Item Value)} :
    itemsOf? room ((Json.rawOf name, doc) :: rest) = some l ↔
      ∃ item l', itemOf? room doc = some item ∧ itemsOf? room rest = some l' ∧
        (name, item) :: l' = l := by
  simp only [itemsOf?, Json.text?_rawOf, Option.bind_eq_bind, Option.bind_some,
    Option.bind_eq_some_iff, Option.pure_def, Option.some.injEq]
  constructor
  · rintro ⟨item, hItem, l', hRest, hl⟩
    exact ⟨item, l', hItem, hRest, hl⟩
  · rintro ⟨item, l', hItem, hRest, hl⟩
    exact ⟨item, hItem, l', hRest, hl⟩

/-- What is read of the members of a scope has the names of the members, in the same order. -/
theorem map_fst_of_itemsOf?_members {room : Nat} {s : Scope} {l : List (String × Tree.Item Value)}
    (h : itemsOf? room (members s) = some l) : l.map (·.1) = s.names := by
  induction s generalizing l with
  | empty =>
    cases h
    rfl
  | leaf name v rest ih =>
    obtain ⟨item, l', -, hRest, rfl⟩ := itemsOf?_cons_eq_some_iff.1 h
    exact congrArg (name :: ·) (ih hRest)
  | branch name inner rest _ ih =>
    obtain ⟨item, l', -, hRest, rfl⟩ := itemsOf?_cons_eq_some_iff.1 h
    exact congrArg (name :: ·) (ih hRest)

/-- A scope that is read as itself has been read member by member. -/
theorem eq_toList_of_ofList {room : Nat} {s : Scope} (hSorted : s.Sorted)
    {l : List (String × Tree.Item Value)} (h : itemsOf? room (members s) = some l)
    (hList : Tree.ofList l = s) : l = s.toList := by
  -- the names are those of the scope, so they are in order
  have hOrder : l.Pairwise fun m m' => m.1 < m'.1 := by
    have hNames := List.pairwise_map.2 (Tree.pairwise_toList hSorted)
    rw [← Tree.names, ← map_fst_of_itemsOf?_members h] at hNames
    exact List.pairwise_map.1 hNames
  rw [← hList, Tree.toList_ofList hOrder (sorted_of_itemsOf? room _ h)]

/-! ## Which scopes come back -/

/-- The members of a scope come back only if its numbers do and it is not too high. -/
theorem shape_of_itemsOf?_members {room : Nat} {s : Scope} (hSorted : s.Sorted)
    (h : itemsOf? room (members s) = some s.toList) :
    s.Forall Value.IsKept ∧ s.height ≤ room + 1 := by
  induction s generalizing room with
  | empty => exact ⟨trivial, Nat.le_add_left 1 room⟩
  | leaf name v rest ih =>
    obtain ⟨item, l', hItem, hRest, hl⟩ := itemsOf?_cons_eq_some_iff.1 h
    obtain ⟨hHead, rfl⟩ := List.cons.inj hl
    obtain ⟨hRestKept, hRestHeight⟩ := ih hSorted.2 hRest
    -- the value is read as itself
    rw [itemOf?_toDoc, (Prod.mk.inj hHead).2, Option.map_eq_some_iff] at hItem
    obtain ⟨v', hReread, hSame⟩ := hItem
    cases hSame
    exact ⟨⟨hReread, hRestKept⟩, hRestHeight⟩
  | branch name inner rest ihInner ih =>
    obtain ⟨item, l', hItem, hRest, hl⟩ := itemsOf?_cons_eq_some_iff.1 h
    obtain ⟨hHead, rfl⟩ := List.cons.inj hl
    obtain ⟨hRestKept, hRestHeight⟩ := ih hSorted.2.2 hRest
    -- so is the inner scope, with one level of room less
    rw [itemOf?, (Prod.mk.inj hHead).2] at hItem
    split at hItem
    · cases hItem
    · obtain ⟨l, hInner, hList⟩ := Option.map_eq_some_iff.1 hItem
      have hInnerList : Tree.ofList l = inner := Tree.Item.branch.inj hList
      rw [eq_toList_of_ofList hSorted.2.1 hInner hInnerList] at hInner
      obtain ⟨hInnerKept, hInnerHeight⟩ := ihInner hSorted.2.1 hInner
      refine ⟨⟨hInnerKept, hRestKept⟩, ?_⟩
      rw [Tree.height]
      omega

/-- Which scopes come back from the documents that are written for them. -/
theorem ofDoc?_toDoc_iff {room : Nat} {s : Scope} (hSorted : s.Sorted) :
    ofDoc? room s.toDoc = some s ↔ s.Forall Value.IsKept ∧ s.height ≤ room := by
  constructor
  · intro h
    rw [ofDoc?, toDoc, itemOf?] at h
    by_cases hRoom : room = 0
    · rw [if_pos hRoom] at h
      cases h
    · rw [if_neg hRoom] at h
      cases hItems : itemsOf? (room - 1) (members s) with
      | none =>
        rw [hItems] at h
        cases h
      | some l =>
        rw [hItems] at h
        have hList : Tree.ofList l = s := Option.some.inj h
        have hSame := eq_toList_of_ofList hSorted hItems hList
        rw [hSame] at hItems
        obtain ⟨hKept, hHeight⟩ := shape_of_itemsOf?_members hSorted hItems
        exact ⟨hKept, by omega⟩
  · rintro ⟨hKept, hHeight⟩
    exact ofDoc?_toDoc hSorted hKept hHeight

/-! ## Which scopes can be read -/

theorem isSome_itemsOf?_cons {room : Nat} {name : String} {doc : Json.Doc}
    {rest : List (Bytes × Json.Doc)} :
    (itemsOf? room ((Json.rawOf name, doc) :: rest)).isSome = true ↔
      (itemOf? room doc).isSome = true ∧ (itemsOf? room rest).isSome = true := by
  simp only [Option.isSome_iff_exists, itemsOf?_cons_eq_some_iff]
  constructor
  · rintro ⟨l, item, l', hItem, hRest, -⟩
    exact ⟨⟨item, hItem⟩, ⟨l', hRest⟩⟩
  · rintro ⟨⟨item, hItem⟩, ⟨l', hRest⟩⟩
    exact ⟨_, item, l', hItem, hRest, rfl⟩

/-- The members of a scope can be read exactly if its values can and it is not too high. -/
theorem isSome_itemsOf?_members (room : Nat) (s : Scope) :
    (itemsOf? room (members s)).isSome = true ↔
      s.Forall (fun v => v.reread.isSome = true) ∧ s.height ≤ room + 1 := by
  induction s generalizing room with
  | empty => simp [members, itemsOf?, Tree.Forall, Tree.height]
  | leaf name v rest ih =>
    rw [members, isSome_itemsOf?_cons, itemOf?_toDoc, Option.isSome_map, ih, Tree.Forall,
      Tree.height, and_assoc]
  | branch name inner rest ihInner ih =>
    -- an inner scope needs room, and is read with one level of room less
    have hPos := Tree.height_pos inner
    have hInner : (itemOf? room (.object (members inner))).isSome = true ↔
        inner.Forall (fun v => v.reread.isSome = true) ∧ inner.height ≤ room := by
      rw [itemOf?]
      by_cases hRoom : room = 0
      · simp [hRoom, Nat.ne_of_gt hPos]
      · rw [if_neg hRoom, Option.isSome_map, ihInner, Nat.sub_add_cancel (Nat.pos_of_ne_zero hRoom)]
    rw [members, isSome_itemsOf?_cons, hInner, ih, Tree.Forall, Tree.height, Nat.max_le,
      Nat.add_le_add_iff_right]
    tauto

/-- Which scopes can be read from the documents that are written for them. -/
theorem isSome_ofDoc?_toDoc {room : Nat} (s : Scope) :
    (ofDoc? room s.toDoc).isSome = true ↔
      s.Forall (fun v => v.reread.isSome = true) ∧ s.height ≤ room := by
  have hPos := Tree.height_pos s
  rw [ofDoc?, toDoc, itemOf?]
  by_cases hRoom : room = 0
  · simp [hRoom, Nat.ne_of_gt hPos]
  · have hItems := isSome_itemsOf?_members (room - 1) s
    rw [Nat.sub_add_cancel (Nat.pos_of_ne_zero hRoom)] at hItems
    rw [if_neg hRoom, ← hItems]
    cases itemsOf? (room - 1) (members s) with
    | none => simp
    | some l => simp

end Scope

namespace FeatureMap

/-- A map comes back as it was, its root and its info block included, exactly if each of its numbers
comes back as the same double and its features are no higher than documents may be deep. The
features themselves are the first level, so there may be 124 scopes inside one another below
them. -/
theorem parse_write_self_iff (m : FeatureMap) :
    parse m.write = .ok m ↔
      m.features.Forall Value.IsKept ∧ m.features.height ≤ heightLimit := by
  rw [parse_write_eq_ok_iff, Scope.ofDoc?_toDoc_iff m.sorted]
  exact ⟨fun h => h.2.2, fun h => ⟨rfl, rfl, h⟩⟩

example : heightLimit = 1 + 124 := by decide

/-- A written map can be read exactly if each of its values can, and it is not too high. -/
theorem exists_parse_write_iff (m : FeatureMap) :
    (∃ m', parse m.write = .ok m') ↔
      m.features.Forall (fun v => v.reread.isSome = true) ∧ m.features.height ≤ heightLimit := by
  rw [← Scope.isSome_ofDoc?_toDoc, Option.isSome_iff_exists]
  constructor
  · rintro ⟨m', hParse⟩
    exact ⟨m'.features, (parse_write_eq_ok_iff.1 hParse).2.2⟩
  · rintro ⟨s, hRead⟩
    exact ⟨⟨m.root, m.info, s, Scope.sorted_of_ofDoc? hRead⟩,
      parse_write_eq_ok_iff.2 ⟨rfl, rfl, hRead⟩⟩

end FeatureMap

end FeatureFlags
