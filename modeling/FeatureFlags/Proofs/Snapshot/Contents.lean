import FeatureFlags.Proofs.Snapshot.Filing
import FeatureFlags.Proofs.Tree.Apart

/-!
# Entries that coexist

Entries under different keys can still be in each other's way: an entry whose path goes on where
another one has a value turns that value into a scope, and which of the two is left depends on which
comes last. Where no entry is in the way of another one, a snapshot holds exactly what its entries
say, and neither their order nor the entries that say nothing make a difference.

* `said?` — the path and the value that an entry says.
* `Coexist` — what it means that no entry is in the way of another one.
* `build_of_coexist` — the snapshot of such entries.
-/

namespace FeatureFlags.Snapshot

open Store

variable {ns : String} {e : Entry} {entries entries' : List Entry} {l : Tree.Leaf Value}

/-! ## What entries say -/

/-- The path that the key of an entry says, if it is one of the namespace's features. -/
def pathOf? (ns : String) (e : Entry) : Option (List String) :=
  (Path.after? (Key.featuresPrefix ns) e.key).map Path.segments

/-- The path and the value that an entry says. -/
def said? (ns : String) (e : Entry) : Option (List String × Value) := do
  let path ← pathOf? ns e
  let v ← (← Record.parse? e.bytes).value
  return (path, v)

/-- Whether an entry says nothing: it stands outside the namespace's features, or its record has no
value. -/
def IsSilent (ns : String) (e : Entry) : Prop :=
  pathOf? ns e = none ∨ ∃ r, Record.parse? e.bytes = some r ∧ r.value = none

theorem pathOf?_eq_some_iff {path : List String} :
    pathOf? ns e = some path ↔
      ∃ rest, e.key = Key.featuresPrefix ns ++ rest ∧ Path.segments rest = path := by
  simp only [pathOf?, Option.map_eq_some_iff, Path.after?_eq_some_iff]

/-- Two entries of one path have the same key. -/
theorem key_eq_of_pathOf? {e' : Entry} {path : List String} (h : pathOf? ns e = some path)
    (h' : pathOf? ns e' = some path) : e.key = e'.key := by
  obtain ⟨rest, hKey, hPath⟩ := pathOf?_eq_some_iff.1 h
  obtain ⟨rest', hKey', hPath'⟩ := pathOf?_eq_some_iff.1 h'
  rw [hKey, hKey', Path.segments_injective (hPath.trans hPath'.symm)]

theorem said?_eq_some_iff {path : List String} {v : Value} :
    said? ns e = some (path, v) ↔
      pathOf? ns e = some path ∧ ∃ r, Record.parse? e.bytes = some r ∧ r.value = some v := by
  simp [said?, Option.bind_eq_some_iff]

/-- An entry under a valid key contributes what it says. -/
theorem leafOf?_eq_some_iff (hValid : Key.isValid e.key = true) :
    leafOf? ns e = some l ↔ said? ns e = some (l.path, l.value) := by
  rw [said?_eq_some_iff]
  constructor
  · intro h
    obtain ⟨rest, r, hKey, hParse, hValue, hPath⟩ := of_leafOf? hValid h
    exact ⟨pathOf?_eq_some_iff.2 ⟨rest, hKey, hPath.symm⟩, r, hParse, hValue⟩
  · rintro ⟨hPath, r, hParse, hValue⟩
    obtain ⟨rest, hKey, hSegments⟩ := pathOf?_eq_some_iff.1 hPath
    obtain ⟨key, bytes⟩ := e
    have hKey : key = Key.featuresPrefix ns ++ rest := hKey
    subst hKey
    rw [leafOf?_eq hValid hParse, hValue, hSegments, Tree.Leaf.path, List.dropLast_concat,
      List.getLastD_concat]
    rfl

theorem isReadable_of_isSilent (h : IsSilent ns e) : IsReadable ns e := by
  intro hStarts
  rcases h with hOutside | ⟨r, hParse, -⟩
  · obtain ⟨rest, hKey⟩ := Path.startsWith_iff.1 hStarts
    rw [pathOf?_eq_some_iff.2 ⟨rest, hKey, rfl⟩] at hOutside
    cases hOutside
  · rw [hParse]
    rfl

theorem leafOf?_eq_none (h : IsSilent ns e) : leafOf? ns e = none := by
  unfold leafOf?
  rcases h with hOutside | ⟨r, hParse, hValue⟩
  · rw [pathOf?, Option.map_eq_none_iff] at hOutside
    simp [hOutside]
  · simp [hParse, hValue]

/-- What entries under valid keys contribute. -/
theorem mem_filterMap_leafOf?_iff (hValid : ∀ e ∈ entries, Key.isValid e.key = true) :
    l ∈ entries.filterMap (leafOf? ns) ↔ ∃ e ∈ entries, said? ns e = some (l.path, l.value) := by
  rw [List.mem_filterMap]
  exact exists_congr fun e => and_congr_right fun he => leafOf?_eq_some_iff (hValid e he)

/-- What there is among the leaves of entries under valid keys. -/
theorem exists_leaf_iff (hValid : ∀ e ∈ entries, Key.isValid e.key = true)
    {P : List String → Value → Prop} :
    (∃ l ∈ entries.filterMap (leafOf? ns), P l.path l.value) ↔
      ∃ e ∈ entries, ∃ path v, said? ns e = some (path, v) ∧ P path v := by
  constructor
  · rintro ⟨l, hl, hP⟩
    obtain ⟨e, he, hSaid⟩ := (mem_filterMap_leafOf?_iff hValid).1 hl
    exact ⟨e, he, l.path, l.value, hSaid, hP⟩
  · rintro ⟨e, he, path, v, hSaid, hP⟩
    obtain ⟨rest, -, hSegments⟩ := pathOf?_eq_some_iff.1 (said?_eq_some_iff.1 hSaid).1
    have hPath := path_leaf (hSegments ▸ Path.segments_ne_nil rest) v
    refine ⟨⟨path.dropLast, path.getLastD "", v⟩, (mem_filterMap_leafOf?_iff hValid).2 ?_, ?_⟩
    · exact ⟨e, he, by rw [hPath, hSaid]⟩
    · rwa [hPath]

/-! ## Entries that are not in each other's way -/

/-- Whether entries can all be in one snapshot. They have different keys, of which those of the
namespace's features say a scope and a name, with records under them; and no entry with a value has
a path that goes on where another one's ends. -/
structure Coexist (ns : String) (entries : List Entry) : Prop where
  valid : ∀ e ∈ entries, Key.isValid e.key = true
  distinct : (entries.map (·.key)).Nodup
  readable : ∀ e ∈ entries, IsReadable ns e
  inScope : ∀ e ∈ entries, ∀ path ∈ pathOf? ns e, 2 ≤ path.length
  apart : ∀ e ∈ entries, ∀ e' ∈ entries, ∀ said ∈ said? ns e, ∀ said' ∈ said? ns e',
    said.1 <+: said'.1 → said.1 = said'.1

namespace Coexist

theorem areApart (h : Coexist ns entries) : Tree.AreApart (entries.filterMap (leafOf? ns)) := by
  intro l hl l' hl' hOn
  obtain ⟨e, he, hSaid⟩ := (mem_filterMap_leafOf?_iff h.valid).1 hl
  obtain ⟨e', he', hSaid'⟩ := (mem_filterMap_leafOf?_iff h.valid).1 hl'
  have hPath : l.path = l'.path := h.apart e he e' he' _ hSaid _ hSaid' hOn
  -- entries that say the same path are the same entry
  have hKey : e.key = e'.key := by
    apply key_eq_of_pathOf? (said?_eq_some_iff.1 hSaid).1
    rw [hPath]
    exact (said?_eq_some_iff.1 hSaid').1
  have hSame : e = e' := List.inj_on_of_nodup_map h.distinct he he' hKey
  subst hSame
  rw [← leafOf?_eq_some_iff (h.valid e he)] at hSaid hSaid'
  exact Option.some.inj (hSaid.symm.trans hSaid')

/-- The default scope is in no leaf's way. -/
theorem not_isPrefix_defaultScope (h : Coexist ns entries) :
    ∀ l ∈ entries.filterMap (leafOf? ns), ¬ l.path <+: [defaultScope] := by
  intro l hl hOn
  obtain ⟨e, he, hSaid⟩ := (mem_filterMap_leafOf?_iff h.valid).1 hl
  have hLong := h.inScope e he _ (said?_eq_some_iff.1 hSaid).1
  have hShort := hOn.length_le
  rw [List.length_singleton] at hShort
  omega

end Coexist

theorem hasBranch_emptyMap_iff (ns : String) (q : List String) :
    (FeatureMap.empty ns).features.HasBranch q ↔ q = [defaultScope] := by
  rw [Tree.HasBranch, lookup_emptyMap]
  split_ifs with h <;> simp [h]

/-- Two lists of entries that contribute the same have the same snapshot. -/
theorem build_congr (h : Coexist ns entries) (hReadable : ∀ e ∈ entries', IsReadable ns e)
    (hMem : ∀ l, l ∈ entries'.filterMap (leafOf? ns) ↔ l ∈ entries.filterMap (leafOf? ns)) :
    build ns entries' = build ns entries := by
  obtain ⟨m, hBuild, -⟩ := build_eq h.readable
  obtain ⟨-, hRoot, hInfo, hFeatures⟩ := build_eq_ok_iff.1 hBuild
  rw [hBuild, build_eq_ok_iff]
  refine ⟨hReadable, hRoot, hInfo, ?_⟩
  rw [hFeatures, Tree.insertAll_congr (FeatureMap.empty ns).sorted (leafAt_emptyMap ns) h.areApart
    hMem]

/-- Entries that are not in each other's way have a snapshot. Its values are what the entries say,
and its scopes are the default one and those on the way to the values. It is the same for every
order of the entries, and entries that say nothing can be added and left out. -/
theorem build_of_coexist (h : Coexist ns entries) :
    ∃ m, build ns entries = .ok m ∧ m.root = ns ∧ m.info = some ⟨m.fingerprint, 0⟩ ∧
      (∀ q v, m.lookup q = some (.leaf v) ↔ ∃ e ∈ entries, said? ns e = some (q, v)) ∧
      (∀ q, (∃ scope, m.lookup q = some (.branch scope)) ↔
        q = [defaultScope] ∨
          q ≠ [] ∧ ∃ e ∈ entries, ∃ path v, said? ns e = some (path, v) ∧ q <+: path ∧ q ≠ path) ∧
      (∀ entries', entries'.Perm entries → build ns entries' = .ok m) ∧
      ∀ entries', (∀ e, ¬ IsSilent ns e → (e ∈ entries' ↔ e ∈ entries)) →
        build ns entries' = .ok m := by
  obtain ⟨m, hBuild, -⟩ := build_eq h.readable
  obtain ⟨-, hRoot, hInfo, hFeatures⟩ := build_eq_ok_iff.1 hBuild
  refine ⟨m, hBuild, hRoot, hInfo, ?_, ?_, ?_, ?_⟩
  · intro q v
    rw [FeatureMap.lookup, hFeatures,
      Tree.lookup_insertAll_eq_leaf_iff (leafAt_emptyMap ns) h.areApart,
      exists_leaf_iff h.valid (P := fun path v' => path = q ∧ v' = v)]
    simp
  · intro q
    show m.features.HasBranch q ↔ _
    rw [hFeatures, Tree.hasBranch_insertAll_iff h.areApart, hasBranch_emptyMap_iff,
      exists_leaf_iff h.valid (P := fun path _ => q <+: path ∧ q ≠ path), or_comm]
    refine or_congr_left (and_iff_left_of_imp ?_)
    rintro rfl
    exact h.not_isPrefix_defaultScope
  · intro entries' hPerm
    rw [← hBuild]
    refine build_congr h (fun e he => h.readable e (hPerm.mem_iff.1 he)) fun l => ?_
    exact (hPerm.filterMap _).mem_iff
  · intro entries' hSame
    rw [← hBuild]
    refine build_congr h (fun e he => ?_) fun l => ?_
    · by_cases hSilent : IsSilent ns e
      · exact isReadable_of_isSilent hSilent
      · exact h.readable e ((hSame e hSilent).1 he)
    · -- what has a leaf is not silent
      rw [List.mem_filterMap, List.mem_filterMap]
      refine exists_congr fun e => and_congr_left fun hLeaf => hSame e ?_
      intro hSilent
      rw [leafOf?_eq_none hSilent] at hLeaf
      cases hLeaf

/-- Two features in different scopes, a record without a value and the info block, in no order. -/
def unsortedEntries : List Entry :=
  [⟨"dcdr/features/default/new_ui", (Record.ofValue "new_ui" (.bool true)).write⟩,
   ⟨"dcdr/features/cc/de/rollout", (Record.ofValue "rollout" (.number (1 / 4))).write⟩,
   ⟨"dcdr/features/cc/de", Bytes.ofString "\x7b\"key\":\"de\"\x7d"⟩,
   ⟨"dcdr/info", Bytes.ofString "\x7b\x7d"⟩]

theorem build_unsortedEntries :
    Coexist "dcdr" unsortedEntries ∧
      ∃ m, build "dcdr" unsortedEntries = .ok m ∧
        m.lookup ["default", "new_ui"] = some (.leaf (.bool true)) ∧
        (∃ scope, m.lookup ["cc", "de"] = some (.branch scope)) ∧
        build "dcdr" unsortedEntries.reverse = .ok m ∧
        build "dcdr" (unsortedEntries.take 2) = .ok m := by
  have hCoexist : Coexist "dcdr" unsortedEntries :=
    ⟨by decide +kernel, by decide +kernel, by unfold IsReadable; decide +kernel, by decide +kernel,
      by decide +kernel⟩
  refine ⟨hCoexist, ?_⟩
  obtain ⟨m, hBuild, -, -, hLeaf, hBranch, hPerm, hSilent⟩ := build_of_coexist hCoexist
  refine ⟨m, hBuild, (hLeaf _ _).2 (by decide +kernel), (hBranch _).2 (.inr ?_),
    hPerm _ (List.reverse_perm _), hSilent _ fun e hSays => ⟨List.mem_of_mem_take, fun he => ?_⟩⟩
  · exact ⟨by decide, _, List.mem_cons_of_mem _ List.mem_cons_self, ["cc", "de", "rollout"],
      .number (1 / 4), by decide +kernel⟩
  · -- the last two entries say nothing
    have hLast : ∀ e ∈ unsortedEntries.drop 2, IsSilent "dcdr" e := by
      refine List.forall_mem_cons.2 ⟨.inr ?_, List.forall_mem_cons.2 ⟨.inl (by decide +kernel), ?_⟩⟩
      · exact ⟨⟨none, "de", "", "", none, "", ""⟩, by decide +kernel⟩
      · exact List.forall_mem_nil _
    rw [← List.take_append_drop 2 unsortedEntries, List.mem_append] at he
    exact he.resolve_right fun hDrop => hSays (hLast e hDrop)

end FeatureFlags.Snapshot
