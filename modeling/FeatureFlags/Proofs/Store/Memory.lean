import FeatureFlags.Proofs.Bytes
import FeatureFlags.Proofs.SortedMap
import FeatureFlags.Proofs.Text.Segments
import FeatureFlags.Store.Memory
import Mathlib.Data.List.Sort

/-!
# What a store in memory lists

The entries of a store are in order, and texts that begin alike stand side by side in that order.
So the stretch that a listing cuts out holds exactly the entries whose keys begin with the text
asked for.

* `between_isPrefix` — what lies between a text and one that continues it continues it too.
* `range_eq_filter`, `mem_range_iff` — a listing is a selection.
* `list_eq_filter_ofString` — the same by the bytes of the keys.
* `range_congr` — a listing depends on nothing else.
* `forall_put`, `forall_drop` — what all entries have in common is kept by the changes.
-/

namespace FeatureFlags.MemoryStore

/-! ## Texts in order -/

/-- What lies between `l` and a continuation of `l` continues `l`. -/
theorem between_isPrefix {l m rest : List Char} (hLow : ¬ m < l) (hHigh : m < l ++ rest) :
    l <+: m := by
  induction l generalizing m with
  | nil => exact List.nil_prefix
  | cons c l ih =>
    cases m with
    | nil => exact absurd (List.nil_lt_cons c l) hLow
    | cons d m =>
      rw [List.cons_lt_cons_iff] at hLow
      rw [List.cons_append, List.cons_lt_cons_iff] at hHigh
      rcases hHigh with hLt | ⟨hEq, hTail⟩
      · exact absurd (.inl hLt) hLow
      · -- equal first characters decide nothing
        subst hEq
        have hRest : l <+: m := ih (fun h => hLow (.inr ⟨rfl, h⟩)) hTail
        rwa [List.cons_prefix_cons, and_iff_right rfl]

/-- A text is not smaller than what it begins with. -/
theorem not_lt_of_startsWith {s start : String} (h : Path.startsWith s start = true) :
    ¬ s < start := by
  rw [Path.startsWith, List.isPrefixOf_iff_prefix] at h
  rw [String.lt_iff, List.not_lt]
  exact List.IsPrefix.le h

theorem startsWith_of_between {s start s' : String} (hLow : ¬ s < start) (hHigh : s < s')
    (h' : Path.startsWith s' start = true) : Path.startsWith s start = true := by
  obtain ⟨rest, rfl⟩ := Path.startsWith_iff.1 h'
  rw [String.lt_iff, String.toList_append] at hHigh
  rw [Path.startsWith, List.isPrefixOf_iff_prefix]
  exact between_isPrefix hLow hHigh

/-- To begin with a text is to begin with its bytes. -/
theorem startsWith_iff_ofString_isPrefix {s start : String} :
    Path.startsWith s start = true ↔ Bytes.ofString start <+: Bytes.ofString s := by
  rw [Bytes.ofString_isPrefix_iff, Path.startsWith, List.isPrefixOf_iff_prefix]

/-! ## Listings -/

variable {start : String} {l : List (String × Bytes)}

/-- Among entries from `start` on, those that begin with it come first. -/
theorem takeWhile_startsWith (hSorted : l.Pairwise fun a b => a.1 < b.1)
    (hLow : ∀ e ∈ l, ¬ e.1 < start) :
    l.takeWhile (fun e => Path.startsWith e.1 start) =
      l.filter fun e => Path.startsWith e.1 start := by
  induction l with
  | nil => rfl
  | cons head rest ih =>
    obtain ⟨hHead, hRest⟩ := List.pairwise_cons.1 hSorted
    by_cases h : Path.startsWith head.1 start = true
    · rw [List.takeWhile_cons_of_pos (by simpa using h), List.filter_cons_of_pos (by simpa using h),
        ih hRest fun e he => hLow e (List.mem_cons_of_mem _ he)]
    · rw [List.takeWhile_cons_of_neg (by simpa using h), List.filter_cons_of_neg (by simpa using h),
        eq_comm, List.filter_eq_nil_iff]
      -- what comes behind begins with `start` no more, or else the head would
      intro e he hStarts
      exact h (startsWith_of_between (hLow head List.mem_cons_self) (hHead e he) hStarts)

theorem cut_eq_filter (hSorted : l.Pairwise fun a b => a.1 < b.1) :
    (l.dropWhile fun e => e.1 < start).takeWhile (fun e => Path.startsWith e.1 start) =
      l.filter fun e => Path.startsWith e.1 start := by
  induction l with
  | nil => rfl
  | cons head rest ih =>
    obtain ⟨hHead, hRest⟩ := List.pairwise_cons.1 hSorted
    by_cases h : head.1 < start
    · -- what comes before `start` does not begin with it
      have hNot : ¬ Path.startsWith head.1 start = true := fun hs => not_lt_of_startsWith hs h
      rw [List.dropWhile_cons_of_pos (by simpa using h),
        List.filter_cons_of_neg (by simpa using hNot), ih hRest]
    · rw [List.dropWhile_cons_of_neg (by simpa using h)]
      apply takeWhile_startsWith hSorted
      intro e he hLt
      rcases List.mem_cons.1 he with rfl | he
      · exact h hLt
      · exact h (String.lt_trans (hHead e he) hLt)

/-- A listing selects the entries whose keys begin with a text. -/
theorem range_eq_filter (s : MemoryStore) (start : String) :
    s.range start = (s.entries.toList.filter fun e => Path.startsWith e.1 start).map
      fun e => ⟨e.1, e.2⟩ := by
  rw [range, SortedMap.toList, cut_eq_filter s.entries.sorted]

theorem mem_range_iff {s : MemoryStore} {e : Store.Entry} :
    e ∈ s.range start ↔
      s.entries.get? e.key = some e.bytes ∧ Path.startsWith e.key start = true := by
  rw [range_eq_filter, List.mem_map]
  constructor
  · rintro ⟨⟨key, bytes⟩, hMem, rfl⟩
    obtain ⟨hEntry, hStarts⟩ := List.mem_filter.1 hMem
    exact ⟨SortedMap.mem_toList_iff.1 hEntry, hStarts⟩
  · rintro ⟨hGet, hStarts⟩
    have hEntry : (e.key, e.bytes) ∈ s.entries.toList := SortedMap.mem_toList_iff.2 hGet
    exact ⟨_, List.mem_filter.2 ⟨hEntry, hStarts⟩, rfl⟩

theorem pairwise_range (s : MemoryStore) (start : String) :
    (s.range start).Pairwise fun e e' => e.key < e'.key := by
  rw [range_eq_filter]
  exact List.pairwise_map.2 (s.entries.sorted.filter _)

/-- Of all entries a listing shows those whose keys begin with the bytes of a text, in the order of
their bytes. -/
theorem list_eq_filter_ofString (s : MemoryStore) (start : String) :
    ∃ listed, Store.list s start = .ok listed ∧
      listed = (s.entries.toList.filter fun e =>
        Bytes.ofString start <+: Bytes.ofString e.1).map (fun e => ⟨e.1, e.2⟩) ∧
      (∀ e, e ∈ listed ↔ Store.get? s e.key = .ok (some e.bytes) ∧
        Bytes.ofString start <+: Bytes.ofString e.key) ∧
      listed.Pairwise fun e e' => Bytes.ofString e.key < Bytes.ofString e'.key := by
  refine ⟨s.range start, rfl, ?_, fun e => ?_, ?_⟩
  · rw [range_eq_filter]
    congr 1
    refine List.filter_congr fun e _ => ?_
    rw [Bool.eq_iff_iff, startsWith_iff_ofString_isPrefix, decide_eq_true_iff]
  · have hGet : Store.get? s e.key = .ok (s.entries.get? e.key) := rfl
    rw [mem_range_iff, startsWith_iff_ofString_isPrefix, hGet, Except.ok.injEq]
  · exact (s.pairwise_range start).imp Bytes.ofString_lt_ofString_iff.2

/-- Keys that begin alike stand between those whose next character is smaller by its last byte and
those where it is greater. -/
example : MemoryStore.range ⟨.ofList [("aé/x", [49]), ("aè", [50]), ("a", [51]), ("b", [52]),
    ("aé", [53]), ("aê", [54])], 0⟩ "aé" = [⟨"aé", [53]⟩, ⟨"aé/x", [49]⟩] := by
  rfl

/-- A listing depends on nothing but the entries whose keys begin with the text. -/
theorem range_congr {s s' : MemoryStore}
    (h : ∀ key, Path.startsWith key start = true → s.entries.get? key = s'.entries.get? key) :
    s.range start = s'.range start := by
  have : Std.Irrefl fun e e' : Store.Entry => e.key < e'.key := ⟨fun e => String.lt_irrefl e.key⟩
  have : Std.Antisymm fun e e' : Store.Entry => e.key < e'.key :=
    ⟨fun _ _ hLt hLt' => absurd hLt' (String.lt_asymm hLt)⟩
  refine (s.pairwise_range start).eq_of_mem_iff (s'.pairwise_range start) fun e => ?_
  rw [mem_range_iff, mem_range_iff]
  refine and_congr_left fun hStarts => ?_
  rw [h e.key hStarts]

/-! ## What all entries have in common -/

variable {s : MemoryStore} {P : String → Bytes → Prop}

theorem get?_put (s : MemoryStore) (key : String) (bytes : Bytes) (other : String) :
    ((s.put key bytes).notify).entries.get? other =
      if other = key then some bytes else s.entries.get? other :=
  SortedMap.get?_insert s.entries key bytes other

theorem get?_drop (s : MemoryStore) (key other : String) :
    ((s.drop key).notify).entries.get? other = if other = key then none else s.entries.get? other :=
  SortedMap.get?_erase s.entries key other

/-- Whether there was anything or not, nothing is under a key that has been deleted. -/
theorem get?_delete (s : MemoryStore) (key other : String) :
    (s.delete key).entries.get? other = if other = key then none else s.entries.get? other := by
  unfold delete
  split
  · exact get?_drop s key other
  · next hContains =>
    split
    · next hKey =>
      rw [SortedMap.contains, Bool.not_eq_true, Option.isSome_eq_false_iff,
        Option.isNone_iff_eq_none] at hContains
      rw [hKey, hContains]
    · rfl

/-- What all entries have in common they have in common still if it is true of the new one. -/
theorem forall_put (h : ∀ key bytes, s.entries.get? key = some bytes → P key bytes) {key : String}
    {bytes : Bytes} (hEntry : P key bytes) :
    ∀ key' bytes', ((s.put key bytes).notify).entries.get? key' = some bytes' → P key' bytes' := by
  intro key' bytes' hGet
  rw [get?_put] at hGet
  split at hGet
  · next hKey =>
    cases hGet
    rw [hKey]
    exact hEntry
  · exact h key' bytes' hGet

theorem forall_drop (h : ∀ key bytes, s.entries.get? key = some bytes → P key bytes)
    (gone : String) :
    ∀ key bytes, ((s.drop gone).notify).entries.get? key = some bytes → P key bytes := by
  intro key bytes hGet
  rw [get?_drop] at hGet
  split at hGet
  · cases hGet
  · exact h key bytes hGet

end FeatureFlags.MemoryStore
