import FeatureFlags.Proofs.Registry

/-!
# What a listing of a scope shows

The records of a scope are listed by a text that their keys begin with. Behind the scope a key goes on
with the name of the feature, or with another segment of a scope that lies deeper: the slash is the
same. So a listing shows the records of the scope whose names begin as asked for, and besides them
all records of deeper scopes whose next segment begins so. It is in the order of the keys, which is
the order of the names as long as no deeper scope is in it.

* `mem_listed_iff` — the records that are listed.
* `pairwise_listed` — their order.
* `list_run` — a listing never fails, and when it is the listing of the scope.
-/

namespace FeatureFlags

/-- Reading all of a list is reading one after the other, if all of them can be read. -/
theorem mapM_eq_filterMap {α β : Type} {read : α → Option β} {l : List α}
    (h : ∀ a ∈ l, (read a).isSome = true) : l.mapM read = some (l.filterMap read) := by
  induction l with
  | nil => rfl
  | cons a l ih =>
    obtain ⟨b, hb⟩ := Option.isSome_iff_exists.1 (h a List.mem_cons_self)
    rw [List.mapM_cons, ih fun a' ha' => h a' (List.mem_cons_of_mem _ ha'), hb,
      List.filterMap_cons_some hb]
    rfl

/-- Texts that begin alike are in the order of their rests. -/
theorem append_lt_append_iff {start a b : String} : start ++ a < start ++ b ↔ a < b := by
  have hList : ∀ l : List Char, l ++ a.toList < l ++ b.toList ↔ a.toList < b.toList := by
    intro l
    induction l with
    | nil => rfl
    | cons c l ih => simp [ih]
  rw [String.lt_iff, String.lt_iff, String.toList_append, String.toList_append]
  exact hList _

namespace Registry

open Store.Key (ofFeature scopeOrDefault)

variable {ns start scope : String} {r r' : Record} {s : MemoryStore}

/-- The records that a listing of a scope shows, if all of its entries can be read. -/
def listed (ns start scope : String) (s : MemoryStore) : List Record :=
  (s.range (ofFeature ns scope start)).filterMap fun e => Record.parse? e.bytes

theorem list_of_wellKept (h : s.WellKept ns) (start scope : String) :
    Registry.list ns start scope s = .ok (listed ns start scope s) := by
  have hRead : (s.range (ofFeature ns scope start)).mapM (fun e => Record.parse? e.bytes) =
      some (listed ns start scope s) := by
    refine mapM_eq_filterMap ?_
    intro e he
    obtain ⟨r, hParse, -⟩ := h e.key e.bytes (MemoryStore.mem_range_iff.1 he).1
    rw [hParse]
    rfl
  have hList : Store.list s (Path.join [Store.Key.scopePrefix ns scope, start]) =
      .ok (s.range (ofFeature ns scope start)) := rfl
  unfold Registry.list
  simp only [hList, hRead]

/-- A record in its place is listed just when its key begins as asked for. -/
theorem mem_listed_iff_startsWith (h : s.WellKept ns) :
    r ∈ listed ns start scope s ↔
      r ∈ s.records ∧ Path.startsWith r.storeKey (ofFeature ns scope start) = true := by
  unfold listed
  rw [List.mem_filterMap]
  constructor
  · rintro ⟨e, he, hParse⟩
    obtain ⟨hGet, hStarts⟩ := MemoryStore.mem_range_iff.1 he
    have hMem : r ∈ s.records := MemoryStore.mem_records_iff.2 ⟨e.key, e.bytes, hGet, hParse⟩
    obtain ⟨r', hParse', hPlaced⟩ := h e.key e.bytes hGet
    obtain rfl := Option.some.inj (hParse.symm.trans hParse')
    rw [hPlaced.storeKey]
    exact ⟨hMem, hStarts⟩
  · rintro ⟨hMem, hStarts⟩
    obtain ⟨key, bytes, hGet, hParse, hPlaced⟩ := h.isPlaced hMem
    rw [hPlaced.storeKey] at hStarts
    exact ⟨⟨key, bytes⟩, MemoryStore.mem_range_iff.2 ⟨hGet, hStarts⟩, hParse⟩

/-- A listing shows the records of the scope whose names begin as asked for, and those of deeper
scopes whose next segment begins so. -/
theorem mem_listed_iff (h : s.WellKept ns) (hStart : '/' ∉ start.toList) :
    r ∈ listed ns start scope s ↔
      r ∈ s.records ∧
        (r.scope = scopeOrDefault scope ∧ Path.startsWith r.key start = true ∨
          Path.startsWith r.scope (scopeOrDefault scope ++ "/" ++ start) = true) := by
  rw [mem_listed_iff_startsWith h]
  refine and_congr_right ?_
  intro hMem
  obtain ⟨key, bytes, -, -, hPlaced⟩ := h.isPlaced hMem
  rw [Record.storeKey_eq hPlaced.scope, hPlaced.ns, Store.Key.ofFeature_eq,
    Path.startsWith_append_append, Path.startsWith_append_slash_iff hPlaced.no_slash hStart]

/-- What is listed is in the order of the keys, and nothing comes twice. -/
theorem pairwise_listed (h : s.WellKept ns) (start scope : String) :
    (listed ns start scope s).Pairwise fun r r' => r.storeKey < r'.storeKey := by
  unfold listed
  rw [List.pairwise_filterMap]
  refine List.Pairwise.imp_of_mem ?_ (s.pairwise_range (ofFeature ns scope start))
  intro e e' he he' hLt r hr r' hr'
  have hKey : ∀ e ∈ s.range (ofFeature ns scope start), ∀ r, Record.parse? e.bytes = some r →
      r.storeKey = e.key := by
    intro e he r hParse
    obtain ⟨r', hParse', hPlaced⟩ := h e.key e.bytes (MemoryStore.mem_range_iff.1 he).1
    obtain rfl := Option.some.inj (hParse.symm.trans hParse')
    exact hPlaced.storeKey
  rw [hKey e he r hr, hKey e' he' r' hr']
  exact hLt

/-- Whether a list shows the records of one scope whose names begin with a text, each of them once
and in the order of their names. -/
structure IsListing (s : MemoryStore) (scope start : String) (l : List Record) : Prop where
  mem_iff : ∀ r, r ∈ l ↔ r ∈ s.records ∧ r.scope = scope ∧ Path.startsWith r.key start = true
  sorted : l.Pairwise fun r r' => r.key < r'.key

/-- Within one scope the keys are in the order of the names. -/
theorem key_lt_of_storeKey_lt (hScope : r.scope ≠ "") (hNs : r.ns = r'.ns)
    (hSame : r.scope = r'.scope) (h : r.storeKey < r'.storeKey) : r.key < r'.key := by
  rw [Record.storeKey_eq hScope, Record.storeKey_eq (hSame ▸ hScope), hNs, hSame,
    append_lt_append_iff, append_lt_append_iff] at h
  exact h

/-- Without records in deeper scopes that begin as asked for, a listing is the listing of the
scope. -/
theorem isListing_listed_iff (h : s.WellKept ns) (hStart : '/' ∉ start.toList) :
    IsListing s (scopeOrDefault scope) start (listed ns start scope s) ↔
      ∀ r ∈ s.records, ¬ Path.startsWith r.scope (scopeOrDefault scope ++ "/" ++ start) = true := by
  constructor
  · intro hListing r hMem hDeeper
    have hListed := (mem_listed_iff h hStart).2 ⟨hMem, .inr hDeeper⟩
    obtain ⟨-, hScope, -⟩ := (hListing.mem_iff r).1 hListed
    -- no scope begins with itself and a slash
    rw [hScope] at hDeeper
    obtain ⟨rest, hRest⟩ := Path.startsWith_iff.1 hDeeper
    have hLength := congrArg (fun t : String => t.toList.length) hRest
    simp only [String.toList_append, List.length_append] at hLength
    have hSlash : "/".toList.length = 1 := rfl
    omega
  · intro hNone
    have hMem : ∀ r, r ∈ listed ns start scope s ↔
        r ∈ s.records ∧ r.scope = scopeOrDefault scope ∧ Path.startsWith r.key start = true := by
      intro r
      rw [mem_listed_iff h hStart]
      refine and_congr_right ?_
      intro hr
      rw [or_iff_left (hNone r hr)]
    refine ⟨hMem, (pairwise_listed h start scope).imp_of_mem ?_⟩
    -- all records that are listed are of one scope, so their keys differ in the names
    intro r r' hr hr' hLt
    obtain ⟨hRecord, hScope, -⟩ := (hMem r).1 hr
    obtain ⟨hRecord', hScope', -⟩ := (hMem r').1 hr'
    obtain ⟨_, _, -, -, hPlaced⟩ := h.isPlaced hRecord
    obtain ⟨_, _, -, -, hPlaced'⟩ := h.isPlaced hRecord'
    exact key_lt_of_storeKey_lt hPlaced.scope (hPlaced.ns.trans hPlaced'.ns.symm)
      (hScope.trans hScope'.symm) hLt

/-- After every run a listing of a scope succeeds. It shows each record of the scope whose name
begins as asked for, and each record of a deeper scope whose next segment begins so, in the order of
their keys. So it is the listing of the scope if and only if there is no such deeper scope. -/
theorem list_run (ns : String) (requests : List Request) (scope : String) {start : String}
    (hStart : '/' ∉ start.toList) :
    ∃ l, Registry.list ns start scope (run ns requests) = .ok l ∧
      l.Pairwise (fun r r' => r.storeKey < r'.storeKey) ∧
      (∀ r, r ∈ l ↔ r ∈ (run ns requests).records ∧
        (r.scope = scopeOrDefault scope ∧ Path.startsWith r.key start = true ∨
          Path.startsWith r.scope (scopeOrDefault scope ++ "/" ++ start) = true)) ∧
      (IsListing (run ns requests) (scopeOrDefault scope) start l ↔
        ∀ r ∈ (run ns requests).records,
          ¬ Path.startsWith r.scope (scopeOrDefault scope ++ "/" ++ start) = true) := by
  have hKept := run_wellKept ns requests
  exact ⟨listed ns start scope (run ns requests), list_of_wellKept hKept start scope,
    pairwise_listed hKept start scope, fun r => mem_listed_iff hKept hStart,
    isListing_listed_iff hKept hStart⟩

/-- A feature of one name in a scope and in a deeper one. -/
def nested : List Request :=
  [.set { Record.ofValue "new_ui" (.bool true) with scope := "cc" },
   .set { Record.ofValue "new_ui" (.bool false) with scope := "cc/de" }]

/-- The listing of the scope shows the record of the deeper one as well. -/
theorem list_run_nested :
    '/' ∉ "".toList ∧
    ∃ l, Registry.list "dcdr" "" "cc" (run "dcdr" nested) = .ok l ∧
      (∃ r ∈ l, r.scope = "cc/de") ∧ ¬ IsListing (run "dcdr" nested) "cc" "" l := by
  have hStart : '/' ∉ "".toList := by decide
  obtain ⟨l, hList, -, hMem, hIff⟩ := list_run "dcdr" nested "cc" hStart
  have hDeeper : ∃ r ∈ (run "dcdr" nested).records, r.scope = "cc/de" ∧
      Path.startsWith r.scope ("cc" ++ "/" ++ "") = true := by decide +kernel
  obtain ⟨r, hr, hScope, hStarts⟩ := hDeeper
  refine ⟨hStart, l, hList, ⟨r, (hMem r).2 ⟨hr, .inr hStarts⟩, hScope⟩, ?_⟩
  intro hListing
  exact hIff.1 hListing r hr hStarts

end Registry

end FeatureFlags
