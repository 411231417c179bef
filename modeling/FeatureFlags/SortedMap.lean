/-!
# Sorted maps

Finite maps from names to anything, held as a list of entries in strictly increasing order of the
names. Strings compare code point by code point, which is the order of their UTF-8 bytes, so this
is also the order in which every document of the library lists its members.

Two sorted maps that answer every look-up alike have the same entries (`SortedMap.ext_get?`), so
equality of maps is equality of the answers.

* `insertEntry_sorted` — one pass inserts or replaces and keeps the order.
* `get?_insert`, `get?_erase` — what the two updates do to every look-up.
-/

namespace FeatureFlags

universe u v

/-- A finite map from names, kept as its entries in increasing order of the names. -/
structure SortedMap (α : Type u) where
  entries : List (String × α)
  sorted : entries.Pairwise fun a b => a.1 < b.1
deriving DecidableEq

namespace SortedMap

variable {α : Type u} {β : Type v}

/-! ## Entries -/

/-- Puts an entry at its place, replacing the one of the same name. -/
def insertEntry (name : String) (x : α) : List (String × α) → List (String × α)
  | [] => [(name, x)]
  | (n, y) :: rest =>
    if name < n then (name, x) :: (n, y) :: rest
    else if name = n then (name, x) :: rest
    else (n, y) :: insertEntry name x rest

theorem mem_insertEntry {name : String} {x : α} {e : String × α} {l : List (String × α)}
    (h : e ∈ insertEntry name x l) : e = (name, x) ∨ e ∈ l := by
  induction l with
  | nil => simpa [insertEntry] using h
  | cons head rest ih =>
    obtain ⟨n, y⟩ := head
    rw [insertEntry] at h
    split at h
    · simpa using h
    · split at h
      · simp only [List.mem_cons] at h ⊢
        exact h.imp id .inr
      · simp only [List.mem_cons] at h ⊢
        rcases h with h | h
        · exact .inr (.inl h)
        · exact (ih h).imp id .inr

theorem insertEntry_sorted (name : String) (x : α) {l : List (String × α)}
    (h : l.Pairwise fun a b => a.1 < b.1) :
    (insertEntry name x l).Pairwise fun a b => a.1 < b.1 := by
  induction l with
  | nil => simp [insertEntry]
  | cons head rest ih =>
    obtain ⟨n, y⟩ := head
    obtain ⟨hHead, hRest⟩ := List.pairwise_cons.1 h
    rw [insertEntry]
    split
    · next hLt =>
      refine List.pairwise_cons.2 ⟨fun e he => ?_, h⟩
      rcases List.mem_cons.1 he with rfl | he
      · exact hLt
      · exact String.lt_trans hLt (hHead e he)
    · split
      · next hEq =>
        subst hEq
        exact List.pairwise_cons.2 ⟨hHead, hRest⟩
      · next hNotLt hNe =>
        refine List.pairwise_cons.2 ⟨fun e he => ?_, ih hRest⟩
        rcases mem_insertEntry he with rfl | he
        · exact Std.lt_of_le_of_ne (Std.not_lt.1 hNotLt) (Ne.symm hNe)
        · exact hHead e he

/-! ## The operations -/

/-- The map without entries. -/
def empty : SortedMap α := ⟨[], .nil⟩

instance : EmptyCollection (SortedMap α) := ⟨empty⟩

instance : Inhabited (SortedMap α) := ⟨empty⟩

/-- What the map holds under `name`. -/
def get? (m : SortedMap α) (name : String) : Option α :=
  m.entries.lookup name

/-- Whether the map holds something under `name`. -/
def contains (m : SortedMap α) (name : String) : Bool :=
  (m.get? name).isSome

/-- Holds `x` under `name` from now on. -/
def insert (m : SortedMap α) (name : String) (x : α) : SortedMap α :=
  ⟨insertEntry name x m.entries, insertEntry_sorted name x m.sorted⟩

/-- Forgets what is under `name`. -/
def erase (m : SortedMap α) (name : String) : SortedMap α :=
  ⟨m.entries.filter (·.1 ≠ name), m.sorted.filter _⟩

/-- The entries, in increasing order of their names. -/
def toList (m : SortedMap α) : List (String × α) := m.entries

/-- The names, in increasing order. -/
def names (m : SortedMap α) : List String := m.entries.map (·.1)

/-- The number of entries. -/
def size (m : SortedMap α) : Nat := m.entries.length

/-- The map of a list of entries, of which the last one of a name counts. -/
def ofList (l : List (String × α)) : SortedMap α :=
  l.foldl (fun m e => m.insert e.1 e.2) empty

/-- `m` overlaid with `top`, whose entries win. -/
def extend (m top : SortedMap α) : SortedMap α :=
  top.entries.foldl (fun acc e => acc.insert e.1 e.2) m

/-! ## Look-ups after an update -/

theorem lookup_cons_eq_ite (e : String × α) (l : List (String × α)) (name : String) :
    (e :: l).lookup name = if name = e.1 then some e.2 else l.lookup name := by
  obtain ⟨first, x⟩ := e
  rw [List.lookup_cons]
  by_cases h : name = first
  · simp [h]
  · simp [beq_eq_false_iff_ne.2 h, h]

@[simp]
theorem get?_empty (name : String) : (empty : SortedMap α).get? name = none := rfl

theorem lookup_insertEntry (name : String) (x : α) (other : String) (l : List (String × α)) :
    (insertEntry name x l).lookup other = if other = name then some x else l.lookup other := by
  induction l with
  | nil => simp [insertEntry, lookup_cons_eq_ite]
  | cons head rest ih =>
    rw [insertEntry]
    split
    · simp [lookup_cons_eq_ite]
    · split
      · next hEq => grind [lookup_cons_eq_ite]
      · next hNe => grind [lookup_cons_eq_ite]

@[simp]
theorem get?_insert (m : SortedMap α) (name : String) (x : α) (other : String) :
    (m.insert name x).get? other = if other = name then some x else m.get? other :=
  lookup_insertEntry name x other m.entries

theorem lookup_filter_ne (name other : String) (l : List (String × α)) :
    (l.filter (·.1 ≠ name)).lookup other = if other = name then none else l.lookup other := by
  induction l with
  | nil => simp
  | cons head rest ih =>
    rw [List.filter_cons]
    split <;> grind [lookup_cons_eq_ite]

@[simp]
theorem get?_erase (m : SortedMap α) (name other : String) :
    (m.erase name).get? other = if other = name then none else m.get? other :=
  lookup_filter_ne name other m.entries

/-! ## Equality is equality of the answers -/

theorem lookup_eq_none_of_lt {name : String} {l : List (String × α)}
    (h : ∀ e ∈ l, name < e.1) : l.lookup name = none := by
  induction l with
  | nil => rfl
  | cons head rest ih =>
    rw [lookup_cons_eq_ite, if_neg, ih fun e he => h e (List.mem_cons_of_mem _ he)]
    rintro rfl
    exact String.lt_irrefl _ (h head List.mem_cons_self)

theorem lookup_eq_some_of_mem {name : String} {x : α} {l : List (String × α)}
    (h : l.Pairwise fun a b => a.1 < b.1) (hMem : (name, x) ∈ l) :
    l.lookup name = some x := by
  induction l with
  | nil => simp at hMem
  | cons head rest ih =>
    obtain ⟨hHead, hRest⟩ := List.pairwise_cons.1 h
    rcases List.mem_cons.1 hMem with rfl | hMem
    · simp
    · rw [lookup_cons_eq_ite, if_neg, ih hRest hMem]
      intro hEq
      have hLt : head.1 < name := hHead (name, x) hMem
      exact String.lt_irrefl name (hEq ▸ hLt)

theorem entries_eq_of_lookup {l l' : List (String × α)}
    (h : l.Pairwise fun a b => a.1 < b.1) (h' : l'.Pairwise fun a b => a.1 < b.1)
    (hLookup : ∀ name, l.lookup name = l'.lookup name) : l = l' := by
  induction l generalizing l' with
  | nil =>
    cases l' with
    | nil => rfl
    | cons head' rest' => simpa [lookup_cons_eq_ite] using hLookup head'.1
  | cons head rest ih =>
    obtain ⟨hHead, hRest⟩ := List.pairwise_cons.1 h
    cases l' with
    | nil => simpa [lookup_cons_eq_ite] using hLookup head.1
    | cons head' rest' =>
      obtain ⟨hHead', hRest'⟩ := List.pairwise_cons.1 h'
      -- Of two different first names the smaller one is missing from the other list.
      have hName : head.1 = head'.1 := by
        rcases Std.lt_trichotomy head.1 head'.1 with hLt | hEq | hLt
        · have hNone : (head' :: rest').lookup head.1 = none :=
            lookup_eq_none_of_lt fun e he => (List.mem_cons.1 he).elim
              (fun hE => hE ▸ hLt) fun hE => String.lt_trans hLt (hHead' e hE)
          rw [← hLookup, lookup_cons_eq_ite, if_pos rfl] at hNone
          simp at hNone
        · exact hEq
        · have hNone : (head :: rest).lookup head'.1 = none :=
            lookup_eq_none_of_lt fun e he => (List.mem_cons.1 he).elim
              (fun hE => hE ▸ hLt) fun hE => String.lt_trans hLt (hHead e hE)
          rw [hLookup, lookup_cons_eq_ite, if_pos rfl] at hNone
          simp at hNone
      have hValue : head.2 = head'.2 := by
        simpa [lookup_cons_eq_ite, hName] using hLookup head.1
      -- The first name occurs in neither of the tails, so they too answer alike.
      have hTails : rest = rest' := by
        refine ih hRest hRest' fun name => ?_
        by_cases hn : name = head.1
        · rw [hn, lookup_eq_none_of_lt hHead, hName, lookup_eq_none_of_lt hHead']
        · have := hLookup name
          rwa [lookup_cons_eq_ite, lookup_cons_eq_ite, if_neg hn, if_neg (hName ▸ hn)] at this
      rw [hTails, Prod.ext hName hValue]

/-- Maps that answer every look-up alike are equal. -/
theorem ext_get? {m m' : SortedMap α} (h : ∀ name, m.get? name = m'.get? name) : m = m' := by
  cases m
  cases m'
  simpa using entries_eq_of_lookup (by assumption) (by assumption) h

end SortedMap

end FeatureFlags
