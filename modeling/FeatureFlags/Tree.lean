import FeatureFlags.SortedMap

/-!
# Trees

Things filed under paths: a tree holds leaves and further trees by name. It is written as a list of
its members in increasing order of their names, where a branch stands in line with its members below
it: `Tree.branch name inner rest` is the tree that holds `inner` under `name` and otherwise what
`rest` holds. So trees of any shape are one plain inductive type, and every function on them is a
structural recursion.

* `Tree.get?_put`, `Tree.get?_remove` — what an update does to every look-up.
* `Tree.sorted_put`, `Tree.sorted_insertAt` — updates keep the order.
-/

namespace FeatureFlags

universe u

/-- A tree of leaves: members by name, each a leaf or a further tree. -/
inductive Tree (α : Type u) where
  | empty
  | leaf (name : String) (a : α) (rest : Tree α)
  | branch (name : String) (inner rest : Tree α)
deriving DecidableEq, Inhabited

namespace Tree

/-- What a tree holds under a name. -/
inductive Item (α : Type u) where
  | leaf (a : α)
  | branch (t : Tree α)
deriving DecidableEq

variable {α : Type u}

instance : EmptyCollection (Tree α) := ⟨empty⟩

/-- The tree with a member in front of those of `rest`. -/
def cons (name : String) (item : Item α) (rest : Tree α) : Tree α :=
  match item with
  | .leaf a => .leaf name a rest
  | .branch t => .branch name t rest

/-- The members in order. -/
def toList : Tree α → List (String × Item α)
  | empty => []
  | leaf n a rest => (n, .leaf a) :: rest.toList
  | branch n inner rest => (n, .branch inner) :: rest.toList

/-- The names of the members in order. -/
def names (t : Tree α) : List String :=
  t.toList.map (·.1)

/-- The member of a name. -/
def get? (t : Tree α) (name : String) : Option (Item α) :=
  match t with
  | empty => none
  | leaf n a rest => if name = n then some (.leaf a) else rest.get? name
  | branch n inner rest => if name = n then some (.branch inner) else rest.get? name

/-- Puts a member at its place, replacing the one of the same name. -/
def put (name : String) (item : Item α) : Tree α → Tree α
  | empty => cons name item empty
  | leaf n a rest =>
    if name < n then cons name item (leaf n a rest)
    else if name = n then cons name item rest
    else leaf n a (put name item rest)
  | branch n inner rest =>
    if name < n then cons name item (branch n inner rest)
    else if name = n then cons name item rest
    else branch n inner (put name item rest)

/-- Takes the member of a name away. -/
def remove (name : String) : Tree α → Tree α
  | empty => empty
  | leaf n a rest => if name = n then remove name rest else leaf n a (remove name rest)
  | branch n inner rest =>
    if name = n then remove name rest else branch n inner (remove name rest)

/-- The tree of a list of members, of which the last one of a name counts. -/
def ofList (members : List (String × Item α)) : Tree α :=
  members.foldl (fun t m => t.put m.1 m.2) empty

/-- The branch under a name, empty when there is none. -/
def child (t : Tree α) (name : String) : Tree α :=
  match t.get? name with
  | some (.branch inner) => inner
  | _ => empty

/-- Walks down a path. The empty path leads nowhere. -/
def lookup (t : Tree α) : List String → Option (Item α)
  | [] => none
  | [name] => t.get? name
  | name :: path =>
    match t.get? name with
    | some (.branch inner) => inner.lookup path
    | _ => none

/-- Puts a leaf into the branch at a path. Branches on the way are made where they are missing, also
in the place of a leaf. -/
def insertAt (t : Tree α) (path : List String) (name : String) (a : α) : Tree α :=
  match path with
  | [] => t.put name (.leaf a)
  | segment :: path => t.put segment (.branch ((t.child segment).insertAt path name a))

/-- Changes the branch at a path. Branches on the way are made where they are missing. -/
def modifyAt (t : Tree α) (path : List String) (change : Tree α → Tree α) : Tree α :=
  match path with
  | [] => change t
  | segment :: path => t.put segment (.branch ((t.child segment).modifyAt path change))

/-- The leaves among the members. -/
def leaves : Tree α → SortedMap α
  | empty => .empty
  | leaf n a rest => rest.leaves.insert n a
  | branch _ _ rest => rest.leaves

/-- The tree whose members are the given leaves. -/
def ofLeaves (leaves : SortedMap α) : Tree α :=
  leaves.toList.foldr (fun e t => .leaf e.1 e.2 t) empty

/-- The members that are branches. -/
def branches : Tree α → Tree α
  | empty => empty
  | leaf _ _ rest => rest.branches
  | branch n inner rest => branch n inner rest.branches

/-- The tree with the given leaves put into it. -/
def putLeaves (t : Tree α) (leaves : SortedMap α) : Tree α :=
  leaves.toList.foldl (fun t e => t.put e.1 (.leaf e.2)) t

/-- How many trees lie inside one another, the outermost counted. -/
def height : Tree α → Nat
  | empty => 1
  | leaf _ _ rest => rest.height
  | branch _ inner rest => max (inner.height + 1) rest.height

/-! ## Look-ups after an update -/

@[simp]
theorem get?_cons (name : String) (item : Item α) (rest : Tree α) (other : String) :
    (cons name item rest).get? other = if other = name then some item else rest.get? other := by
  cases item <;> rfl

/-- What putting a member does to every look-up. -/
@[simp]
theorem get?_put (t : Tree α) (name : String) (item : Item α) (other : String) :
    (t.put name item).get? other = if other = name then some item else t.get? other := by
  induction t with
  | empty => simp [put, get?]
  | leaf n a rest ih => grind [put, get?, get?_cons]
  | branch n inner rest _ ih => grind [put, get?, get?_cons]

/-- What taking a member away does to every look-up. -/
@[simp]
theorem get?_remove (t : Tree α) (name other : String) :
    (t.remove name).get? other = if other = name then none else t.get? other := by
  induction t with
  | empty => simp [remove, get?]
  | leaf n a rest ih => grind [remove, get?]
  | branch n inner rest _ ih => grind [remove, get?]

/-! ## Order -/

/-- Names increase along the members, at every level. -/
def Sorted : Tree α → Prop
  | empty => True
  | leaf n _ rest => (∀ m ∈ rest.names, n < m) ∧ rest.Sorted
  | branch n inner rest => (∀ m ∈ rest.names, n < m) ∧ inner.Sorted ∧ rest.Sorted

/-- A leaf is in order, a branch when its names are. -/
def Item.Sorted : Item α → Prop
  | .leaf _ => True
  | .branch t => t.Sorted

@[simp]
theorem names_cons (name : String) (item : Item α) (rest : Tree α) :
    (cons name item rest).names = name :: rest.names := by
  cases item <;> rfl

theorem sorted_cons {name : String} {item : Item α} {rest : Tree α}
    (hLt : ∀ m ∈ rest.names, name < m) (hItem : item.Sorted) (hRest : rest.Sorted) :
    (cons name item rest).Sorted := by
  cases item with
  | leaf a => exact ⟨hLt, hRest⟩
  | branch t => exact ⟨hLt, hItem, hRest⟩

theorem mem_names_put {t : Tree α} {name m : String} {item : Item α}
    (h : m ∈ (t.put name item).names) : m = name ∨ m ∈ t.names := by
  induction t with
  | empty => simpa [put] using h
  | leaf n a rest ih =>
    rw [put] at h
    split at h
    · simpa using h
    · split at h
      · rw [names_cons] at h
        exact (List.mem_cons.1 h).imp id (List.mem_cons_of_mem _)
      · rcases List.mem_cons.1 h with h | h
        · exact .inr (h ▸ List.mem_cons_self)
        · exact (ih h).imp id (List.mem_cons_of_mem _)
  | branch n inner rest _ ih =>
    rw [put] at h
    split at h
    · simpa using h
    · split at h
      · rw [names_cons] at h
        exact (List.mem_cons.1 h).imp id (List.mem_cons_of_mem _)
      · rcases List.mem_cons.1 h with h | h
        · exact .inr (h ▸ List.mem_cons_self)
        · exact (ih h).imp id (List.mem_cons_of_mem _)

/-- The names of what follows a name that is neither smaller than nor equal to `name`. -/
theorem lt_of_mem_put {rest : Tree α} {n name : String} {item : Item α}
    (hNotLt : ¬ name < n) (hNe : ¬ name = n) (hLt : ∀ m ∈ rest.names, n < m) :
    ∀ m ∈ (rest.put name item).names, n < m := fun m hm =>
  (mem_names_put hm).elim
    (fun h => h ▸ Std.lt_of_le_of_ne (Std.not_lt.1 hNotLt) (Ne.symm hNe)) (hLt m)

theorem sorted_put {t : Tree α} (hSorted : t.Sorted) (name : String) {item : Item α}
    (hItem : item.Sorted) : (t.put name item).Sorted := by
  induction t with
  | empty => exact sorted_cons (by simp [names, toList]) hItem trivial
  | leaf n a rest ih =>
    obtain ⟨hLt, hRest⟩ := hSorted
    rw [put]
    split
    · next h =>
      refine sorted_cons (fun m hm => ?_) hItem ⟨hLt, hRest⟩
      rcases List.mem_cons.1 hm with rfl | hm
      · exact h
      · exact String.lt_trans h (hLt m hm)
    · split
      · next h => exact sorted_cons (h ▸ hLt) hItem hRest
      · next h h' => exact ⟨lt_of_mem_put h h' hLt, ih hRest⟩
  | branch n inner rest _ ih =>
    obtain ⟨hLt, hInner, hRest⟩ := hSorted
    rw [put]
    split
    · next h =>
      refine sorted_cons (fun m hm => ?_) hItem ⟨hLt, hInner, hRest⟩
      rcases List.mem_cons.1 hm with rfl | hm
      · exact h
      · exact String.lt_trans h (hLt m hm)
    · split
      · next h => exact sorted_cons (h ▸ hLt) hItem hRest
      · next h h' => exact ⟨lt_of_mem_put h h' hLt, hInner, ih hRest⟩

/-- Whatever a tree in order holds is in order. -/
theorem sorted_of_get? {t : Tree α} (hSorted : t.Sorted) {name : String} {item : Item α}
    (h : t.get? name = some item) : item.Sorted := by
  induction t with
  | empty => simp [get?] at h
  | leaf n a rest ih =>
    rw [get?] at h
    split at h
    · cases h
      trivial
    · exact ih hSorted.2 h
  | branch n inner rest _ ih =>
    rw [get?] at h
    split at h
    · cases h
      exact hSorted.2.1
    · exact ih hSorted.2.2 h

theorem sorted_child {t : Tree α} (hSorted : t.Sorted) (name : String) :
    (t.child name).Sorted := by
  rw [child]
  split
  · next h => exact sorted_of_get? hSorted h
  · trivial

theorem sorted_insertAt {t : Tree α} (hSorted : t.Sorted) (path : List String) (name : String)
    (a : α) : (t.insertAt path name a).Sorted := by
  induction path generalizing t with
  | nil => exact sorted_put hSorted name trivial
  | cons segment path ih => exact sorted_put hSorted segment (ih (sorted_child hSorted segment))

theorem sorted_ofList {members : List (String × Item α)} (h : ∀ m ∈ members, m.2.Sorted) :
    (ofList members).Sorted := by
  suffices hFold : ∀ t : Tree α, t.Sorted →
      (members.foldl (fun t m => t.put m.1 m.2) t).Sorted from hFold empty trivial
  induction members with
  | nil => exact fun t ht => ht
  | cons head rest ih =>
    exact fun t ht => ih (fun m hm => h m (List.mem_cons_of_mem _ hm)) _
      (sorted_put ht head.1 (h head List.mem_cons_self))

theorem sorted_putLeaves {t : Tree α} (hSorted : t.Sorted) (leaves : SortedMap α) :
    (t.putLeaves leaves).Sorted := by
  rw [putLeaves]
  induction leaves.toList generalizing t with
  | nil => exact hSorted
  | cons head rest ih => exact ih (sorted_put hSorted head.1 trivial)

theorem mem_names_of_mem_branches {t : Tree α} {m : String} (h : m ∈ t.branches.names) :
    m ∈ t.names := by
  induction t with
  | empty => exact h
  | leaf n a rest ih => exact List.mem_cons_of_mem _ (ih h)
  | branch n inner rest _ ih =>
    rcases List.mem_cons.1 h with h | h
    · exact h ▸ List.mem_cons_self
    · exact List.mem_cons_of_mem _ (ih h)

theorem sorted_branches {t : Tree α} (hSorted : t.Sorted) : t.branches.Sorted := by
  induction t with
  | empty => trivial
  | leaf n a rest ih => exact ih hSorted.2
  | branch n inner rest _ ih =>
    exact ⟨fun m hm => hSorted.1 m (mem_names_of_mem_branches hm), hSorted.2.1, ih hSorted.2.2⟩

theorem names_foldr_leaf (entries : List (String × α)) :
    (entries.foldr (fun e t => leaf e.1 e.2 t) empty).names = entries.map (·.1) := by
  induction entries with
  | nil => rfl
  | cons head rest ih => simpa [names, toList] using ih

theorem sorted_ofLeaves (leaves : SortedMap α) : (ofLeaves leaves).Sorted := by
  obtain ⟨entries, hSorted⟩ := leaves
  rw [ofLeaves, SortedMap.toList]
  induction entries with
  | nil => trivial
  | cons head rest ih =>
    obtain ⟨hHead, hRest⟩ := List.pairwise_cons.1 hSorted
    refine ⟨fun m hm => ?_, ih hRest⟩
    rw [names_foldr_leaf] at hm
    obtain ⟨e, he, rfl⟩ := List.mem_map.1 hm
    exact hHead e he

end Tree

end FeatureFlags
