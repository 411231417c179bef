import FeatureFlags.Proofs.SortedMap
import FeatureFlags.Proofs.Tree.Paths

/-!
# Members of trees

A tree in order is known by what it answers for each name: its members, and which of them are
leaves.

* `get?_leaves`, `get?_branches` — the leaves and the branches among the members of a tree.
* `ofList_toList`, `toList_ofList` — a tree in order is made again of its members, and has those it is
  made of.
* `get?_ofLeaves`, `get?_putLeaves` — the members of a tree that is made of leaves.
-/

namespace FeatureFlags.Tree

universe u

variable {α : Type u}

/-! ## Leaves and branches among the members -/

theorem get?_eq_none_of_lt {t : Tree α} {name : String} (h : ∀ m ∈ t.names, name < m) :
    t.get? name = none := by
  induction t with
  | empty => rfl
  | leaf n a rest ih =>
    have hLt : name < n := h n List.mem_cons_self
    rw [get?, if_neg fun hEq : name = n => String.lt_irrefl n (hEq ▸ hLt)]
    exact ih fun m hm => h m (List.mem_cons_of_mem _ hm)
  | branch n inner rest _ ih =>
    have hLt : name < n := h n List.mem_cons_self
    rw [get?, if_neg fun hEq : name = n => String.lt_irrefl n (hEq ▸ hLt)]
    exact ih fun m hm => h m (List.mem_cons_of_mem _ hm)

/-- The leaves among the members of a tree in order. -/
theorem get?_leaves {t : Tree α} (hSorted : t.Sorted) (name : String) :
    t.leaves.get? name = t.leafAt [name] := by
  -- by induction on the members; a branch counts for nothing, wherever it stands
  induction t with
  | empty => rfl
  | leaf n a rest ih =>
    rw [leaves, SortedMap.get?_insert, ih hSorted.2, leafAt_singleton, leafAt_singleton, get?]
    by_cases hEq : name = n
    · rw [if_pos hEq, if_pos hEq]
    · rw [if_neg hEq, if_neg hEq]
  | branch n inner rest _ ih =>
    rw [leaves, ih hSorted.2.2, leafAt_singleton, leafAt_singleton, get?]
    by_cases hEq : name = n
    · rw [if_pos hEq, hEq, get?_eq_none_of_lt hSorted.1]
    · rw [if_neg hEq]

/-- Whether a member is a branch. -/
def Item.isBranch : Item α → Bool
  | .leaf _ => false
  | .branch _ => true

/-- The branches among the members of a tree in order. -/
theorem get?_branches {t : Tree α} (hSorted : t.Sorted) (name : String) :
    t.branches.get? name = (t.get? name).filter Item.isBranch := by
  induction t with
  | empty => rfl
  | leaf n a rest ih =>
    rw [branches, ih hSorted.2, get?]
    by_cases hEq : name = n
    · rw [if_pos hEq, hEq, get?_eq_none_of_lt hSorted.1]
      rfl
    · rw [if_neg hEq]
  | branch n inner rest _ ih =>
    rw [branches, get?, get?, ih hSorted.2.2]
    by_cases hEq : name = n
    · rw [if_pos hEq, if_pos hEq]
      rfl
    · rw [if_neg hEq, if_neg hEq]

theorem sorted_of_lookup {t : Tree α} (hSorted : t.Sorted) {path : List String} {item : Item α}
    (h : t.lookup path = some item) : item.Sorted := by
  induction path generalizing t with
  | nil => simp [lookup] at h
  | cons segment path ih =>
    by_cases hPath : path = []
    · subst hPath
      exact sorted_of_get? hSorted h
    · rw [lookup] at h
      · split at h
        · next inner hInner => exact ih (sorted_of_get? hSorted hInner) h
        · cases h
      · exact hPath

/-! ## Taking members away -/

theorem mem_names_of_mem_remove {t : Tree α} {name m : String} (h : m ∈ (t.remove name).names) :
    m ∈ t.names := by
  induction t with
  | empty => exact h
  | leaf n a rest ih =>
    rw [remove] at h
    split at h
    · exact List.mem_cons_of_mem _ (ih h)
    · exact (List.mem_cons.1 h).elim (fun hFirst => hFirst ▸ List.mem_cons_self)
        fun hRest => List.mem_cons_of_mem _ (ih hRest)
  | branch n inner rest _ ih =>
    rw [remove] at h
    split at h
    · exact List.mem_cons_of_mem _ (ih h)
    · exact (List.mem_cons.1 h).elim (fun hFirst => hFirst ▸ List.mem_cons_self)
        fun hRest => List.mem_cons_of_mem _ (ih hRest)

theorem sorted_remove {t : Tree α} (hSorted : t.Sorted) (name : String) :
    (t.remove name).Sorted := by
  induction t with
  | empty => trivial
  | leaf n a rest ih =>
    rw [remove]
    split
    · exact ih hSorted.2
    · exact ⟨fun m hm => hSorted.1 m (mem_names_of_mem_remove hm), ih hSorted.2⟩
  | branch n inner rest _ ih =>
    rw [remove]
    split
    · exact ih hSorted.2.2
    · exact ⟨fun m hm => hSorted.1 m (mem_names_of_mem_remove hm), hSorted.2.1, ih hSorted.2.2⟩

/-! ## Members in order -/

theorem get?_eq_lookup (t : Tree α) (name : String) : t.get? name = t.toList.lookup name := by
  induction t with
  | empty => rfl
  | leaf n a rest ih => rw [get?, toList, SortedMap.lookup_cons_eq_ite, ih]
  | branch n inner rest _ ih => rw [get?, toList, SortedMap.lookup_cons_eq_ite, ih]

theorem pairwise_toList {t : Tree α} (hSorted : t.Sorted) :
    t.toList.Pairwise fun m m' => m.1 < m'.1 := by
  induction t with
  | empty => exact .nil
  | leaf n a rest ih =>
    refine List.pairwise_cons.2 ⟨fun m hm => ?_, ih hSorted.2⟩
    exact hSorted.1 m.1 (List.mem_map_of_mem hm)
  | branch n inner rest _ ih =>
    refine List.pairwise_cons.2 ⟨fun m hm => ?_, ih hSorted.2.2⟩
    exact hSorted.1 m.1 (List.mem_map_of_mem hm)

theorem toList_injective {t t' : Tree α} (h : t.toList = t'.toList) : t = t' := by
  induction t generalizing t' with
  | empty =>
    cases t' with
    | empty => rfl
    | leaf _ _ _ => cases h
    | branch _ _ _ => cases h
  | leaf n a rest ih =>
    cases t' with
    | empty => cases h
    | leaf n' a' rest' =>
      obtain ⟨hHead, hRest⟩ := List.cons.inj h
      cases hHead
      rw [ih hRest]
    | branch _ _ _ => cases h
  | branch n inner rest _ ih =>
    cases t' with
    | empty => cases h
    | leaf _ _ _ => cases h
    | branch n' inner' rest' =>
      obtain ⟨hHead, hRest⟩ := List.cons.inj h
      cases hHead
      rw [ih hRest]

/-- Trees in order that answer every look-up alike are equal. -/
theorem ext_get? {t t' : Tree α} (hSorted : t.Sorted) (hSorted' : t'.Sorted)
    (h : ∀ name, t.get? name = t'.get? name) : t = t' := by
  apply toList_injective
  apply SortedMap.entries_eq_of_lookup (pairwise_toList hSorted) (pairwise_toList hSorted')
  intro name
  rw [← get?_eq_lookup, ← get?_eq_lookup, h]

theorem get?_foldl_put (t : Tree α) {members : List (String × Item α)}
    (hSorted : members.Pairwise fun m m' => m.1 < m'.1) (name : String) :
    (members.foldl (fun t m => t.put m.1 m.2) t).get? name =
      (members.lookup name).or (t.get? name) := by
  induction members generalizing t with
  | nil => rfl
  | cons head rest ih =>
    obtain ⟨hHead, hRest⟩ := List.pairwise_cons.1 hSorted
    rw [List.foldl_cons, ih _ hRest, get?_put, SortedMap.lookup_cons_eq_ite]
    -- no name comes twice here either
    by_cases hName : name = head.1
    · rw [if_pos hName, if_pos hName, hName, SortedMap.lookup_eq_none_of_lt hHead]
      rfl
    · rw [if_neg hName, if_neg hName]

theorem sorted_toList {t : Tree α} (hSorted : t.Sorted) : ∀ m ∈ t.toList, m.2.Sorted := by
  induction t with
  | empty => simp [toList]
  | leaf n a rest ih =>
    intro m hm
    rcases List.mem_cons.1 hm with rfl | hm
    · trivial
    · exact ih hSorted.2 m hm
  | branch n inner rest _ ih =>
    intro m hm
    rcases List.mem_cons.1 hm with rfl | hm
    · exact hSorted.2.1
    · exact ih hSorted.2.2 m hm

/-- A tree in order is made again of its members. -/
theorem ofList_toList {t : Tree α} (hSorted : t.Sorted) : ofList t.toList = t := by
  apply ext_get? (sorted_ofList (sorted_toList hSorted)) hSorted
  intro name
  rw [ofList, get?_foldl_put _ (pairwise_toList hSorted), get?_eq_lookup t]
  exact Option.or_none

/-- A tree that is made of members in order has these members. -/
theorem toList_ofList {members : List (String × Item α)}
    (hOrder : members.Pairwise fun m m' => m.1 < m'.1) (hSorted : ∀ m ∈ members, m.2.Sorted) :
    (ofList members).toList = members := by
  apply SortedMap.entries_eq_of_lookup (pairwise_toList (sorted_ofList hSorted)) hOrder
  intro name
  rw [← get?_eq_lookup, ofList, get?_foldl_put _ hOrder]
  exact Option.or_none

/-! ## Trees made of leaves -/

theorem toList_ofLeaves (leaves : SortedMap α) :
    (ofLeaves leaves).toList = leaves.toList.map fun e => (e.1, .leaf e.2) := by
  rw [ofLeaves]
  induction leaves.toList with
  | nil => rfl
  | cons head rest ih => exact congrArg _ ih

theorem get?_ofLeaves (leaves : SortedMap α) (name : String) :
    (ofLeaves leaves).get? name = (leaves.get? name).map .leaf := by
  rw [get?_eq_lookup, toList_ofLeaves, SortedMap.lookup_map Item.leaf]
  rfl

theorem child_ofLeaves (leaves : SortedMap α) (name : String) :
    (ofLeaves leaves).child name = .empty := by
  rw [child, get?_ofLeaves]
  cases leaves.get? name <;> rfl

theorem get?_putLeaves (t : Tree α) (leaves : SortedMap α) (name : String) :
    (t.putLeaves leaves).get? name = ((leaves.get? name).map .leaf).or (t.get? name) := by
  have hFold : t.putLeaves leaves =
      (leaves.toList.map fun e => (e.1, Item.leaf e.2)).foldl (fun t m => t.put m.1 m.2) t := by
    rw [putLeaves, List.foldl_map]
  have hSorted : (leaves.toList.map fun e => (e.1, Item.leaf e.2)).Pairwise
      fun m m' => m.1 < m'.1 := List.pairwise_map.2 leaves.sorted
  rw [hFold, get?_foldl_put t hSorted, SortedMap.lookup_map Item.leaf]
  rfl

end FeatureFlags.Tree
