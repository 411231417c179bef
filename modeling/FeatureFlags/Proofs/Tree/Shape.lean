import FeatureFlags.Proofs.Tree.Insertion
import Mathlib.Data.List.MinMax

/-!
# Shapes of trees

What the leaves of a tree have in common and how high the tree is, after leaves have been put in.

* `forall_insertAll`, `height_insertAll_le_iff` — the tree of many leaves.
* `forall_ofList`, `height_ofList` — the tree of a list of members.
* `forall_ofLeaves`, `height_ofLeaves` — the tree that has nothing but leaves.
-/

namespace FeatureFlags.Tree

universe u

variable {α : Type u}

/-! ## What all leaves have in common -/

/-- Whether something holds of every leaf. -/
def Forall (P : α → Prop) : Tree α → Prop
  | empty => True
  | leaf _ a rest => P a ∧ rest.Forall P
  | branch _ inner rest => inner.Forall P ∧ rest.Forall P

variable {P : α → Prop}

/-- What the leaves have in common may make two conditions on them the same. -/
theorem forall_congr {Q R : α → Prop} (hIff : ∀ a, P a → (Q a ↔ R a)) {t : Tree α}
    (h : t.Forall P) : t.Forall Q ↔ t.Forall R := by
  induction t with
  | empty => rfl
  | leaf name a rest ih => exact and_congr (hIff a h.1) (ih h.2)
  | branch name inner rest ihInner ih => exact and_congr (ihInner h.1) (ih h.2)

theorem forall_put {t : Tree α} (h : t.Forall P) (name : String) {item : Item α}
    (hItem : ∀ rest : Tree α, rest.Forall P → (cons name item rest).Forall P) :
    (t.put name item).Forall P := by
  -- wherever the item goes, it stands before the members behind it
  induction t with
  | empty => exact hItem empty trivial
  | leaf n a rest ih =>
    rw [put]
    split
    · exact hItem _ h
    · split
      · exact hItem _ h.2
      · exact ⟨h.1, ih h.2⟩
  | branch n inner rest _ ih =>
    rw [put]
    split
    · exact hItem _ h
    · split
      · exact hItem _ h.2
      · exact ⟨h.1, ih h.2⟩

/-- Whether something holds of every leaf of a member. -/
def Item.Forall (P : α → Prop) : Item α → Prop
  | .leaf a => P a
  | .branch inner => inner.Forall P

theorem forall_get? {t : Tree α} (h : t.Forall P) {name : String} {item : Item α}
    (hItem : t.get? name = some item) : item.Forall P := by
  induction t with
  | empty => cases hItem
  | leaf n a rest ih =>
    rw [get?] at hItem
    split at hItem
    · cases hItem
      exact h.1
    · exact ih h.2 hItem
  | branch n inner rest _ ih =>
    rw [get?] at hItem
    split at hItem
    · cases hItem
      exact h.1
    · exact ih h.2 hItem

theorem forall_child {t : Tree α} (h : t.Forall P) (name : String) : (t.child name).Forall P := by
  unfold child
  split
  · next inner hInner => exact forall_get? h hInner
  · trivial

theorem forall_insertAt {t : Tree α} (h : t.Forall P) (path : List String) (name : String) {a : α}
    (ha : P a) : (t.insertAt path name a).Forall P := by
  induction path generalizing t with
  | nil => exact forall_put h name fun rest hRest => ⟨ha, hRest⟩
  | cons segment path ih =>
    exact forall_put h segment fun rest hRest => ⟨ih (forall_child h segment), hRest⟩

theorem forall_insertAll {t : Tree α} (h : t.Forall P) {leaves : List (Leaf α)}
    (hLeaves : ∀ l ∈ leaves, P l.value) : (t.insertAll leaves).Forall P := by
  induction leaves generalizing t with
  | nil => exact h
  | cons l leaves ih =>
    have hFirst := forall_insertAt h l.folder l.name (hLeaves l List.mem_cons_self)
    exact ih hFirst fun l' hl' => hLeaves l' (List.mem_cons_of_mem _ hl')

theorem forall_leafAt {t : Tree α} (h : t.Forall P) {path : List String} {a : α}
    (hLeaf : t.leafAt path = some a) : P a := by
  induction path generalizing t with
  | nil => simp at hLeaf
  | cons name path ih =>
    by_cases hPath : path = []
    · rw [hPath, leafAt_singleton] at hLeaf
      split at hLeaf
      · next a' hItem =>
        cases hLeaf
        exact forall_get? h hItem
      · cases hLeaf
    · rw [leafAt_cons _ _ hPath] at hLeaf
      exact ih (forall_child h name) hLeaf

/-! ## Heights -/

theorem height_pos (t : Tree α) : 0 < t.height := by
  induction t with
  | empty => exact Nat.one_pos
  | leaf _ _ _ ih => exact ih
  | branch n inner rest _ ih =>
    rw [height]
    omega

theorem height_put {t : Tree α} {name : String} {item : Item α} {h : Nat} (hTree : t.height ≤ h)
    (hItem : ∀ rest : Tree α, rest.height ≤ h → (cons name item rest).height ≤ h) :
    (t.put name item).height ≤ h := by
  -- as with `forall_put`, the item stands before some of the members
  induction t with
  | empty => exact hItem empty hTree
  | leaf n a rest ih =>
    rw [put]
    split
    · exact hItem _ hTree
    · split
      · exact hItem _ hTree
      · exact ih hTree
  | branch n inner rest _ ih =>
    rw [height] at hTree
    rw [put]
    split
    · exact hItem _ (by rw [height]; omega)
    · split
      · exact hItem _ (by omega)
      · have hRest := ih (by omega)
        rw [height]
        omega

/-- A branch is one lower than the tree that it is in. -/
theorem height_of_get? {t inner : Tree α} {name : String} (h : t.get? name = some (.branch inner)) :
    inner.height + 1 ≤ t.height := by
  induction t with
  | empty => cases h
  | leaf n a rest ih =>
    rw [get?] at h
    split at h
    · cases h
    · exact ih h
  | branch n inner' rest _ ih =>
    rw [get?] at h
    rw [height]
    split at h
    · cases h
      omega
    · have hRest := ih h
      omega

theorem height_child (t : Tree α) (name : String) : (t.child name).height + 1 ≤ max t.height 2 := by
  unfold child
  split
  · next inner hInner =>
    have hLt := height_of_get? hInner
    omega
  · rw [height]
    omega

/-- A tree is at least as high as the path of any of its leaves is long. -/
theorem length_le_height {t : Tree α} {path : List String} {a : α} (h : t.leafAt path = some a) :
    path.length ≤ t.height := by
  induction path generalizing t with
  | nil => exact Nat.zero_le _
  | cons name path ih =>
    have hPos := height_pos t
    by_cases hPath : path = []
    · rw [hPath]
      exact hPos
    · rw [leafAt_cons _ _ hPath, child] at h
      rw [List.length_cons]
      split at h
      · next inner hInner =>
        have hLength := ih h
        have hLt := height_of_get? hInner
        omega
      · -- where no branch stands there is no leaf
        simp at h

/-- A leaf that is put in makes a tree as high as its path is long. -/
theorem height_insertAt (t : Tree α) (path : List String) (name : String) (a : α) :
    (t.insertAt path name a).height ≤ max t.height (path.length + 1) := by
  induction path generalizing t with
  | nil =>
    refine height_put (Nat.le_max_left _ _) fun rest hRest => ?_
    exact hRest
  | cons segment path ih =>
    refine height_put (Nat.le_max_left _ _) fun rest hRest => ?_
    have hInner := ih (t.child segment)
    have hChild := height_child t segment
    rw [List.length_cons] at hRest ⊢
    rw [cons, height]
    omega

theorem height_insertAll {t : Tree α} {h : Nat} (hTree : t.height ≤ h) {leaves : List (Leaf α)}
    (hLeaves : ∀ l ∈ leaves, l.folder.length + 1 ≤ h) : (t.insertAll leaves).height ≤ h := by
  induction leaves generalizing t with
  | nil => exact hTree
  | cons l leaves ih =>
    have hLength := hLeaves l List.mem_cons_self
    have hFirst : (t.insertAt l.folder l.name l.value).height ≤ h :=
      Nat.le_trans (height_insertAt t l.folder l.name l.value) (Nat.max_le.2 ⟨hTree, hLength⟩)
    exact ih hFirst fun l' hl' => hLeaves l' (List.mem_cons_of_mem _ hl')

/-- Of the leaves below a path one is left when all are put in: one with the longest path. -/
theorem exists_isLeft {leaves : List (Leaf α)} {l : Leaf α} (hl : l ∈ leaves) :
    ∃ l' ∈ leaves, l.path <+: l'.path ∧ IsLeft leaves l'.path l'.value := by
  have hBelow : l ∈ leaves.filter fun l' => l.path.isPrefixOf l'.path := by
    rw [List.mem_filter, List.isPrefixOf_iff_prefix]
    exact ⟨hl, List.prefix_rfl⟩
  cases hLongest : (leaves.filter fun l' => l.path.isPrefixOf l'.path).argmax
      fun l' => l'.path.length with
  | none =>
    rw [List.argmax_eq_none.1 hLongest] at hBelow
    cases hBelow
  | some l' =>
    have hMem := List.mem_filter.1 (List.argmax_mem hLongest)
    have hPrefix : l.path <+: l'.path := List.isPrefixOf_iff_prefix.1 hMem.2
    refine ⟨l', hMem.1, hPrefix, ⟨l', hMem.1, rfl, rfl⟩, ?_⟩
    -- what lies below it is no longer than it is
    intro l'' hl'' hBelow''
    have hMem'' : l'' ∈ leaves.filter fun l' => l.path.isPrefixOf l'.path := by
      rw [List.mem_filter, List.isPrefixOf_iff_prefix]
      exact ⟨hl'', hPrefix.trans hBelow''⟩
    have hLength : l''.path.length ≤ l'.path.length :=
      List.le_of_mem_argmax (f := fun l : Leaf α => l.path.length) hMem'' hLongest
    exact (hBelow''.eq_of_length_le hLength).symm

/-- How high a tree of many leaves is: as the longest of their paths, if it is not high to begin
with. -/
theorem height_insertAll_le_iff {t : Tree α} (hEmpty : ∀ q, t.leafAt q = none) {h : Nat}
    (hTree : t.height ≤ h) {leaves : List (Leaf α)} (hOrdered : Ordered leaves) :
    (t.insertAll leaves).height ≤ h ↔ ∀ l ∈ leaves, l.path.length ≤ h := by
  constructor
  · intro hHeight l hl
    obtain ⟨l', hl', hPrefix, hLeft⟩ := exists_isLeft hl
    have hLeaf : (t.insertAll leaves).leafAt l'.path = some l'.value :=
      (leafAt_insertAll hEmpty hOrdered).2 hLeft
    exact Nat.le_trans hPrefix.length_le (Nat.le_trans (length_le_height hLeaf) hHeight)
  · intro hLeaves
    refine height_insertAll hTree ?_
    intro l hl
    have hLength := hLeaves l hl
    rwa [Leaf.path, List.length_append, List.length_singleton] at hLength

/-! ## Trees made of members -/

theorem forall_ofList {members : List (String × Item α)} (h : ∀ m ∈ members, m.2.Forall P) :
    (ofList members).Forall P := by
  suffices hFold : ∀ t : Tree α, t.Forall P →
      (members.foldl (fun t m => t.put m.1 m.2) t).Forall P from hFold empty trivial
  induction members with
  | nil => exact fun t ht => ht
  | cons head rest ih =>
    intro t ht
    refine ih (fun m hm => h m (List.mem_cons_of_mem _ hm)) _ (forall_put ht head.1 ?_)
    intro t' ht'
    obtain ⟨name, item⟩ := head
    have hItem := h _ List.mem_cons_self
    cases item with
    | leaf a => exact ⟨hItem, ht'⟩
    | branch inner => exact ⟨hItem, ht'⟩

/-- A tree is one higher than its highest branch. -/
theorem height_ofList {members : List (String × Item α)} {h : Nat}
    (hMembers : ∀ m ∈ members, ∀ inner, m.2 = .branch inner → inner.height ≤ h) :
    (ofList members).height ≤ h + 1 := by
  suffices hFold : ∀ t : Tree α, t.height ≤ h + 1 →
      (members.foldl (fun t m => t.put m.1 m.2) t).height ≤ h + 1 from
    hFold empty (Nat.le_add_left 1 h)
  induction members with
  | nil => exact fun t ht => ht
  | cons head rest ih =>
    intro t ht
    refine ih (fun m hm => hMembers m (List.mem_cons_of_mem _ hm)) _ (height_put ht ?_)
    intro t' ht'
    obtain ⟨name, item⟩ := head
    cases item with
    | leaf a => exact ht'
    | branch inner =>
      have hInner := hMembers _ List.mem_cons_self inner rfl
      rw [cons, height]
      omega

/-! ## Trees made of leaves -/

theorem forall_ofLeaves {leaves : SortedMap α} (h : ∀ e ∈ leaves.toList, P e.2) :
    (ofLeaves leaves).Forall P := by
  rw [ofLeaves]
  generalize leaves.toList = entries at h
  induction entries with
  | nil => trivial
  | cons head rest ih =>
    exact ⟨h head List.mem_cons_self, ih fun e he => h e (List.mem_cons_of_mem _ he)⟩

theorem height_ofLeaves (leaves : SortedMap α) : (ofLeaves leaves).height = 1 := by
  rw [ofLeaves]
  induction leaves.toList with
  | nil => rfl
  | cons head rest ih => exact ih

end FeatureFlags.Tree
