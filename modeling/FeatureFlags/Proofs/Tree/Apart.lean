import FeatureFlags.Proofs.Tree.Inside
import FeatureFlags.Proofs.Tree.Members
import FeatureFlags.Proofs.Tree.Shape

/-!
# Leaves that are apart

Leaves of which none stands on the way to another one do not displace each other. Whatever the order
in which they are put in, all of them stay, and the branches are those on the way to them. A tree in
order is known by its leaves and branches, so the order makes no difference to the tree either.

* `ext_lookup` — trees with the same leaves and the same branches are equal.
* `lookup_insertAll_eq_leaf_iff`, `hasBranch_insertAll_iff` — what the tree of such leaves holds.
* `insertAll_congr` — their order makes no difference, nor do repetitions.
* `leafAt_insertAll_eq_lastAt` — of leaves that may be put in again the last one counts.
-/

namespace FeatureFlags.Tree

universe u

variable {α : Type u}

/-! ## Equality of trees -/

theorem lookup_singleton (t : Tree α) (name : String) : t.lookup [name] = t.get? name := by
  rw [lookup]

/-- Trees in order that have the same leaves and the same branches are equal. -/
theorem ext_lookup {t t' : Tree α} (hSorted : t.Sorted) (hSorted' : t'.Sorted)
    (hLeaf : ∀ q a, t.lookup q = some (.leaf a) ↔ t'.lookup q = some (.leaf a))
    (hBranch : ∀ q, t.HasBranch q ↔ t'.HasBranch q) : t = t' := by
  -- by induction on the height, since a branch is lower than the tree that it is in
  induction hHeight : t.height using Nat.strongRecOn generalizing t t' with
  | _ height ih =>
    apply ext_get? hSorted hSorted'
    intro name
    rw [← lookup_singleton, ← lookup_singleton]
    cases hItem : t.lookup [name] with
    | none =>
      cases hItem' : t'.lookup [name] with
      | none => rfl
      | some item =>
        cases item with
        | leaf a => simp [(hLeaf [name] a).2 hItem'] at hItem
        | branch inner =>
          obtain ⟨_, hThere⟩ := (hBranch [name]).2 ⟨inner, hItem'⟩
          simp [hThere] at hItem
    | some item =>
      cases item with
      | leaf a => rw [(hLeaf [name] a).1 hItem]
      | branch inner =>
        obtain ⟨inner', hItem'⟩ := (hBranch [name]).1 ⟨inner, hItem⟩
        rw [hItem']
        -- below the name the two branches have what the trees have
        have hBelow : ∀ q ≠ [], t.lookup (name :: q) = inner.lookup q := by
          intro q hNe
          rw [lookup_cons t name hNe, child, ← lookup_singleton, hItem]
        have hBelow' : ∀ q ≠ [], t'.lookup (name :: q) = inner'.lookup q := by
          intro q hNe
          rw [lookup_cons t' name hNe, child, ← lookup_singleton, hItem']
        rw [lookup_singleton] at hItem hItem'
        have hLower : inner.height < height := hHeight ▸ height_of_get? hItem
        have hSame : inner = inner' := by
          refine ih inner.height hLower (sorted_of_get? hSorted hItem)
            (sorted_of_get? hSorted' hItem') ?_ ?_ rfl
          · intro q a
            by_cases hNil : q = []
            · simp [hNil]
            · rw [← hBelow q hNil, ← hBelow' q hNil, hLeaf]
          · intro q
            by_cases hNil : q = []
            · simp [HasBranch, hNil]
            · rw [HasBranch, HasBranch, ← hBelow q hNil, ← hBelow' q hNil]
              exact hBranch (name :: q)
        rw [hSame]

/-! ## Leaves that are apart -/

/-- Whether no leaf stands on the way to another one, or in its place. -/
def AreApart (leaves : List (Leaf α)) : Prop :=
  ∀ l ∈ leaves, ∀ l' ∈ leaves, l.path <+: l'.path → l = l'

variable {t : Tree α} {leaves leaves' : List (Leaf α)} {q : List String} {a : α}

theorem Leaf.path_ne_nil (l : Leaf α) : l.path ≠ [] := by
  simp [Leaf.path]

/-- The leaves that are apart stay. -/
theorem lookup_insertAll_eq_leaf_iff (hEmpty : ∀ q, t.leafAt q = none) (hApart : AreApart leaves) :
    (t.insertAll leaves).lookup q = some (.leaf a) ↔ ∃ l ∈ leaves, l.path = q ∧ l.value = a := by
  constructor
  · intro hLeaf
    by_cases hNil : q = []
    · simp [hNil] at hLeaf
    rcases exists_isLastToMeet leaves q with ⟨last, hLast⟩ | hNone
    · rcases lookup_insertAll_cases t hLast hNil with ⟨hSelf, hOwn⟩ | ⟨-, -, _, hBranch⟩ |
        ⟨-, -, hNothing⟩
      · rw [hOwn] at hLeaf
        cases hLeaf
        exact ⟨last, hLast.mem, hSelf.symm, rfl⟩
      · simp [hBranch] at hLeaf
      · simp [hNothing] at hLeaf
    · rw [lookup_insertAll_of_not_meets t hNone, ← leafAt_eq_some_iff, hEmpty] at hLeaf
      cases hLeaf
  · rintro ⟨l, hl, rfl, rfl⟩
    rcases exists_isLastToMeet leaves l.path with ⟨last, hLast⟩ | hNone
    · -- whatever meets the path of a leaf is that leaf
      rcases lookup_insertAll_cases t hLast l.path_ne_nil with ⟨hSelf, hOwn⟩ |
        ⟨hSelf, hBelow, -⟩ | ⟨hSelf, hOn, -⟩
      · rwa [hApart last hLast.mem l hl (hSelf ▸ List.prefix_rfl)] at hOwn
      · exact absurd (congrArg Leaf.path (hApart l hl last hLast.mem hBelow)) hSelf
      · exact absurd (congrArg Leaf.path (hApart last hLast.mem l hl hOn)).symm hSelf
    · exact absurd (.inl List.prefix_rfl) (hNone l hl)

/-- The branches are those on the way to the leaves, and those that were there and are not in the
way of a leaf. -/
theorem hasBranch_insertAll_iff (hApart : AreApart leaves) :
    (t.insertAll leaves).HasBranch q ↔
      (q ≠ [] ∧ ∃ l ∈ leaves, q <+: l.path ∧ q ≠ l.path) ∨
        t.HasBranch q ∧ ∀ l ∈ leaves, ¬ l.path <+: q := by
  by_cases hNil : q = []
  · simp [hNil, HasBranch]
  rcases exists_isLastToMeet leaves q with ⟨last, hLast⟩ | hNone
  · rcases lookup_insertAll_cases t hLast hNil with ⟨hSelf, hOwn⟩ | ⟨hSelf, hBelow, hBranch⟩ |
      ⟨hSelf, hOn, hNothing⟩
    · refine iff_of_false (by simp [HasBranch, hOwn]) ?_
      rintro (⟨-, l, hl, hBelow, hNe⟩ | ⟨-, hFree⟩)
      · exact hNe (hSelf.trans (congrArg Leaf.path (hApart last hLast.mem l hl (hSelf ▸ hBelow))))
      · exact hFree last hLast.mem (hSelf ▸ List.prefix_rfl)
    · exact iff_of_true hBranch (.inl ⟨hNil, last, hLast.mem, hBelow, hSelf⟩)
    · refine iff_of_false (by simp [HasBranch, hNothing]) ?_
      rintro (⟨-, l, hl, hBelow, -⟩ | ⟨-, hFree⟩)
      · -- the leaf on the way would be the one below
        have hSame := congrArg Leaf.path (hApart last hLast.mem l hl (hOn.trans hBelow))
        exact hSelf (hBelow.eq_of_length_le (hSame ▸ hOn.length_le) |>.trans hSame.symm)
      · exact hFree last hLast.mem hOn
  · rw [HasBranch, lookup_insertAll_of_not_meets t hNone, ← HasBranch, or_iff_right, and_iff_left]
    · exact fun l hl hOn => hNone l hl (.inl hOn)
    · rintro ⟨-, l, hl, hBelow, -⟩
      exact hNone l hl (.inr hBelow)

theorem sorted_insertAll (hSorted : t.Sorted) (leaves : List (Leaf α)) :
    (t.insertAll leaves).Sorted := by
  induction leaves generalizing t with
  | nil => exact hSorted
  | cons l leaves ih => exact ih (sorted_insertAt hSorted l.folder l.name l.value)

/-- Neither the order of leaves that are apart nor repetitions make a difference. -/
theorem insertAll_congr (hSorted : t.Sorted) (hEmpty : ∀ q, t.leafAt q = none)
    (hApart : AreApart leaves) (hMem : ∀ l, l ∈ leaves' ↔ l ∈ leaves) :
    t.insertAll leaves' = t.insertAll leaves := by
  have hApart' : AreApart leaves' := by
    intro l hl l' hl'
    exact hApart l ((hMem l).1 hl) l' ((hMem l').1 hl')
  apply ext_lookup (sorted_insertAll hSorted leaves') (sorted_insertAll hSorted leaves)
  · intro q a
    rw [lookup_insertAll_eq_leaf_iff hEmpty hApart', lookup_insertAll_eq_leaf_iff hEmpty hApart]
    simp only [hMem]
  · intro q
    rw [hasBranch_insertAll_iff hApart', hasBranch_insertAll_iff hApart]
    simp only [hMem]

/-! ## Leaves that are put in again -/

/-- The value of the last one of many leaves at a path. -/
def lastAt (leaves : List (Leaf α)) (q : List String) : Option α :=
  (leaves.reverse.find? fun l => l.path = q).map Leaf.value

theorem lastAt_concat_self (leaves : List (Leaf α)) (l : Leaf α) :
    lastAt (leaves ++ [l]) l.path = some l.value := by
  simp [lastAt]

theorem lastAt_concat_of_ne (leaves : List (Leaf α)) {l : Leaf α} (h : l.path ≠ q) :
    lastAt (leaves ++ [l]) q = lastAt leaves q := by
  simp [lastAt, h]

theorem lastAt_eq_none_iff : lastAt leaves q = none ↔ ∀ l ∈ leaves, l.path ≠ q := by
  simp [lastAt]

/-- If no leaf stands on the way to another one, each path has the last value that was put there. -/
theorem leafAt_insertAll_eq_lastAt (hEmpty : ∀ q, t.leafAt q = none)
    (h : ∀ l ∈ leaves, ∀ l' ∈ leaves, l.path <+: l'.path → l.path = l'.path) (q : List String) :
    (t.insertAll leaves).leafAt q = lastAt leaves q := by
  -- by induction on the leaves from the last one to the first
  induction leaves using List.reverseRecOn with
  | nil => exact hEmpty q
  | append_singleton leaves l ih =>
    have hEarlier := ih fun l hl l' hl' =>
      h l (List.mem_append_left _ hl) l' (List.mem_append_left _ hl')
    have hLast : l ∈ leaves ++ [l] := List.mem_append_right _ List.mem_cons_self
    have hStep : t.insertAll (leaves ++ [l]) =
        (t.insertAll leaves).insertAt l.folder l.name l.value := by
      rw [insertAll, List.foldl_append]
      rfl
    rw [hStep]
    by_cases hSelf : l.path = q
    · rw [← hSelf, lastAt_concat_self]
      exact leafAt_insertAt_self _ l.folder l.name l.value
    · obtain ⟨hMeeting, hOther⟩ :=
        leafAt_insertAt_of_ne (t.insertAll leaves) l.folder l.name l.value (Ne.symm hSelf)
      rw [lastAt_concat_of_ne leaves hSelf]
      by_cases hMeets : Meets l.path q
      · -- a path that meets that of the leaf is not the path of an earlier one
        rw [hMeeting hMeets, eq_comm, lastAt_eq_none_iff]
        rintro l' hl' rfl
        have hl' : l' ∈ leaves ++ [l] := List.mem_append_left _ hl'
        rcases hMeets with hOn | hBelow
        · exact hSelf (h l hLast l' hl' hOn)
        · exact hSelf (h l' hl' l hLast hBelow).symm
      · rw [hOther hMeets, hEarlier]

end FeatureFlags.Tree
