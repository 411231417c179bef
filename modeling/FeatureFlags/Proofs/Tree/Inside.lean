import FeatureFlags.Proofs.Tree.Insertion

/-!
# Below a path

A path can be a way to something as long as no leaf stands on it. The way to a leaf that is put in
is open afterwards, whatever stood on it before.

* `isOpen_append` — a path is open if both of its parts are.
* `leafAt_grown`, `inside_grown_append` — making branches on an open way makes no difference to the
  leaves.
* `hasBranch_insertAt_iff` — the branches after a leaf has been put in.
-/

namespace FeatureFlags.Tree

universe u

variable {α : Type u}

/-- Whether there is a branch at a path. -/
def HasBranch (t : Tree α) (path : List String) : Prop :=
  ∃ inner, t.lookup path = some (.branch inner)

/-- Whether no leaf stands at a path or on the way to it. -/
def IsOpen (t : Tree α) (path : List String) : Prop :=
  ∀ p, p <+: path → t.leafAt p = none

variable {t : Tree α} {name : String} {path folders : List String}

theorem hasBranch_append (t : Tree α) (p : List String) (h : path ≠ []) :
    t.HasBranch (p ++ path) ↔ (t.inside p).HasBranch path := by
  rw [HasBranch, HasBranch, lookup_append t p h]

/-- What is found below a path is found inside a branch. -/
theorem hasBranch_of_lookup {p : List String} {item : Item α} (hp : p ≠ []) (h : path ≠ [])
    (hItem : t.lookup (p ++ path) = some item) : t.HasBranch p := by
  by_contra hNot
  rw [lookup_append t p h, inside_eq_empty_of_lookup hp (not_exists.1 hNot), lookup_empty] at hItem
  cases hItem

theorem HasBranch.of_isPrefix {p : List String} (hp : p ≠ []) (h : t.HasBranch path)
    (hPrefix : p <+: path) : t.HasBranch p := by
  obtain ⟨rest, rfl⟩ := hPrefix
  by_cases hRest : rest = []
  · rwa [hRest, List.append_nil] at h
  · obtain ⟨inner, hBranch⟩ := h
    exact hasBranch_of_lookup hp hRest hBranch

/-! ## Open paths -/

/-- Where there is no leaf, all leaves whose paths go on are inside the branch. -/
theorem leafAt_cons_of_leafAt_eq_none (h : t.leafAt [name] = none) (path : List String) :
    t.leafAt (name :: path) = (t.child name).leafAt path := by
  by_cases hNil : path = []
  · rw [hNil, h, leafAt_nil]
  · exact leafAt_cons t name hNil

theorem get?_ne_leaf (h : t.leafAt [name] = none) (a : α) : t.get? name ≠ some (.leaf a) := by
  intro hGet
  rw [leafAt_singleton, hGet] at h
  cases h

/-- On the way to a leaf there is a branch. -/
theorem get?_eq_branch {a : α} (hNe : path ≠ []) (h : t.leafAt (name :: path) = some a) :
    t.get? name = some (.branch (t.child name)) := by
  rw [leafAt_cons t name hNe, child] at h
  rw [child]
  revert h
  cases t.get? name with
  | none => simp
  | some item => cases item <;> simp

theorem leafAt_singleton_eq_none {a : α} (hNe : path ≠ [])
    (h : t.leafAt (name :: path) = some a) : t.leafAt [name] = none := by
  rw [leafAt_singleton, get?_eq_branch hNe h]

theorem IsOpen.of_isPrefix (h : t.IsOpen path) {p : List String} (hPrefix : p <+: path) :
    t.IsOpen p :=
  fun q hq => h q (hq.trans hPrefix)

@[simp]
theorem isOpen_nil (t : Tree α) : t.IsOpen [] := by
  intro p hp
  rw [List.prefix_nil.1 hp, leafAt_nil]

theorem isOpen_cons :
    t.IsOpen (name :: path) ↔ t.leafAt [name] = none ∧ (t.child name).IsOpen path := by
  constructor
  · intro h
    refine ⟨h [name] (by simp), ?_⟩
    intro p hp
    by_cases hNil : p = []
    · rw [hNil, leafAt_nil]
    · rw [← leafAt_cons t name hNil]
      exact h (name :: p) (by simpa using hp)
  · rintro ⟨hFirst, hRest⟩ p hp
    cases p with
    | nil => exact leafAt_nil t
    | cons other p =>
      obtain ⟨rfl, hBelow⟩ := List.cons_prefix_cons.1 hp
      by_cases hNil : p = []
      · rw [hNil]
        exact hFirst
      · rw [leafAt_cons t other hNil]
        exact hRest p hBelow

theorem isOpen_append {p : List String} :
    t.IsOpen (p ++ path) ↔ t.IsOpen p ∧ (t.inside p).IsOpen path := by
  induction p generalizing t with
  | nil => simp [inside]
  | cons name p ih => rw [List.cons_append, isOpen_cons, ih, isOpen_cons, inside, and_assoc]

/-! ## Making branches -/

/-- The tree with the branches on a path made where they are missing. -/
def grown (t : Tree α) : List String → Tree α
  | [] => t
  | name :: path => t.put name (.branch ((t.child name).grown path))

@[simp]
theorem grown_nil (t : Tree α) : t.grown [] = t := rfl

/-- Branches that are made on an open way displace no leaf. -/
theorem leafAt_grown (hOpen : t.IsOpen path) (q : List String) :
    (t.grown path).leafAt q = t.leafAt q := by
  -- by induction on the way; a path that leads elsewhere at its first name is not concerned
  induction path generalizing t q with
  | nil => rfl
  | cons name path ih =>
    obtain ⟨hNotLeaf, hBelow⟩ := isOpen_cons.1 hOpen
    rw [grown]
    cases q with
    | nil => simp
    | cons other q =>
      by_cases hOther : other = name
      · subst hOther
        have hStill :
            (t.put other (.branch ((t.child other).grown path))).leafAt [other] = none := by
          rw [leafAt_singleton, get?_put, if_pos rfl]
        rw [leafAt_cons_of_leafAt_eq_none hStill, child_put_self, ih hBelow,
          leafAt_cons_of_leafAt_eq_none hNotLeaf]
      · apply leafAt_congr
        rw [get?_put, if_neg hOther]

/-- The branches that are made are those on the way. -/
theorem hasBranch_grown (hOpen : t.IsOpen path) (q : List String) :
    (t.grown path).HasBranch q ↔ t.HasBranch q ∨ (q ≠ [] ∧ q <+: path) := by
  induction path generalizing t q with
  | nil =>
    rw [grown_nil, List.prefix_nil]
    exact (or_iff_left fun h => h.1 h.2).symm
  | cons name path ih =>
    rw [grown]
    cases q with
    | nil => simp [HasBranch]
    | cons other q =>
      by_cases hOther : other = name
      · subst hOther
        by_cases hNil : q = []
        · subst hNil
          refine iff_of_true ⟨_, by rw [lookup, get?_put, if_pos rfl]⟩ (.inr ?_)
          simp
        · rw [HasBranch, HasBranch, lookup_cons _ _ hNil, lookup_cons _ _ hNil, child_put_self,
            ← HasBranch, ← HasBranch, ih (isOpen_cons.1 hOpen).2]
          simp [hNil]
      · rw [HasBranch, lookup_put_of_ne t _ hOther, ← HasBranch]
        simp [hOther]

theorem isOpen_grown (hOpen : t.IsOpen path) {p : List String} :
    (t.grown path).IsOpen p ↔ t.IsOpen p := by
  unfold IsOpen
  simp only [leafAt_grown hOpen]

/-- Branches that are made below a path are made in what is there. -/
theorem inside_grown_append (t : Tree α) (p path : List String) :
    (t.grown (p ++ path)).inside p = (t.inside p).grown path := by
  induction p generalizing t with
  | nil => rfl
  | cons name p ih =>
    rw [List.cons_append, grown, inside, child_put_self]
    exact ih (t.child name)

/-- Branches on the way to a path make no difference to what is there. -/
theorem inside_grown_of_isPrefix (t : Tree α) {p : List String} (h : path <+: p) :
    (t.grown path).inside p = t.inside p := by
  obtain ⟨rest, rfl⟩ := h
  have hInside := inside_grown_append t path []
  rw [List.append_nil, grown_nil] at hInside
  rw [inside_append, inside_append, hInside]

theorem sorted_grown (hSorted : t.Sorted) (path : List String) : (t.grown path).Sorted := by
  induction path generalizing t with
  | nil => exact hSorted
  | cons name path ih => exact sorted_put hSorted name (ih (sorted_child hSorted name))

/-! ## Putting leaves in -/

/-- Of two members of one name the later one counts. -/
theorem put_put (t : Tree α) (name : String) (item item' : Item α) :
    (t.put name item).put name item' = t.put name item' := by
  have hCons : ∀ rest : Tree α, (cons name item rest).put name item' = cons name item' rest := by
    intro rest
    cases item <;> simp [cons, put]
  induction t with
  | empty => rw [put, hCons, put]
  | leaf n a rest ih =>
    simp only [put]
    split
    · exact hCons _
    · split
      · exact hCons _
      · next hNotLt hNe => rw [put, if_neg hNotLt, if_neg hNe, ih]
  | branch n inner rest _ ih =>
    simp only [put]
    split
    · exact hCons _
    · split
      · exact hCons _
      · next hNotLt hNe => rw [put, if_neg hNotLt, if_neg hNe, ih]

theorem ne_append_of_isPrefix {p : List String} (h : p <+: folders) : p ≠ folders ++ [name] := by
  rintro rfl
  have hLength := h.length_le
  rw [List.length_append, List.length_singleton] at hLength
  omega

/-- The way to a leaf that is put in is open. -/
theorem isOpen_insertAt (t : Tree α) (folders : List String) (name : String) (a : α) :
    (t.insertAt folders name a).IsOpen folders := by
  intro p hp
  have hBelow : p <+: folders ++ [name] := hp.trans (List.prefix_append _ _)
  have hLaw := leafAt_insertAt_of_ne t folders name a (ne_append_of_isPrefix hp)
  exact hLaw.1 (.inr hBelow)

/-- Putting a leaf in makes no branches but those on the way to it, and displaces none but those
below it. -/
theorem hasBranch_insertAt_iff {a : α} {q : List String} :
    (t.insertAt folders name a).HasBranch q ↔
      (q ≠ [] ∧ q <+: folders) ∨ t.HasBranch q ∧ ¬ folders ++ [name] <+: q := by
  by_cases hNil : q = []
  · simp [hNil, HasBranch]
  by_cases hOn : folders ++ [name] <+: q
  · -- the leaf is no branch, and there is none below it
    have hNotBelow : ¬ q <+: folders := by
      intro hBelow
      exact ne_append_of_isPrefix (hOn.trans hBelow) rfl
    refine iff_of_false ?_ (by simp [hOn, hNotBelow])
    obtain ⟨rest, rfl⟩ := hOn
    by_cases hRest : rest = []
    · rw [hRest, List.append_nil, HasBranch, lookup_insertAt_self]
      simp
    · rw [HasBranch, List.append_assoc, List.singleton_append, lookup_insertAt_below _ _ _ _ hRest]
      simp
  · by_cases hBelow : q <+: folders
    · refine iff_of_true ?_ (.inl ⟨hNil, hBelow⟩)
      obtain ⟨rest, rfl⟩ := hBelow
      exact ⟨_, lookup_insertAt_above t hNil rest name a⟩
    · have hApart : ¬ Meets (folders ++ [name]) q := by
        rintro (h | h)
        · exact hOn h
        · rcases List.prefix_concat_iff.1 h with rfl | h
          · exact hOn List.prefix_rfl
          · exact hBelow h
      rw [HasBranch, lookup_insertAt_of_not_meets t folders name a hApart, ← HasBranch]
      simp [hBelow, hOn]

end FeatureFlags.Tree
