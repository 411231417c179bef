import FeatureFlags.Proofs.Tree.Paths

/-!
# Putting leaves in

A leaf that is put in displaces what its path cannot coexist with: the leaves on the way to it,
which become branches, and what stood below it. Nothing else changes. So of many leaves the last one
whose path meets a given path decides about it, and if they are put in with shorter paths first,
those stay that have no other leaf below them.

* `lookup_insertAt_self`, `lookup_insertAt_above`, `lookup_insertAt_below`,
  `lookup_insertAt_of_not_meets` — what putting a leaf in does to every look-up.
* `leafAt_insertAt_self`, `leafAt_insertAt_of_ne` — the same for leaves.
* `lookup_insertAll_cases` — what the last of many leaves decides about a path.
* `leafAt_insertAll` — what is left of many leaves that are put in one after the other.
-/

namespace FeatureFlags.Tree

universe u

variable {α : Type u}

/-! ## Paths that meet -/

/-- Whether one of two paths leads past the other. -/
def Meets (p q : List String) : Prop :=
  p <+: q ∨ q <+: p

theorem meets_cons_iff {name other : String} {p q : List String} :
    Meets (name :: p) (other :: q) ↔ name = other ∧ Meets p q := by
  unfold Meets
  rw [List.cons_prefix_cons, List.cons_prefix_cons]
  constructor
  · rintro (⟨rfl, h⟩ | ⟨rfl, h⟩)
    · exact ⟨rfl, .inl h⟩
    · exact ⟨rfl, .inr h⟩
  · rintro ⟨rfl, h | h⟩
    · exact .inl ⟨rfl, h⟩
    · exact .inr ⟨rfl, h⟩

theorem meets_nil (p : List String) : Meets p [] :=
  .inr List.nil_prefix

/-! ## Look-ups after a leaf is put in -/

theorem inside_insertAt (t : Tree α) (p folders : List String) (name : String) (a : α) :
    (t.insertAt (p ++ folders) name a).inside p = (t.inside p).insertAt folders name a := by
  induction p generalizing t with
  | nil => rfl
  | cons segment p ih =>
    rw [List.cons_append, insertAt, inside, child_put_self]
    exact ih (t.child segment)

/-- At the end of its way the leaf is put into what was there. -/
theorem inside_insertAt_self (t : Tree α) (path : List String) (name : String) (a : α) :
    (t.insertAt path name a).inside path = (t.inside path).put name (.leaf a) := by
  have hInside := inside_insertAt t path [] name a
  rwa [List.append_nil] at hInside

/-- The leaf that is put in is found. -/
theorem lookup_insertAt_self (t : Tree α) (path : List String) (name : String) (a : α) :
    (t.insertAt path name a).lookup (path ++ [name]) = some (.leaf a) := by
  rw [lookup_append _ _ (List.cons_ne_nil _ _), inside_insertAt_self, lookup, get?_put, if_pos rfl]

/-- Below the leaf there is nothing. -/
theorem lookup_insertAt_below (t : Tree α) (path : List String) (name : String) (a : α)
    {rest : List String} (hNe : rest ≠ []) :
    (t.insertAt path name a).lookup (path ++ name :: rest) = none := by
  rw [lookup_append _ _ (List.cons_ne_nil _ _), inside_insertAt_self, lookup_cons _ _ hNe,
    child_put_self, lookup_empty]

/-- On the way to the leaf there are branches, each with what it held before. -/
theorem lookup_insertAt_above (t : Tree α) {p : List String} (hNe : p ≠ []) (rest : List String)
    (name : String) (a : α) :
    (t.insertAt (p ++ rest) name a).lookup p =
      some (.branch ((t.inside p).insertAt rest name a)) := by
  obtain ⟨folders, segment, rfl⟩ := (List.eq_nil_or_concat' p).resolve_left hNe
  rw [lookup_append _ _ (List.cons_ne_nil _ _), List.append_assoc, inside_insertAt,
    inside_append, List.singleton_append, insertAt, lookup, get?_put, if_pos rfl]
  rfl

/-- Paths that do not meet that of the leaf lead to what they led to. -/
theorem lookup_insertAt_of_not_meets (t : Tree α) (path : List String) (name : String) (a : α)
    {q : List String} (h : ¬ Meets (path ++ [name]) q) :
    (t.insertAt path name a).lookup q = t.lookup q := by
  -- by induction on the way to the leaf, until the two paths part
  induction path generalizing t q with
  | nil =>
    cases q with
    | nil => rw [lookup_nil, lookup_nil]
    | cons other q =>
      have hOther : other ≠ name := fun hEq => h (meets_cons_iff.2 ⟨hEq.symm, .inl List.nil_prefix⟩)
      exact lookup_put_of_ne t _ hOther
  | cons segment path ih =>
    cases q with
    | nil => rw [lookup_nil, lookup_nil]
    | cons other q =>
      rw [List.cons_append, meets_cons_iff] at h
      by_cases hOther : other = segment
      · subst hOther
        have hMeets : ¬ Meets (path ++ [name]) q := fun hMeets => h ⟨rfl, hMeets⟩
        have hNe : q ≠ [] := by
          rintro rfl
          exact hMeets (meets_nil _)
        rw [insertAt, lookup_cons _ _ hNe, lookup_cons _ _ hNe, child_put_self]
        exact ih (t.child other) hMeets
      · exact lookup_put_of_ne t _ hOther

/-! ## Leaves after a leaf is put in -/

/-- A leaf that is put in is there. -/
theorem leafAt_insertAt_self (t : Tree α) (path : List String) (name : String) (a : α) :
    (t.insertAt path name a).leafAt (path ++ [name]) = some a :=
  leafAt_eq_some_iff.2 (lookup_insertAt_self t path name a)

/-- What putting a leaf in does to every other path: those that its path meets lose their leaves. -/
theorem leafAt_insertAt_of_ne (t : Tree α) (path : List String) (name : String) (a : α)
    {q : List String} (hNe : q ≠ path ++ [name]) :
    (Meets (path ++ [name]) q → (t.insertAt path name a).leafAt q = none) ∧
    (¬ Meets (path ++ [name]) q → (t.insertAt path name a).leafAt q = t.leafAt q) := by
  constructor
  · rintro (⟨rest, rfl⟩ | hAbove)
    · -- below the leaf
      have hRest : rest ≠ [] := by
        rintro rfl
        exact hNe (List.append_nil _)
      rw [List.append_assoc, leafAt, List.singleton_append, lookup_insertAt_below _ _ _ _ hRest]
    · -- on the way to it
      by_cases hNil : q = []
      · rw [hNil, leafAt_nil]
      · obtain ⟨rest, rfl⟩ := (List.prefix_concat_iff.1 hAbove).resolve_left hNe
        rw [leafAt, lookup_insertAt_above _ hNil]
  · intro hApart
    rw [leafAt, leafAt, lookup_insertAt_of_not_meets t path name a hApart]

/-! ## Putting many leaves in -/

/-- A leaf and where it is to be put. -/
structure Leaf (α : Type u) where
  folder : List String
  name : String
  value : α
deriving DecidableEq

/-- The path of a leaf. -/
def Leaf.path (l : Leaf α) : List String :=
  l.folder ++ [l.name]

/-- The tree with leaves put in, one after the other. -/
def insertAll (t : Tree α) (leaves : List (Leaf α)) : Tree α :=
  leaves.foldl (fun t l => t.insertAt l.folder l.name l.value) t

/-- Whether a leaf is the last one of a list whose path meets a given one. -/
def IsLastToMeet (leaves : List (Leaf α)) (q : List String) (l : Leaf α) : Prop :=
  ∃ before after, leaves = before ++ l :: after ∧ Meets l.path q ∧
    ∀ l' ∈ after, ¬ Meets l'.path q

section

variable {leaves : List (Leaf α)} {l : Leaf α} {q : List String} {a : α}

theorem exists_isLastToMeet (leaves : List (Leaf α)) (q : List String) :
    (∃ l, IsLastToMeet leaves q l) ∨ ∀ l ∈ leaves, ¬ Meets l.path q := by
  induction leaves with
  | nil => simp
  | cons first leaves ih =>
    rcases ih with ⟨l, before, after, rfl, hMeets, hAfter⟩ | hNone
    · exact .inl ⟨l, first :: before, after, rfl, hMeets, hAfter⟩
    · by_cases hFirst : Meets first.path q
      · exact .inl ⟨first, [], leaves, rfl, hFirst, hNone⟩
      · exact .inr (List.forall_mem_cons.2 ⟨hFirst, hNone⟩)

theorem IsLastToMeet.mem (h : IsLastToMeet leaves q l) : l ∈ leaves := by
  obtain ⟨before, after, rfl, -, -⟩ := h
  simp

/-- Leaves that do not meet a path change nothing about it. -/
theorem lookup_insertAll_of_not_meets (t : Tree α) (h : ∀ l ∈ leaves, ¬ Meets l.path q) :
    (t.insertAll leaves).lookup q = t.lookup q := by
  induction leaves generalizing t with
  | nil => rfl
  | cons first leaves ih =>
    obtain ⟨hFirst, hRest⟩ := List.forall_mem_cons.1 h
    show ((t.insertAt first.folder first.name first.value).insertAll leaves).lookup q = _
    rw [ih _ hRest, lookup_insertAt_of_not_meets t first.folder first.name first.value hFirst]

/-- Of leaves that are put in one after the other the last one that meets a path decides what the
path leads to: to its value if it stands there, to a branch if it stands below, and to nothing if it
stands on the way. -/
theorem lookup_insertAll_cases (t : Tree α) (h : IsLastToMeet leaves q l) (hNe : q ≠ []) :
    q = l.path ∧ (t.insertAll leaves).lookup q = some (.leaf l.value) ∨
      q ≠ l.path ∧ q <+: l.path ∧ (∃ inner, (t.insertAll leaves).lookup q = some (.branch inner)) ∨
      q ≠ l.path ∧ l.path <+: q ∧ (t.insertAll leaves).lookup q = none := by
  obtain ⟨before, after, rfl, hMeets, hAfter⟩ := h
  have hLast : (t.insertAll (before ++ l :: after)).lookup q =
      ((t.insertAll before).insertAt l.folder l.name l.value).lookup q := by
    rw [insertAll, List.foldl_append]
    exact lookup_insertAll_of_not_meets _ hAfter
  rw [hLast]
  by_cases hSelf : q = l.path
  · left
    rw [hSelf]
    exact ⟨rfl, lookup_insertAt_self _ l.folder l.name l.value⟩
  · right
    rcases hMeets with hOn | hBelow
    · obtain ⟨rest, rfl⟩ := hOn
      have hRest : rest ≠ [] := by
        rintro rfl
        exact hSelf (List.append_nil _)
      have hNone := lookup_insertAt_below (t.insertAll before) l.folder l.name l.value hRest
      refine .inr ⟨hSelf, List.prefix_append _ _, ?_⟩
      rwa [Leaf.path, List.append_assoc, List.singleton_append]
    · -- a path to what is below the end of another one is one of its folders
      obtain ⟨rest, hRest⟩ := (List.prefix_concat_iff.1 hBelow).resolve_left hSelf
      have hBranch := lookup_insertAt_above (t.insertAll before) hNe rest l.name l.value
      rw [hRest] at hBranch
      exact .inl ⟨hSelf, hBelow, _, hBranch⟩

/-! ## Leaves with shorter paths first -/

/-- Whether no leaf stands on the way to one before it, or in its place. -/
def Ordered (leaves : List (Leaf α)) : Prop :=
  leaves.Pairwise fun l l' => ¬ l'.path <+: l.path

/-- Whether a path has a leaf after leaves have been put in: it is the path of one of them, and no
other one lies below it. -/
def IsLeft (leaves : List (Leaf α)) (q : List String) (a : α) : Prop :=
  (∃ l ∈ leaves, l.path = q ∧ l.value = a) ∧ ∀ l ∈ leaves, q <+: l.path → l.path = q

theorem Ordered.eq_of_isLastToMeet (hOrdered : Ordered leaves) (h : IsLastToMeet leaves q l)
    {l' : Leaf α} (hMem : l' ∈ leaves) (hMeets : Meets l'.path q) (hOn : l.path <+: l'.path) :
    l' = l := by
  obtain ⟨before, after, rfl, -, hAfter⟩ := h
  rcases List.mem_append.1 hMem with hBefore | hFrom
  · -- what comes before the last one does not lie below it
    have hLater := (List.pairwise_append.1 hOrdered).2.2 l' hBefore l List.mem_cons_self
    exact absurd hOn hLater
  · rcases List.mem_cons.1 hFrom with rfl | hBehind
    · rfl
    · exact absurd hMeets (hAfter l' hBehind)

/-- Of leaves that are put in one after the other those are left that no other one lies below. -/
theorem leafAt_insertAll {t : Tree α} (hEmpty : ∀ q, t.leafAt q = none)
    (hOrdered : Ordered leaves) : (t.insertAll leaves).leafAt q = some a ↔ IsLeft leaves q a := by
  by_cases hNil : q = []
  · subst hNil
    rw [leafAt_nil]
    refine iff_of_false (by simp) ?_
    rintro ⟨⟨l, -, hPath, -⟩, -⟩
    simp [Leaf.path] at hPath
  rw [leafAt]
  rcases exists_isLastToMeet leaves q with ⟨last, hLast⟩ | hNone
  · -- a leaf at the path is the last one to meet it, unless that one lies below
    have hSame : ∀ l ∈ leaves, l.path = q → last.path <+: q → l = last := by
      rintro l hl rfl hOn
      exact hOrdered.eq_of_isLastToMeet hLast hl (.inl List.prefix_rfl) hOn
    rcases lookup_insertAll_cases t hLast hNil with ⟨hSelf, hLeaf⟩ | ⟨hSelf, hBelow, _, hBranch⟩ |
      ⟨hSelf, hOn, hNothing⟩
    · rw [hLeaf]
      constructor
      · rintro ⟨⟩
        refine ⟨⟨last, hLast.mem, hSelf.symm, rfl⟩, fun l hl hBelow => ?_⟩
        rw [hOrdered.eq_of_isLastToMeet hLast hl (.inr hBelow) (hSelf ▸ hBelow), hSelf]
      · rintro ⟨⟨l, hl, hPath, rfl⟩, -⟩
        rw [hSame l hl hPath (hSelf ▸ List.prefix_rfl)]
    · rw [hBranch]
      refine iff_of_false (by simp) ?_
      rintro ⟨-, hAll⟩
      exact hSelf (hAll last hLast.mem hBelow).symm
    · rw [hNothing]
      refine iff_of_false (by simp) ?_
      rintro ⟨⟨l, hl, hPath, -⟩, -⟩
      exact hSelf (hSame l hl hPath hOn ▸ hPath.symm)
  · rw [lookup_insertAll_of_not_meets t hNone, ← leafAt, hEmpty]
    refine iff_of_false (by simp) ?_
    rintro ⟨⟨l, hl, hPath, -⟩, -⟩
    exact hNone l hl (.inl (hPath ▸ List.prefix_rfl))

end

end FeatureFlags.Tree
