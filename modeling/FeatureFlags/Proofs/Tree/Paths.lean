import FeatureFlags.Tree
import Mathlib.Data.List.Basic

/-!
# Paths in trees

What a tree holds is said by what its paths lead to. The branch at a path is a tree of its own: what
is looked up below the path is looked up in there. Below a leaf, as below nothing, there is nothing.

* `lookup_append`, `leafAt_append` — a path can be followed in two parts.
* `inside_eq_of_lookup`, `inside_eq_empty_of_lookup` — the branch that a path leads to.
-/

namespace FeatureFlags.Tree

universe u

variable {α : Type u}

/-- The leaf at a path. -/
def leafAt (t : Tree α) (path : List String) : Option α :=
  match t.lookup path with
  | some (.leaf a) => some a
  | _ => none

/-- The branch at a path, empty when there is none. -/
def inside (t : Tree α) : List String → Tree α
  | [] => t
  | name :: path => (t.child name).inside path

variable {t : Tree α} {name : String} {path : List String}

/-! ## Short paths -/

@[simp]
theorem lookup_nil (t : Tree α) : t.lookup [] = none := by
  cases t <;> rfl

@[simp]
theorem leafAt_nil (t : Tree α) : t.leafAt [] = none := by
  rw [leafAt, lookup_nil]

@[simp]
theorem lookup_empty (path : List String) : (empty : Tree α).lookup path = none := by
  match path with
  | [] | [_] | _ :: _ :: _ => rfl

@[simp]
theorem leafAt_empty (path : List String) : (empty : Tree α).leafAt path = none := by
  rw [leafAt, lookup_empty]

@[simp]
theorem inside_empty (path : List String) : (empty : Tree α).inside path = empty := by
  induction path with
  | nil => rfl
  | cons name path ih => exact ih

theorem leafAt_singleton (t : Tree α) (name : String) :
    t.leafAt [name] = match t.get? name with
      | some (.leaf a) => some a
      | _ => none := by
  rw [leafAt, lookup]

/-- A leaf is all that is found where it stands. -/
theorem leafAt_eq_some_iff {a : α} : t.leafAt path = some a ↔ t.lookup path = some (.leaf a) := by
  rw [leafAt]
  cases t.lookup path with
  | none => simp
  | some item => cases item <;> simp

/-! ## Following a path -/

/-- What is looked up at a path is looked up behind its first name. -/
theorem lookup_congr {t' : Tree α} (h : t.get? name = t'.get? name) :
    t.lookup (name :: path) = t'.lookup (name :: path) := by
  cases path with
  | nil => rw [lookup, lookup, h]
  | cons next path =>
    rw [lookup, lookup, h]
    · exact List.cons_ne_nil next path
    · exact List.cons_ne_nil next path

theorem leafAt_congr {t' : Tree α} (h : t.get? name = t'.get? name) :
    t.leafAt (name :: path) = t'.leafAt (name :: path) := by
  rw [leafAt, leafAt, lookup_congr h]

theorem lookup_cons (t : Tree α) (name : String) (h : path ≠ []) :
    t.lookup (name :: path) = (t.child name).lookup path := by
  rw [lookup, child]
  · cases t.get? name with
    | none => simp
    | some item => cases item <;> simp
  · exact h

/-- Below a name the branch of that name goes on. -/
theorem leafAt_cons (t : Tree α) (name : String) {path : List String} (h : path ≠ []) :
    t.leafAt (name :: path) = (t.child name).leafAt path := by
  rw [leafAt, leafAt, lookup_cons t name h]

theorem lookup_append (t : Tree α) (p : List String) (h : path ≠ []) :
    t.lookup (p ++ path) = (t.inside p).lookup path := by
  induction p generalizing t with
  | nil => rfl
  | cons name p ih => rw [List.cons_append, lookup_cons t name (by simp [h]), ih, inside]

theorem leafAt_append (t : Tree α) (p : List String) (h : path ≠ []) :
    t.leafAt (p ++ path) = (t.inside p).leafAt path := by
  rw [leafAt, leafAt, lookup_append t p h]

theorem inside_append (t : Tree α) (p path : List String) :
    t.inside (p ++ path) = (t.inside p).inside path := by
  induction p generalizing t with
  | nil => rfl
  | cons name p ih => exact ih (t.child name)

/-- The branch that is found at a path is what is below it. -/
theorem inside_eq_of_lookup {inner : Tree α} (h : t.lookup path = some (.branch inner)) :
    t.inside path = inner := by
  induction path generalizing t with
  | nil => simp at h
  | cons name path ih =>
    -- the last name of the path is looked up itself, the others lead to where it is
    by_cases hPath : path = []
    · subst hPath
      rw [lookup] at h
      rw [inside, inside, child, h]
    · rw [lookup_cons t name hPath] at h
      exact ih h

/-- Below a path that leads to no branch there is nothing. -/
theorem inside_eq_empty_of_lookup (hNe : path ≠ [])
    (h : ∀ inner, t.lookup path ≠ some (.branch inner)) : t.inside path = empty := by
  induction path generalizing t with
  | nil => exact absurd rfl hNe
  | cons name path ih =>
    by_cases hPath : path = []
    · subst hPath
      rw [inside, inside, child]
      split
      · next inner hGet => exact absurd hGet (h inner)
      · rfl
    · simp only [lookup_cons t name hPath] at h
      exact ih hPath h

/-- The leaves inside the branch at a path. -/
theorem leafAt_append_singleton (t : Tree α) {path : List String} (h : path ≠ []) (name : String) :
    t.leafAt (path ++ [name]) = match t.lookup path with
      | some (.branch inner) => inner.leafAt [name]
      | _ => none := by
  induction path generalizing t with
  | nil => exact absurd rfl h
  | cons segment path ih =>
    rw [List.cons_append, leafAt_cons _ _ (by simp)]
    -- the last segment names the branch itself
    by_cases hPath : path = []
    · subst hPath
      rw [List.nil_append, lookup, child]
      cases t.get? segment with
      | none => rfl
      | some item => cases item <;> rfl
    · rw [ih (t.child segment) hPath, lookup_cons t segment hPath]

/-! ## After an update -/

theorem child_put_self (t : Tree α) (name : String) (item : Item α) :
    (t.put name item).child name = match item with
      | .branch inner => inner
      | .leaf _ => empty := by
  rw [child, get?_put, if_pos rfl]
  cases item <;> rfl

theorem lookup_put_of_ne (t : Tree α) (item : Item α) {other : String} (h : other ≠ name) :
    (t.put name item).lookup (other :: path) = t.lookup (other :: path) := by
  apply lookup_congr
  rw [get?_put, if_neg h]

end FeatureFlags.Tree
