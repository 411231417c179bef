import FeatureFlags.Proofs.Tree.Inside
import Mathlib.Data.List.Nodup

/-!
# Leaves with their paths

All leaves of a tree in one list, each with the path that leads to it. Where no two members have one
name every path leads to one leaf at most, so the list says the same as the look-ups.

* `mem_filed_iff` — the list has the leaves that are found at their paths.
* `nodup_paths` — no path is in it twice.
-/

namespace FeatureFlags.Tree

universe u

variable {α : Type u}

/-- The leaves with their paths, in the order of the members. -/
def filed : Tree α → List (List String × α)
  | empty => []
  | leaf name a rest => ([name], a) :: rest.filed
  | branch name inner rest => inner.filed.map (fun e => (name :: e.1, e.2)) ++ rest.filed

/-- Every path in the list begins with the name of a member. -/
theorem exists_cons_of_mem_filed {t : Tree α} {e : List String × α} (h : e ∈ t.filed) :
    ∃ name path, e.1 = name :: path ∧ name ∈ t.names := by
  induction t with
  | empty => simp [filed] at h
  | leaf n a rest ih =>
    rcases List.mem_cons.1 h with rfl | h
    · exact ⟨n, [], rfl, List.mem_cons_self⟩
    · obtain ⟨name, path, hPath, hName⟩ := ih h
      exact ⟨name, path, hPath, List.mem_cons_of_mem _ hName⟩
  | branch n inner rest _ ih =>
    rcases List.mem_append.1 h with h | h
    · obtain ⟨below, -, rfl⟩ := List.mem_map.1 h
      exact ⟨n, below.1, rfl, List.mem_cons_self⟩
    · obtain ⟨name, path, hPath, hName⟩ := ih h
      exact ⟨name, path, hPath, List.mem_cons_of_mem _ hName⟩

theorem not_mem_filed {t : Tree α} {name : String} (h : name ∉ t.names) (path : List String)
    (a : α) : (name :: path, a) ∉ t.filed := by
  intro hMem
  obtain ⟨m, path', hPath, hName⟩ := exists_cons_of_mem_filed hMem
  cases hPath
  exact h hName

/-! ## Different names -/

/-- Whether no two members have one name, at every level; they may stand in any order. -/
def Distinct : Tree α → Prop
  | empty => True
  | leaf n _ rest => n ∉ rest.names ∧ rest.Distinct
  | branch n inner rest => n ∉ rest.names ∧ inner.Distinct ∧ rest.Distinct

theorem Sorted.distinct {t : Tree α} (hSorted : t.Sorted) : t.Distinct := by
  induction t with
  | empty => trivial
  | leaf n a rest ih =>
    exact ⟨fun hMem => String.lt_irrefl n (hSorted.1 n hMem), ih hSorted.2⟩
  | branch n inner rest ihInner ih =>
    obtain ⟨hLt, hInner, hRest⟩ := hSorted
    exact ⟨fun hMem => String.lt_irrefl n (hLt n hMem), ihInner hInner, ih hRest⟩

/-- The list has the leaves that are found at their paths. -/
theorem mem_filed_iff {t : Tree α} (h : t.Distinct) {path : List String} {a : α} :
    (path, a) ∈ t.filed ↔ t.leafAt path = some a := by
  -- by induction on the members; the first one answers for its own name, the rest for the others
  induction t generalizing path with
  | empty => simp [filed]
  | leaf n b rest ih =>
    have hBehind : ∀ p, (n :: p, a) ∉ rest.filed := fun p => not_mem_filed h.1 p a
    rw [filed, List.mem_cons]
    cases path with
    | nil => simp [ih h.2]
    | cons name path =>
      by_cases hName : name = n
      · -- the leaf itself, and nothing below it
        subst hName
        have hGet : (leaf name b rest).get? name = some (.leaf b) := by simp [get?]
        cases path with
        | nil => simp [hBehind, leafAt_singleton, hGet, eq_comm]
        | cons next path => simp [hBehind, leafAt_cons, child, hGet]
      · have hGet : (leaf n b rest).get? name = rest.get? name := by simp [get?, hName]
        simp [hName, ih h.2, leafAt_congr hGet]
  | branch n inner rest ihInner ih =>
    obtain ⟨hFirst, hInner, hRest⟩ := h
    have hBehind : ∀ p, (n :: p, a) ∉ rest.filed := fun p => not_mem_filed hFirst p a
    rw [filed, List.mem_append, List.mem_map]
    cases path with
    | nil => simp [ih hRest]
    | cons name path =>
      by_cases hName : name = n
      · -- what is below the branch is listed for it; the branch itself is no leaf
        subst hName
        have hGet : (branch name inner rest).get? name = some (.branch inner) := by simp [get?]
        cases path with
        | nil => simp [hBehind, leafAt_singleton, hGet, ihInner hInner]
        | cons next path => simp [hBehind, leafAt_cons, child, hGet, ihInner hInner]
      · have hGet : (branch n inner rest).get? name = rest.get? name := by simp [get?, hName]
        simp [Ne.symm hName, ih hRest, leafAt_congr hGet]

/-- No path leads to two leaves. -/
theorem nodup_paths {t : Tree α} (h : t.Distinct) : (t.filed.map (·.1)).Nodup := by
  -- a path behind a member begins with another name
  have hBehind {rest : Tree α} {n : String} (hName : n ∉ rest.names) (path : List String) :
      n :: path ∉ rest.filed.map (·.1) := by
    intro hMem
    obtain ⟨⟨other, a⟩, he, rfl⟩ := List.mem_map.1 hMem
    exact not_mem_filed hName path a he
  induction t with
  | empty => exact .nil
  | leaf n a rest ih =>
    rw [filed, List.map_cons, List.nodup_cons]
    exact ⟨hBehind h.1 [], ih h.2⟩
  | branch n inner rest ihInner ih =>
    obtain ⟨hName, hInner, hRest⟩ := h
    have hBelow : (inner.filed.map fun e => (n :: e.1, e.2)).map (·.1) =
        (inner.filed.map (·.1)).map (n :: ·) := by
      rw [List.map_map, List.map_map]
      rfl
    rw [filed, List.map_append, hBelow]
    refine List.Nodup.append ((ihInner hInner).map List.cons_injective) (ih hRest) ?_
    intro path hFirst hLater
    obtain ⟨below, -, rfl⟩ := List.mem_map.1 hFirst
    exact hBehind hName below hLater

end FeatureFlags.Tree
