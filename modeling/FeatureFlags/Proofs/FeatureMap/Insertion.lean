import FeatureFlags.FeatureMap.Basic
import FeatureFlags.Proofs.Tree.Insertion

/-!
# Setting a feature

A feature that is set stands at the path of its scope and its name. What it cannot coexist with has
to give way: values on the way to it become scopes, and whatever stood below it is gone. All other
paths of the map lead to what they led to before.

* `lookup_insert` — what setting a feature does to the look-up of every path.
-/

namespace FeatureFlags.FeatureMap

/-- Where a feature is set: the segments of its scope that are not empty, and then its name, which
is one segment whatever is in it. -/
def featurePath (scope name : String) : List String :=
  Path.solidSegments scope ++ [name]

/-- After a feature has been set, its path leads to its value. Every path on the way leads to a
scope, and nothing is found below the value. Paths that part from it lead to what they led to
before, and neither the root name nor the info block has changed. -/
theorem lookup_insert (m : FeatureMap) (scope name : String) (v : Value) :
    (m.insert scope name v).lookup (featurePath scope name) = some (.leaf v) ∧
    (∀ q, q ≠ [] → q <+: featurePath scope name → q ≠ featurePath scope name →
      ∃ inner, (m.insert scope name v).lookup q = some (.branch inner)) ∧
    (∀ q, featurePath scope name <+: q → q ≠ featurePath scope name →
      (m.insert scope name v).lookup q = none) ∧
    (∀ q, ¬ q <+: featurePath scope name → ¬ featurePath scope name <+: q →
      (m.insert scope name v).lookup q = m.lookup q) ∧
    (m.insert scope name v).root = m.root ∧
    (m.insert scope name v).info = m.info := by
  refine ⟨?_, ?_, ?_, ?_, rfl, rfl⟩
  · exact Tree.lookup_insertAt_self m.features _ name v
  · intro q hNe hPrefix hOther
    -- a prefix that is not the whole path is one of the way, without the name
    have hWay : q <+: Path.solidSegments scope :=
      (List.prefix_concat_iff.1 hPrefix).resolve_left hOther
    obtain ⟨rest, hRest⟩ := hWay
    have hBranch := Tree.lookup_insertAt_above m.features hNe rest name v
    rw [hRest] at hBranch
    exact ⟨_, hBranch⟩
  · intro q hPrefix hOther
    obtain ⟨rest, rfl⟩ := hPrefix
    have hRest : rest ≠ [] := by
      rintro rfl
      exact hOther (List.append_nil _)
    have hBelow := Tree.lookup_insertAt_below m.features (Path.solidSegments scope) name v hRest
    rw [featurePath, List.append_assoc, List.singleton_append]
    exact hBelow
  · intro q hNotAbove hNotBelow
    have hApart : ¬ Tree.Meets (featurePath scope name) q := by
      rintro (hBelow | hAbove)
      · exact hNotBelow hBelow
      · exact hNotAbove hAbove
    exact Tree.lookup_insertAt_of_not_meets m.features _ name v hApart

/-- A name with a slash in it is one segment, and slashes too many in a scope make none. A value in
the way becomes a scope. -/
example :
    let m := ((empty "dcdr").insert "cc" "de" (.bool true)).insert "/cc//de/" "a/b" (.bool false)
    m.lookup ["cc", "de", "a/b"] = some (.leaf (.bool false)) := by
  decide +kernel

end FeatureFlags.FeatureMap
