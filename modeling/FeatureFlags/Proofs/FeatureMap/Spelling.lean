import FeatureFlags.Proofs.FeatureMap.Insertion
import FeatureFlags.Proofs.FeatureMap.Merged
import FeatureFlags.Proofs.Snapshot.Filing

/-!
# Scopes that are spelled in several ways

Setting a feature passes over the empty segments of a scope, and resolving one does not: a scope with
a slash in front, behind or doubled is written to as if the slash were not there, but it is looked up
with it. So what is set under such a spelling is not found under it. The value that stood there
before is still found, unless the path of the new one leads through its place; and whoever resolves
the scope gets what the default scope has, which may be the new value if it was set there.

* `leafAt_insert` — every leaf after a feature has been set.
* `get?_inScope_insert_of_mem` — what is found under a spelling with an empty segment.
* `get?_merged_singleton` — a view for one scope falls back to the default scope.
* `readBack_insert_iff` — the spellings under which what is set is found.
-/

namespace FeatureFlags.FeatureMap

variable {scope name : String} {v : Value}

/-! ## Leaves -/

/-- Every leaf after a feature has been set. -/
theorem leafAt_insert (m : FeatureMap) (scope name : String) (v : Value) (q : List String) :
    (m.insert scope name v).features.leafAt q =
      if q = featurePath scope name then some v
      else if featurePath scope name <+: q ∨ q <+: featurePath scope name then none
      else m.features.leafAt q := by
  show (m.features.insertAt (Path.solidSegments scope) name v).leafAt q = _
  split
  · next hSelf =>
    rw [hSelf]
    exact Tree.leafAt_insertAt_self _ _ _ _
  · next hOther =>
    obtain ⟨hMeeting, hApart⟩ :=
      Tree.leafAt_insertAt_of_ne m.features (Path.solidSegments scope) name v hOther
    split
    · next hMeets => exact hMeeting hMeets
    · next hNot => exact hApart hNot

/-! ## The scope itself -/

/-- Under a spelling without empty segments a feature is found as it was set. -/
theorem get?_inScope_insert_of_not_mem (m : FeatureMap) (h : "" ∉ Path.segments scope)
    (name : String) (v : Value) : ((m.insert scope name v).inScope scope).get? name = some v := by
  rw [get?_inScope, leafAt_insert, featurePath, Path.solidSegments_eq_iff.2 h, if_pos rfl]

/-- Under a spelling with an empty segment nothing new is found. What was found before is lost if the
path of the feature leads through the place of the scope. -/
theorem get?_inScope_insert_of_mem (m : FeatureMap) (h : "" ∈ Path.segments scope)
    (name : String) (v : Value) :
    ((m.insert scope name v).inScope scope).get? name =
      if featurePath scope name <+: Path.segments scope then none
      else (m.inScope scope).get? name := by
  -- the path of the feature is shorter than the one that is looked up
  have hShorter : (featurePath scope name).length < (Path.segments scope ++ [name]).length := by
    have hLt := Path.length_solidSegments_lt h
    simpa [featurePath] using hLt
  have hOther : Path.segments scope ++ [name] ≠ featurePath scope name := by
    intro hSame
    rw [hSame] at hShorter
    exact Nat.lt_irrefl _ hShorter
  have hMeets : (featurePath scope name <+: Path.segments scope ++ [name] ∨
      Path.segments scope ++ [name] <+: featurePath scope name) ↔
      featurePath scope name <+: Path.segments scope := by
    constructor
    · rintro (hOn | hBelow)
      · exact (List.prefix_concat_iff.1 hOn).resolve_left (Ne.symm hOther)
      · exact absurd hBelow.length_le (Nat.not_le.2 hShorter)
    · exact fun hOn => .inl (hOn.trans (List.prefix_append _ _))
  rw [get?_inScope, get?_inScope, leafAt_insert, if_neg hOther]
  simp only [hMeets]

/-! ## The view -/

/-- A view for one scope answers from the scope, and otherwise from the default scope. -/
theorem get?_merged_singleton (m : FeatureMap) (h : scope ≠ "") (name : String) :
    (m.merged [scope]).get? name =
      ((m.inScope scope).get? name).or (m.defaults.get? name) := by
  have hSolid : [scope].filter (· ≠ "") = [scope] := by simp [h]
  rw [get?_merged, priorities, hSolid, List.findSome?_append, List.findSome?_singleton]
  by_cases hDefault : scope = defaultScope
  · subst hDefault
    simp [defaults]
  · rw [if_neg (by simpa using Ne.symm hDefault), List.findSome?_singleton]
    rfl

/-- What the default scope has after a feature has been set in any scope but the outermost. -/
theorem get?_defaults_insert (m : FeatureMap) (h : Path.solidSegments scope ≠ []) (name : String)
    (v : Value) :
    (m.insert scope name v).defaults.get? name =
      if Path.solidSegments scope = [defaultScope] then some v
      else if [defaultScope, name] <+: featurePath scope name then none
      else m.defaults.get? name := by
  have hSelf : [defaultScope, name] = featurePath scope name ↔
      Path.solidSegments scope = [defaultScope] := by
    constructor
    · intro hSame
      have hAppend : [defaultScope] ++ [name] = Path.solidSegments scope ++ [name] := hSame
      exact (List.append_cancel_right hAppend).symm
    · intro hHere
      rw [featurePath, hHere]
      rfl
  rw [defaults, defaults, get?_inScope, get?_inScope, segments_defaultScope]
  show (m.insert scope name v).features.leafAt [defaultScope, name] =
    if _ then some v else if _ then none else m.features.leafAt [defaultScope, name]
  rw [leafAt_insert]
  by_cases hHere : Path.solidSegments scope = [defaultScope]
  · rw [if_pos (hSelf.2 hHere), if_pos hHere]
  · rw [if_neg (mt hSelf.1 hHere), if_neg hHere]
    -- the path of the feature has a segment and the name, so it does not end before this one
    have hNot : ¬featurePath scope name <+: [defaultScope, name] := by
      intro hOn
      have hLength : [defaultScope, name].length ≤ (featurePath scope name).length := by
        have hOne : 1 ≤ (Path.solidSegments scope).length := List.length_pos_iff.2 h
        simpa [featurePath] using hOne
      exact hHere (hSelf.1 (hOn.eq_of_length_le hLength).symm)
    simp only [hNot, false_or]

/-! ## Reading back -/

/-- What is set in a scope is found there, whatever the map, the name and the value, just when the
scope is spelled without empty segments. Under any other spelling the scope has for the name what it
had before, or nothing if the path of the feature leads through its place; and a view for the scope
falls back to the default scope, where a feature that is set further inside makes a value give way. -/
theorem readBack_insert_iff (hSolid : Path.solidSegments scope ≠ []) :
    ((∀ (m : FeatureMap) (name : String) (v : Value),
        ((m.insert scope name v).inScope scope).get? name = some v ∧
        ((m.insert scope name v).merged [scope]).get? name = some v) ↔
      "" ∉ Path.segments scope) ∧
    ("" ∈ Path.segments scope → ∀ (m : FeatureMap) (name : String) (v : Value),
      ((m.insert scope name v).inScope scope).get? name =
        (if featurePath scope name <+: Path.segments scope then none
          else (m.inScope scope).get? name) ∧
      ((m.insert scope name v).merged [scope]).get? name =
        (((m.insert scope name v).inScope scope).get? name).or
          (if Path.solidSegments scope = [defaultScope] then some v
            else if [defaultScope, name] <+: featurePath scope name then none
            else m.defaults.get? name)) := by
  have hNe : scope ≠ "" := by
    rintro rfl
    exact hSolid (by decide +kernel)
  refine ⟨⟨?_, ?_⟩, ?_⟩
  · intro hFound hEmpty
    -- in a map without features nothing was found before
    have hNew := (hFound (empty defaultRoot) "" (.bool true)).1
    rw [get?_inScope_insert_of_mem _ hEmpty, get?_inScope, Snapshot.leafAt_emptyMap, ite_self]
      at hNew
    cases hNew
  · intro hSpelled m name v
    have hFound := get?_inScope_insert_of_not_mem m hSpelled name v
    refine ⟨hFound, ?_⟩
    rw [get?_merged_singleton _ hNe, hFound, Option.some_or]
  · intro hEmpty m name v
    refine ⟨get?_inScope_insert_of_mem m hEmpty name v, ?_⟩
    rw [get?_merged_singleton _ hNe, get?_defaults_insert m hSolid]

/-- A flag that is set in a scope with slashes around it is found without them only. -/
theorem readBack_insert_slashes :
    Path.solidSegments "/cc/" ≠ [] ∧
    ¬(((empty "dcdr").insert "/cc/" "flag" (.bool true)).inScope "/cc/").get? "flag" =
      some (.bool true) ∧
    ¬(((empty "dcdr").insert "/cc/" "flag" (.bool true)).merged ["/cc/"]).get? "flag" =
      some (.bool true) ∧
    (((empty "dcdr").insert "/cc/" "flag" (.bool true)).inScope "cc").get? "flag" =
      some (.bool true) := by
  have hSolid : Path.solidSegments "/cc/" ≠ [] := by decide +kernel
  have hEmpty : "" ∈ Path.segments "/cc/" := by decide +kernel
  obtain ⟨hScope, hView⟩ :=
    (readBack_insert_iff hSolid).2 hEmpty (empty "dcdr") "flag" (.bool true)
  have hNothing : ((empty "dcdr").inScope "/cc/").get? "flag" = none := by decide +kernel
  rw [hNothing, ite_self] at hScope
  refine ⟨hSolid, ?_, ?_, by decide +kernel⟩
  · simp [hScope]
  · rw [hView, hScope]
    decide +kernel

end FeatureFlags.FeatureMap
