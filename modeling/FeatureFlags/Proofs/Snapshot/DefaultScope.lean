import FeatureFlags.Proofs.Snapshot.Filing

/-!
# The default scope of a snapshot

A snapshot begins with an empty default scope, and what is filed below it keeps it a scope. But a
record can stand in the scope's own place, directly under the namespace's features: its value takes
the place of the scope with all that was in there, until an entry below makes it a scope again. So
the last entry that meets the default scope decides whether there is one.

* `TakesDefault` — what it means that an entry takes the place of the default scope for good.
* `lookup_default_of_build` — what a snapshot has in the place of the default scope.
-/

namespace FeatureFlags.Snapshot

open Store

variable {ns : String} {entries : List Entry} {m : FeatureMap} {v : Value}

/-- Whether an entry puts a value in the place of the default scope, and none after it puts anything
there or below. -/
def TakesDefault (ns : String) (entries : List Entry) (v : Value) : Prop :=
  ∃ before e after, entries = before ++ e :: after ∧
    (∃ l, leafOf? ns e = some l ∧ l.path = [defaultScope] ∧ l.value = v) ∧
    ∀ e' ∈ after, ∀ l', leafOf? ns e' = some l' → ¬ [defaultScope] <+: l'.path

/-- The leaves that meet the default scope are those in its place and below it. -/
theorem meets_defaultScope_iff (l : Tree.Leaf Value) :
    Tree.Meets l.path [defaultScope] ↔ [defaultScope] <+: l.path := by
  refine ⟨fun h => h.elim (fun hOn => ?_) id, .inr⟩
  -- a path that is not empty and leads to the scope ends there
  have hLength : [defaultScope].length ≤ l.path.length := by simp [Tree.Leaf.path]
  exact (hOn.eq_of_length_le hLength).symm ▸ List.prefix_rfl

/-- An entry takes the scope's place if its leaf is the last one to meet it and stands there. -/
theorem takesDefault_iff :
    TakesDefault ns entries v ↔ ∃ l, l.path = [defaultScope] ∧ l.value = v ∧
      Tree.IsLastToMeet (entries.filterMap (leafOf? ns)) [defaultScope] l := by
  constructor
  · rintro ⟨before, e, after, rfl, ⟨l, hLeaf, hPath, hValue⟩, hAfter⟩
    refine ⟨l, hPath, hValue, before.filterMap (leafOf? ns), after.filterMap (leafOf? ns), ?_,
      (meets_defaultScope_iff l).2 (hPath ▸ List.prefix_rfl), fun l' hl' => ?_⟩
    · rw [List.filterMap_append, List.filterMap_cons_some hLeaf]
    · obtain ⟨e', he', hLeaf'⟩ := List.mem_filterMap.1 hl'
      rw [meets_defaultScope_iff]
      exact hAfter e' he' l' hLeaf'
  · rintro ⟨l, hPath, hValue, leavesBefore, leavesAfter, hLeaves, -, hAfter⟩
    obtain ⟨before, rest, rfl, -, hRest⟩ := List.filterMap_eq_append_iff.1 hLeaves
    obtain ⟨between, e, after, rfl, -, hLeaf, rfl⟩ := List.filterMap_eq_cons_iff.1 hRest
    refine ⟨before ++ between, e, after, (List.append_assoc ..).symm, ⟨l, hLeaf, hPath, hValue⟩, ?_⟩
    intro e' he' l' hLeaf'
    rw [← meets_defaultScope_iff]
    exact hAfter l' (List.mem_filterMap.2 ⟨e', he', hLeaf'⟩)

theorem lookup_default_of_takesDefault (h : build ns entries = .ok m)
    (hTakes : TakesDefault ns entries v) : m.lookup [defaultScope] = some (.leaf v) := by
  obtain ⟨-, -, -, hFeatures⟩ := build_eq_ok_iff.1 h
  obtain ⟨l, hPath, rfl, hLast⟩ := takesDefault_iff.1 hTakes
  rw [FeatureMap.lookup, hFeatures]
  rcases Tree.lookup_insertAll_cases (FeatureMap.empty ns).features hLast (by simp) with
    ⟨-, hLeaf⟩ | ⟨hNe, -⟩ | ⟨hNe, -⟩
  · exact hLeaf
  · exact absurd hPath.symm hNe
  · exact absurd hPath.symm hNe

/-- There is a default scope, or an entry has taken its place. -/
theorem lookup_default_cases (h : build ns entries = .ok m) :
    (∃ scope, m.lookup [defaultScope] = some (.branch scope)) ∨ ∃ v, TakesDefault ns entries v := by
  obtain ⟨-, -, -, hFeatures⟩ := build_eq_ok_iff.1 h
  rw [FeatureMap.lookup, hFeatures]
  rcases Tree.exists_isLastToMeet (entries.filterMap (leafOf? ns)) [defaultScope] with
    ⟨last, hLast⟩ | hNone
  · rcases Tree.lookup_insertAll_cases (FeatureMap.empty ns).features hLast (by simp) with
      ⟨hSelf, -⟩ | ⟨-, -, hBranch⟩ | ⟨hNe, hOn, -⟩
    · exact .inr ⟨_, takesDefault_iff.2 ⟨last, hSelf.symm, rfl, hLast⟩⟩
    · exact .inl hBranch
    · -- nothing but the scope's own place is on the way to it
      have hBelow := (meets_defaultScope_iff last).1 (.inl hOn)
      exact absurd (hBelow.eq_of_length_le hOn.length_le) hNe
  · left
    rw [Tree.lookup_insertAll_of_not_meets _ hNone, lookup_emptyMap, if_pos rfl]
    exact ⟨.empty, rfl⟩

/-- A snapshot has a default scope unless an entry has taken its place; then it has the value of
that entry there. -/
theorem lookup_default_of_build (h : build ns entries = .ok m) :
    ((∃ scope, m.lookup [defaultScope] = some (.branch scope)) ↔ ∀ v, ¬ TakesDefault ns entries v) ∧
      ∀ v, m.lookup [defaultScope] = some (.leaf v) ↔ TakesDefault ns entries v := by
  have hBranch : (∃ scope, m.lookup [defaultScope] = some (.branch scope)) ↔
      ∀ v, ¬ TakesDefault ns entries v := by
    constructor
    · rintro ⟨scope, hScope⟩ v hTakes
      rw [lookup_default_of_takesDefault h hTakes] at hScope
      cases hScope
    · intro hFree
      exact (lookup_default_cases h).resolve_right fun ⟨v, hTakes⟩ => hFree v hTakes
  refine ⟨hBranch, fun v => ⟨fun hLeaf => ?_, lookup_default_of_takesDefault h⟩⟩
  rcases lookup_default_cases h with ⟨scope, hScope⟩ | ⟨w, hTakes⟩
  · rw [hScope] at hLeaf
    cases hLeaf
  · rw [lookup_default_of_takesDefault h hTakes] at hLeaf
    cases hLeaf
    exact hTakes

/-- A record in the place of the default scope. -/
def defaultEntry : Entry :=
  ⟨"dcdr/features/default", (Record.ofValue "default" (.bool true)).write⟩

/-- Its snapshot has no default scope. -/
theorem lookup_default_defaultEntry :
    ∃ m, build "dcdr" [defaultEntry] = .ok m ∧
      m.lookup [defaultScope] = some (.leaf (.bool true)) ∧
      ¬ ∃ scope, m.lookup [defaultScope] = some (.branch scope) := by
  have hReadable : ∀ e ∈ [defaultEntry], IsReadable "dcdr" e := by
    unfold IsReadable
    decide +kernel
  have hTakes : TakesDefault "dcdr" [defaultEntry] (.bool true) :=
    ⟨[], defaultEntry, [], rfl, ⟨⟨[], "default", .bool true⟩, by decide +kernel, rfl, rfl⟩,
      List.forall_mem_nil _⟩
  obtain ⟨m, hBuild, -⟩ := build_eq hReadable
  obtain ⟨hScope, hValue⟩ := lookup_default_of_build hBuild
  exact ⟨m, hBuild, (hValue _).2 hTakes, fun hBranch => hScope.1 hBranch _ hTakes⟩

end FeatureFlags.Snapshot
