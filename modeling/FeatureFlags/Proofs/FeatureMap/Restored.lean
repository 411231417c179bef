import FeatureFlags.Proofs.FeatureMap.Merged

/-!
# Restored maps

A served document has its values right under the root. Restoring a map moves the values that stand
there into the default scope, over those of the same name, whatever else is in that scope and in
whichever order the names come. Nothing is left to be moved then, so restoring a map again changes
nothing.

* `get?_restored` — what a restored map has right under its root.
* `get?_defaults_restored` — what its default scope has.
* `merged_restored_served` — what a restored document resolves, for any scopes.
* `isRestored`, `restored_restored` — what restoring any map comes to, and that it is done once.
-/

namespace FeatureFlags.FeatureMap

/-! ## The members of a restored map -/

/-- Right under its root a restored map has the default scope and the other scopes of the map. -/
theorem get?_restored (m : FeatureMap) (name : String) :
    m.restored.features.get? name =
      if name = defaultScope then
        some (.branch ((m.features.child defaultScope).putLeaves m.features.leaves))
      else (m.features.get? name).filter Tree.Item.isBranch := by
  show (m.features.branches.put defaultScope _).get? name = _
  rw [Tree.get?_put, Tree.get?_branches m.sorted]

theorem child_restored (m : FeatureMap) : m.restored.features.child defaultScope =
    (m.features.child defaultScope).putLeaves m.features.leaves := by
  rw [Tree.child, get?_restored, if_pos rfl]

/-- No value stands right under the root of a restored map. -/
theorem leafAt_restored (m : FeatureMap) (name : String) :
    m.restored.features.leafAt [name] = none := by
  rw [Tree.leafAt_singleton, get?_restored]
  split_ifs
  · rfl
  · cases m.features.get? name with
    | none => rfl
    | some item => cases item <;> rfl

theorem leaves_restored (m : FeatureMap) : m.restored.features.leaves = .empty := by
  apply SortedMap.ext_get?
  intro name
  rw [Tree.get?_leaves m.restored.sorted, leafAt_restored]
  rfl

/-- Restoring a map again changes nothing. -/
theorem restored_restored (m : FeatureMap) : m.restored.restored = m.restored := by
  refine FeatureMap.ext rfl rfl (Tree.ext_get? m.restored.restored.sorted m.restored.sorted ?_)
  intro name
  rw [get?_restored, get?_restored]
  split_ifs with hName
  · -- no values are left that could be put into the default scope
    rw [child_restored, leaves_restored]
    rfl
  · rw [Option.filter_filter]
    simp

/-! ## The default scope -/

theorem get?_defaults (m : FeatureMap) (name : String) :
    m.defaults.get? name = (m.features.child defaultScope).leafAt [name] := by
  rw [defaults, get?_inScope, segments_defaultScope, List.singleton_append,
    Tree.leafAt_cons _ _ (List.cons_ne_nil _ _)]

/-- In the default scope of a restored map the values from under the root win. -/
theorem get?_defaults_restored (m : FeatureMap) (name : String) :
    m.restored.defaults.get? name = (m.features.leafAt [name]).or (m.defaults.get? name) := by
  rw [get?_defaults, get?_defaults, child_restored, Tree.leafAt_singleton, Tree.get?_putLeaves,
    Tree.get?_leaves m.sorted]
  cases m.features.leafAt [name] with
  | some v => rfl
  | none => rw [Tree.leafAt_singleton, Option.map_none, Option.none_or, Option.none_or]

/-! ## Served documents -/

section

variable (root : String) (info : Option Info) (features : Features)

/-- A restored document has no scope but the default one, and in there what was served. -/
theorem get?_restored_served (name : String) :
    (served root info features).restored.features.get? name =
      if name = defaultScope then some (.branch (.ofLeaves features)) else none := by
  have hMember (other : String) :
      (served root info features).features.get? other = (features.get? other).map .leaf :=
    Tree.get?_ofLeaves features other
  have hChild : (served root info features).features.child defaultScope = .empty :=
    Tree.child_ofLeaves features defaultScope
  rw [get?_restored, hMember]
  split_ifs with hName
  · congr 2
    -- what is put into an empty scope is what is in there afterwards
    apply Tree.ext_get?
    · exact Tree.sorted_putLeaves (Tree.sorted_child (served root info features).sorted _) _
    · exact Tree.sorted_ofLeaves features
    intro other
    rw [hChild, Tree.get?_putLeaves, Tree.get?_leaves (served root info features).sorted,
      Tree.leafAt_singleton, hMember, Tree.get?_ofLeaves]
    cases features.get? other <;> rfl
  · cases features.get? name <;> rfl

/-- No scope of a restored document has values but the default one. -/
theorem get?_inScope_restored_served (scope name : String) :
    ((served root info features).restored.inScope scope).get? name =
      if scope = defaultScope then features.get? name else none := by
  have hScope : scope = defaultScope ↔ Path.segments scope = [defaultScope] := by
    rw [← segments_defaultScope]
    exact ⟨congrArg Path.segments, fun hSegments => Path.segments_injective hSegments⟩
  simp only [get?_inScope, hScope]
  cases hSegments : Path.segments scope with
  | nil => exact absurd hSegments (Path.segments_ne_nil scope)
  | cons segment rest =>
    rw [List.cons_append, Tree.leafAt_cons _ _ (by simp), Tree.child, get?_restored_served]
    by_cases hDefault : segment = defaultScope
    · rw [if_pos hDefault, hDefault]
      cases rest with
      | nil =>
        rw [if_pos rfl, List.nil_append, Tree.leafAt_singleton, Tree.get?_ofLeaves]
        cases features.get? name <;> rfl
      | cons next rest =>
        -- there are no scopes inside the default scope
        rw [if_neg (by simp), List.cons_append, Tree.leafAt_cons _ _ (by simp),
          Tree.child_ofLeaves, Tree.leafAt_empty]
    · rw [if_neg hDefault, if_neg (by simp [hDefault]), Tree.leafAt_empty]

/-- The default scope is always among those that a feature is looked for in. -/
theorem defaultScope_mem_priorities (scopes : List String) : defaultScope ∈ priorities scopes := by
  unfold priorities
  rw [List.mem_append]
  by_cases hAsked : scopes.contains defaultScope = true
  · left
    rw [List.mem_filter]
    exact ⟨List.contains_iff_mem.1 hAsked, by decide⟩
  · right
    rw [if_neg hAsked]
    exact List.mem_singleton_self defaultScope

/-- A restored document resolves what was served, whatever scopes are asked for. -/
theorem merged_restored_served (scopes : List String) :
    (served root info features).restored.merged scopes = features := by
  apply SortedMap.ext_get?
  intro name
  rw [get?_merged]
  simp only [get?_inScope_restored_served]
  cases hGet : features.get? name with
  | none => simp
  | some v =>
    obtain ⟨before, after, hSplit, hFirst⟩ :=
      List.eq_append_cons_of_mem (defaultScope_mem_priorities scopes)
    rw [List.findSome?_eq_some_iff]
    refine ⟨before, defaultScope, after, hSplit, if_pos rfl, fun scope hMem => if_neg ?_⟩
    rintro rfl
    exact hFirst hMem

end

/-! ## Every map -/

/-- What restoring a map comes to. The values from under the root are in the default scope, where
they win over the scope's own; nothing else under the root changes. -/
structure IsRestored (m m' : FeatureMap) : Prop where
  root : m'.root = m.root
  info : m'.info = m.info
  noValue : ∀ name v, m'.lookup [name] ≠ some (.leaf v)
  hasDefault : ∃ scope, m'.lookup [defaultScope] = some (.branch scope)
  moved : ∀ name v, m.lookup [name] = some (.leaf v) → m'.defaults.get? name = some v
  kept : ∀ name, (∀ v, m.lookup [name] ≠ some (.leaf v)) →
    m'.defaults.get? name = m.defaults.get? name
  scopes : ∀ name ≠ defaultScope, ∀ scope,
    m'.lookup [name] = some (.branch scope) ↔ m.lookup [name] = some (.branch scope)

theorem isRestored (m : FeatureMap) : IsRestored m m.restored where
  root := rfl
  info := rfl
  noValue name v hLeaf := by
    have hNone := leafAt_restored m name
    rw [Tree.leafAt_eq_some_iff.2 hLeaf] at hNone
    cases hNone
  hasDefault := by
    rw [lookup, Tree.lookup, get?_restored, if_pos rfl]
    exact ⟨_, rfl⟩
  moved name v hLeaf := by
    rw [get?_defaults_restored, Tree.leafAt_eq_some_iff.2 hLeaf, Option.some_or]
  kept name hNone := by
    have hNoLeaf : m.features.leafAt [name] = none := by
      rw [Option.eq_none_iff_forall_ne_some]
      exact fun v hLeaf => hNone v (Tree.leafAt_eq_some_iff.1 hLeaf)
    rw [get?_defaults_restored, hNoLeaf, Option.none_or]
  scopes name hNe scope := by
    rw [lookup, lookup, Tree.lookup, Tree.lookup, get?_restored, if_neg hNe,
      Option.filter_eq_some_iff]
    exact and_iff_left rfl

/-- A restored document keeps its root and its info block and resolves what was served, whatever
scopes are asked for. And of every map the values under the root are moved into the default scope,
once and for all. -/
theorem restored_served_and_isRestored :
    (∀ root info features, (served root info features).restored.root = root ∧
      (served root info features).restored.info = info ∧
      ∀ scopes, (served root info features).restored.merged scopes = features) ∧
    ∀ m : FeatureMap, IsRestored m m.restored ∧ m.restored.restored = m.restored := by
  refine ⟨fun root info features => ⟨rfl, rfl, ?_⟩, fun m => ⟨isRestored m, restored_restored m⟩⟩
  exact merged_restored_served root info features

end FeatureFlags.FeatureMap
