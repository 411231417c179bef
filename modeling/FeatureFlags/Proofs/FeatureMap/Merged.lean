import FeatureFlags.FeatureMap.Basic
import FeatureFlags.Proofs.Text.Segments
import FeatureFlags.Proofs.Tree.Members

/-!
# Resolving features

A flat view answers a name from the first scope that has it: the scopes asked for in their order,
and the default scope at the end unless it is one of them. Asking for a scope again, or for the
empty one, changes nothing.

* `get?_inScope` — the values of a scope are the leaves below its path.
* `get?_merged` — what a flat view answers.
* `get?_merged_iff` — which scope an answer comes from, said of look-ups in the map alone.
* `merged_filter`, `merged_eraseDups` — empty scopes and repetitions count for nothing.
-/

namespace FeatureFlags

namespace FeatureMap

/-- The values of a scope are the leaves below its path. -/
theorem get?_inScope (m : FeatureMap) (scope name : String) :
    (m.inScope scope).get? name = m.features.leafAt (Path.segments scope ++ [name]) := by
  -- both sides look at what stands at the path of the scope
  rw [Tree.leafAt_append_singleton _ (Path.segments_ne_nil scope), inScope, lookup]
  cases hItem : m.features.lookup (Path.segments scope) with
  | none => rfl
  | some item =>
    cases item with
    | leaf v => rfl
    | branch inner => exact Tree.get?_leaves (Tree.sorted_of_lookup m.sorted hItem) name

theorem segments_defaultScope : Path.segments defaultScope = [defaultScope] :=
  Path.segments_of_not_mem (by decide)

/-! ## Priorities -/

/-- The scopes that a feature is looked for in, in this order. -/
def priorities (scopes : List String) : List String :=
  scopes.filter (· ≠ "") ++ if scopes.contains defaultScope then [] else [defaultScope]

theorem layers_eq_reverse (scopes : List String) : layers scopes = (priorities scopes).reverse := by
  unfold layers priorities
  rw [List.filter_append, List.reverse_append, List.filter_reverse]
  congr 1
  split
  · rfl
  · rfl

theorem get?_foldl_extend (view : Features) (answer : String → Features) (layers : List String)
    (name : String) :
    (layers.foldl (fun view scope => view.extend (answer scope)) view).get? name =
      (layers.reverse.findSome? fun scope => (answer scope).get? name).or (view.get? name) := by
  induction layers generalizing view with
  | nil => rfl
  | cons layer layers ih =>
    rw [List.foldl_cons, ih, SortedMap.get?_extend, List.reverse_cons, List.findSome?_append,
      List.findSome?_singleton, Option.or_assoc]

/-- A flat view answers from the first scope that has the feature. -/
theorem get?_merged (m : FeatureMap) (scopes : List String) (name : String) :
    (m.merged scopes).get? name =
      (priorities scopes).findSome? fun scope => (m.inScope scope).get? name := by
  rw [merged, get?_foldl_extend, layers_eq_reverse, List.reverse_reverse, SortedMap.get?_empty,
    Option.or_none]

/-! ## Precedence -/

/-- Whether a scope has a value of its own for a name. What the scopes inside it have is not its
own. -/
def HasOwn (m : FeatureMap) (scope name : String) (v : Value) : Prop :=
  m.lookup (Path.segments scope ++ [name]) = some (.leaf v)

theorem get?_inScope_eq_some_iff {m : FeatureMap} {scope name : String} {v : Value} :
    (m.inScope scope).get? name = some v ↔ m.HasOwn scope name v := by
  rw [get?_inScope]
  exact Tree.leafAt_eq_some_iff

theorem get?_inScope_eq_none_iff {m : FeatureMap} {scope name : String} :
    (m.inScope scope).get? name = none ↔ ∀ v, ¬ m.HasOwn scope name v := by
  rw [Option.eq_none_iff_forall_ne_some]
  exact forall_congr' fun v => not_congr get?_inScope_eq_some_iff

/-- Scopes that have the same values of their own give the same view, whatever is inside them. -/
theorem inScope_congr {m m' : FeatureMap} {scope : String}
    (h : ∀ name v, m.HasOwn scope name v ↔ m'.HasOwn scope name v) :
    m.inScope scope = m'.inScope scope := by
  apply SortedMap.ext_get?
  intro name
  apply Option.ext
  intro v
  rw [get?_inScope_eq_some_iff, get?_inScope_eq_some_iff]
  exact h name v

/-- A name has the value of the first scope, in the order of priority, that has one of its own, and
none when no scope has. Nothing but these values counts: maps in which the scopes asked for have the
same values of their own have the same view, whatever is in the scopes inside them. -/
theorem get?_merged_iff (m : FeatureMap) (scopes : List String) :
    (∀ name v, (m.merged scopes).get? name = some v ↔
      ∃ before scope after, priorities scopes = before ++ scope :: after ∧
        m.HasOwn scope name v ∧ ∀ other ∈ before, ∀ w, ¬ m.HasOwn other name w) ∧
    (∀ name, (m.merged scopes).get? name = none ↔
      ∀ scope ∈ priorities scopes, ∀ v, ¬ m.HasOwn scope name v) ∧
    ∀ m' : FeatureMap,
      (∀ scope ∈ priorities scopes, ∀ name v, m.HasOwn scope name v ↔ m'.HasOwn scope name v) →
      m.merged scopes = m'.merged scopes := by
  refine ⟨?_, ?_, ?_⟩
  · intro name v
    rw [get?_merged, List.findSome?_eq_some_iff]
    simp only [get?_inScope_eq_some_iff, get?_inScope_eq_none_iff]
  · intro name
    rw [get?_merged, List.findSome?_eq_none_iff]
    simp only [get?_inScope_eq_none_iff]
  · intro m' hSame
    -- layer by layer the same view is laid over the same one
    rw [merged, merged, layers_eq_reverse]
    apply List.foldl_ext
    intro view scope hMem
    rw [inScope_congr (hSame scope (List.mem_reverse.1 hMem))]

/-! ## Empty scopes -/

/-- Empty scopes count for nothing. -/
theorem merged_filter (m : FeatureMap) (scopes : List String) :
    m.merged (scopes.filter (· ≠ "")) = m.merged scopes := by
  apply SortedMap.ext_get?
  intro name
  -- the default scope is not the empty one, so it is named in both or in neither
  have hContains : (scopes.filter (· ≠ "")).contains defaultScope =
      scopes.contains defaultScope := by
    rw [Bool.eq_iff_iff, List.contains_iff_mem, List.contains_iff_mem, List.mem_filter]
    simp [defaultScope]
  rw [get?_merged, get?_merged, priorities, priorities, hContains, List.filter_filter]
  simp

/-! ## Repetitions -/

theorem findSome?_filter {α β : Type} (f : α → Option β) (p : α → Bool) (l : List α) :
    (l.filter p).findSome? f = l.findSome? fun a => if p a then f a else none := by
  induction l with
  | nil => rfl
  | cons a l ih =>
    rw [List.findSome?_cons]
    by_cases hp : p a = true
    · rw [List.filter_cons_of_pos hp, List.findSome?_cons, ih, if_pos hp]
    · rw [List.filter_cons_of_neg hp, ih, if_neg hp]

theorem findSome?_filter_ne {β : Type} (f : String → Option β) {a : String} (h : f a = none)
    (l : List String) : (l.filter fun b => !b == a).findSome? f = l.findSome? f := by
  rw [findSome?_filter]
  congr 1
  funext b
  by_cases hb : b = a
  · rw [hb, h, ite_self]
  · rw [if_pos (by simpa using hb)]

/-- What was looked at in vain need not be looked at again. -/
theorem findSome?_eraseDups {β : Type} (f : String → Option β) (l : List String) :
    l.eraseDups.findSome? f = l.findSome? f := by
  induction hn : l.length using Nat.strongRecOn generalizing l with
  | _ n ih =>
    cases l with
    | nil => rfl
    | cons a l =>
      -- the induction is on the length, since repetitions are filtered out of the rest
      have hLt : (l.filter fun b => !b == a).length < n := by
        rw [← hn, List.length_cons]
        exact Nat.lt_succ_of_le (List.length_filter_le _ _)
      rw [List.eraseDups_cons, List.findSome?_cons, List.findSome?_cons, ih _ hLt _ rfl]
      cases ha : f a with
      | some b => rfl
      | none => exact findSome?_filter_ne f ha l

/-- Asking for a scope twice is asking for it once. -/
theorem merged_eraseDups (m : FeatureMap) (own scopes : List String) :
    m.merged (own ++ scopes.eraseDups) = m.merged (own ++ scopes) := by
  apply SortedMap.ext_get?
  intro name
  -- the same scopes are named, so the default scope is behind them or not in both cases
  have hContains : (own ++ scopes.eraseDups).contains defaultScope =
      (own ++ scopes).contains defaultScope := by
    rw [Bool.eq_iff_iff, List.contains_iff_mem, List.contains_iff_mem, List.mem_append,
      List.mem_append, List.mem_eraseDups]
  rw [get?_merged, get?_merged, priorities, priorities, hContains, List.findSome?_append,
    List.findSome?_append, findSome?_filter, findSome?_filter, List.findSome?_append,
    List.findSome?_append, findSome?_eraseDups]

end FeatureMap

end FeatureFlags
