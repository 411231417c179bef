import FeatureFlags.Client.Basic
import FeatureFlags.Proofs.FeatureMap.Document
import FeatureFlags.Proofs.FeatureMap.Merged

/-!
# What clients resolve

A client keeps the flat view of its map beside the map. The two never drift apart, so what a client
with further scopes answers is what its map says in those scopes, one after the other.

* `IsCurrent` — the flat view is that of the installed map; every update keeps it so.
* `update_write` — a written map is taken over unless its version is installed already.
* `get?_withScopes` — the answer of a client with further scopes.
-/

namespace FeatureFlags.Client

variable {c : Client}

/-- Whether the flat view of a client is that of its map. -/
def IsCurrent (c : Client) : Prop :=
  c.features = view c.scopes c.installed

theorem isCurrent_ofMap (scopes : List String) (map : Option FeatureMap) :
    (ofMap scopes map).IsCurrent :=
  rfl

theorem isCurrent_withScopes (h : c.IsCurrent) (scopes : List String) :
    (c.withScopes scopes).IsCurrent := by
  unfold withScopes
  split
  · exact h
  · exact isCurrent_ofMap _ _

theorem isCurrent_install (h : c.IsCurrent) (m : FeatureMap) : (c.install m).IsCurrent := by
  unfold install
  split
  · exact isCurrent_ofMap _ _
  · exact h

theorem scopes_install (c : Client) (m : FeatureMap) : (c.install m).scopes = c.scopes := by
  unfold install
  split <;> rfl

/-! ## Updates -/

/-- A written map is taken over, unless its version is installed already. -/
theorem update_write (c : Client) {m : FeatureMap} (hKept : m.features.Forall Value.IsKept)
    (hHeight : m.features.height ≤ FeatureMap.heightLimit) :
    c.update m.write = (.ok (c.needs m), c.install m) := by
  rw [update, FeatureMap.parse_write m hKept hHeight]

/-! ## Further scopes -/

/-- Scopes between others that ask for nothing change nothing. -/
theorem merged_append_nothing_append (m : FeatureMap) (own : List String) {scopes : List String}
    (h : asksForNothing scopes = true) (further : List String) :
    m.merged (own ++ scopes ++ further) = m.merged (own ++ further) := by
  have hCases : scopes = [] ∨ scopes = [""] := by simpa [asksForNothing] using h
  rcases hCases with rfl | rfl
  · rw [List.append_nil]
  · -- an empty scope is dropped before anything is looked for
    rw [← m.merged_filter, ← m.merged_filter (own ++ further)]
    simp

theorem merged_append_nothing (m : FeatureMap) {own scopes : List String}
    (h : asksForNothing scopes = true) : m.merged (own ++ scopes) = m.merged own := by
  simpa using merged_append_nothing_append m own h []

/-- The view of a client with further scopes. -/
theorem features_withScopes (h : c.IsCurrent) (scopes : List String) :
    (c.withScopes scopes).features = view (c.scopes ++ scopes) c.installed := by
  unfold withScopes
  split
  · next hNothing =>
    rw [h]
    cases c.installed with
    | none => rfl
    | some m => exact (merged_append_nothing m hNothing).symm
  · rfl

/-- What a client with further scopes answers: the value of the first scope that has one. -/
theorem get?_withScopes (h : c.IsCurrent) {m : FeatureMap} (hMap : c.installed = some m)
    (scopes : List String) (name : String) :
    (c.withScopes scopes).get? name =
      (FeatureMap.priorities (c.scopes ++ scopes)).findSome? fun scope =>
        (m.inScope scope).get? name := by
  rw [get?, features_withScopes h, hMap]
  exact FeatureMap.get?_merged m _ name

end FeatureFlags.Client
