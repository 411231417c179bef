import FeatureFlags.Proofs.FeatureMap.Document
import FeatureFlags.Proofs.FeatureMap.Restored

/-!
# Served documents

A flat view goes over the wire as a document with its values right under the root. Whoever receives
the document reads it back, and what it resolves once it is restored is the same view.

* `forall_merged` — what holds of every value of a map holds of every value of its views.
* `parse_served` — a served document is read back.
-/

namespace FeatureFlags.FeatureMap

/-- What holds of every value of a map holds of every value of its views. -/
theorem forall_merged {P : Value → Prop} {m : FeatureMap} (h : m.features.Forall P)
    (scopes : List String) : ∀ e ∈ (m.merged scopes).toList, P e.2 := by
  rintro ⟨name, v⟩ hMem
  have hGet := SortedMap.mem_toList_iff.1 hMem
  rw [get?_merged] at hGet
  obtain ⟨scope, -, hScope⟩ := List.exists_of_findSome?_eq_some hGet
  rw [get?_inScope] at hScope
  exact Tree.forall_leafAt h hScope

/-- A served document is read back. -/
theorem parse_served (root : String) (info : Option Info) {features : Features}
    (hKept : ∀ e ∈ features.toList, e.2.IsKept) :
    parse (served root info features).write = .ok (served root info features) := by
  apply parse_write
  · exact Tree.forall_ofLeaves hKept
  · show (Tree.ofLeaves features).height ≤ heightLimit
    rw [Tree.height_ofLeaves]
    decide

end FeatureFlags.FeatureMap
