import FeatureFlags.Proofs.Http.Header
import FeatureFlags.Proofs.Text.Segments
import FeatureFlags.RequestedScopes

/-!
# Scopes on the way

Names that can be asked for come through a header unharmed: written with commas in between and read
again they are the same names, each of them once.

* `parse_join` — what is asked for is what is understood.
-/

namespace FeatureFlags.RequestedScopes

/-- Whether a scope can be asked for by its name. -/
structure IsAskable (scope : String) : Prop where
  ne : scope ≠ ""
  visible : ∀ c ∈ scope.toList, Http.isVisible c = true
  no_comma : ',' ∉ scope.toList
  trimmed : Text.trim scope = scope

variable {scopes : List String}

/-- What holds of a comma and of every character of the names holds of every character of the
list. -/
theorem forall_join {P : Char → Prop} (hComma : P ',')
    (h : ∀ scope ∈ scopes, ∀ c ∈ scope.toList, P c) : ∀ c ∈ (join scopes).toList, P c := by
  induction scopes with
  | nil =>
    intro c hc
    cases hc
  | cons scope rest ih =>
    have hFirst := h scope List.mem_cons_self
    have hRest := ih fun other hOther => h other (List.mem_cons_of_mem _ hOther)
    by_cases hNil : rest = []
    · rw [hNil, join, String.intercalate_singleton]
      exact hFirst
    · have hCons : join (scope :: rest) = scope ++ "," ++ join rest :=
        String.intercalate_append_of_ne_nil (List.cons_ne_nil scope []) hNil
      intro c hc
      rw [hCons, String.toList_append, String.toList_append, List.mem_append, List.mem_append] at hc
      rcases hc with (hc | hc) | hc
      · exact hFirst c hc
      · rw [List.mem_singleton.1 hc]
        exact hComma
      · exact hRest c hc

theorem isVisible_join (h : ∀ scope ∈ scopes, IsAskable scope) :
    ∀ c ∈ (join scopes).toList, Http.isVisible c = true :=
  forall_join rfl fun scope hScope => (h scope hScope).visible

/-- Whether a text is found again as an entry of a written list. -/
structure IsEntry (entry : String) : Prop where
  ne : entry ≠ ""
  no_comma : ',' ∉ entry.toList
  trimmed : Text.trim entry = entry

theorem IsAskable.isEntry {scope : String} (h : IsAskable scope) : IsEntry scope :=
  ⟨h.ne, h.no_comma, h.trimmed⟩

theorem entries_join (hNe : scopes ≠ []) (h : ∀ scope ∈ scopes, IsEntry scope) :
    entries (join scopes) = scopes := by
  rw [entries, join, Path.splitAt_intercalate rfl hNe fun scope hScope => (h scope hScope).no_comma,
    List.map_congr_left (g := id) fun scope hScope => (h scope hScope).trimmed, List.map_id]

/-- Of a written list the first few different entries are understood. -/
theorem parse_join_eq_take (h : ∀ scope ∈ scopes, IsEntry scope) :
    parse (join scopes) = scopes.eraseDups.take limit := by
  by_cases hNil : scopes = []
  · -- the list of nothing is written as the list of an empty entry
    rw [hNil]
    rfl
  · have hSolid : scopes.filter (· ≠ "") = scopes := by
      rw [List.filter_eq_self]
      exact fun scope hScope => decide_eq_true (h scope hScope).ne
    rw [parse, entries_join hNil h, hSolid]

/-- What is asked for is what is understood, as long as it is not too much. -/
theorem parse_join (h : ∀ scope ∈ scopes, IsAskable scope)
    (hFew : scopes.eraseDups.length ≤ limit) : parse (join scopes) = scopes.eraseDups := by
  rw [parse_join_eq_take fun scope hScope => (h scope hScope).isEntry,
    List.take_of_length_le hFew]

end FeatureFlags.RequestedScopes
