import FeatureFlags.Client.Editable
import FeatureFlags.Proofs.Client.Basic
import FeatureFlags.Proofs.Snapshot.Filing
import FeatureFlags.Proofs.Tree.Apart

/-!
# What edits come to

A client for tests answers as if every scope had a store of its own: what a feature was last set to
in a scope is what those see who ask for that scope, and whoever asks for a scope in which it was
never set sees what it was last set to by default. For this no edit may need the place of another
one, by setting a feature where others have a scope. Nothing depends on when the edits were made,
because no map is taken for the one that is installed already.

* `Edit`, `run` — the edits of a client, and the client after them.
* `Agree` — which edits get along with each other.
* `lastSet` — what a feature was last set to in a scope.
* `isEdited_run` — the map after any edits, and that it is the one that is installed.
* `run_resolves` — what a client answers after edits that agree.
-/

namespace FeatureFlags

namespace Client

/-- Whether a client answers as if these were the values of the features, whatever it is asked. -/
structure Answers (c : Client) (value : String → Option Value) : Prop where
  resolved : ∀ feature, c.get? feature = value feature
  available : ∀ feature, c.isAvailable feature = true ↔ value feature = some (.bool true)
  included : ∀ feature id, c.isAvailableFor feature id = true ↔
    ∃ share, value feature = some (.number share) ∧ Rollout.includes feature id share = true
  scaled : ∀ feature low high x, value feature = some (.number x) →
    c.scale feature low high = low + (high - low) * x
  unscaled : ∀ feature low high, (∀ x, value feature ≠ some (.number x)) →
    c.scale feature low high = low
  known : ∀ feature, c.has feature = true ↔ value feature ≠ none

/-- All answers follow from the values. -/
theorem answers_of_get? {c : Client} {value : String → Option Value}
    (h : ∀ feature, c.get? feature = value feature) : c.Answers value := by
  refine ⟨h, ?_, ?_, ?_, ?_, ?_⟩
  · intro feature
    rw [isAvailable, h, decide_eq_true_iff]
  · intro feature id
    rw [isAvailableFor, h]
    -- only a number is the share of a rollout
    rcases value feature with _ | ⟨b⟩ | ⟨x⟩ | ⟨s⟩ <;> simp
  · intro feature low high x hValue
    rw [scale, h, hValue]
  · intro feature low high hNone
    rw [scale, h]
    split
    · next x hValue => exact absurd hValue (hNone x)
    · rfl
  · intro feature
    have hGet : c.features.get? feature = value feature := h feature
    rw [has, SortedMap.contains, hGet, ← Option.isSome_iff_ne_none]

end Client

namespace EditableClient

/-! ## Edits -/

/-- One edit of a client. -/
inductive Edit where
  | switch (feature : String) (enabled : Bool)
  | rollOut (feature : String) (toEverybody : Bool)
  | set (scope feature : String) (value : Value)

namespace Edit

/-- The scope in which a feature is set. -/
def scope : Edit → String
  | switch _ _ | rollOut _ _ => defaultScope
  | set scope _ _ => scope

/-- The feature that is set. -/
def feature : Edit → String
  | switch feature _ | rollOut feature _ | set _ feature _ => feature

/-- What the feature is set to. -/
def value : Edit → Value
  | switch _ enabled => .bool enabled
  | rollOut _ toEverybody => .number (if toEverybody then 1 else 0)
  | set _ _ value => value

/-- Where the feature is set: the segments of its scope, and then its name. -/
def path (edit : Edit) : List String :=
  Path.segments edit.scope ++ [edit.feature]

/-- The leaf that the feature becomes. -/
def leaf (edit : Edit) : Tree.Leaf Value :=
  ⟨Path.solidSegments edit.scope, edit.feature, edit.value⟩

end Edit

/-- The client after an edit. -/
def apply (e : EditableClient) : Edit → EditableClient
  | .switch feature enabled => e.switch feature enabled
  | .rollOut feature toEverybody => e.rollOut feature toEverybody
  | .set scope feature value => e.set scope feature value

/-- The client after one edit after the other. -/
def run (edits : List Edit) : EditableClient :=
  edits.foldl apply new

theorem apply_eq (e : EditableClient) (edit : Edit) :
    e.apply edit = e.set edit.scope edit.feature edit.value := by
  cases edit <;> rfl

/-- What a feature was last set to in a scope. -/
def lastSet (edits : List Edit) (scope feature : String) : Option Value :=
  (edits.reverse.find? fun edit => edit.scope = scope ∧ edit.feature = feature).map Edit.value

/-- Whether edits agree: none of their scopes has an empty segment, and no feature is set where
another one has its scope. -/
structure Agree (edits : List Edit) : Prop where
  solid : ∀ edit ∈ edits, "" ∉ Path.segments edit.scope
  apart : ∀ edit ∈ edits, ∀ other ∈ edits, edit.path <+: other.path → edit.path = other.path

/-! ## The map after edits -/

/-- Whether a client has the map that edits make, and has it installed. -/
structure IsEdited (e : EditableClient) (edits : List Edit) : Prop where
  client : e.client = .ofMap [] (some e.map)
  info : e.map.info = none
  features : e.map.features =
    (FeatureMap.empty defaultRoot).features.insertAll (edits.map Edit.leaf)

variable {e : EditableClient} {edits : List Edit}

theorem isEdited_new : new.IsEdited [] :=
  ⟨rfl, rfl, rfl⟩

/-- A map without a version is always taken over. -/
theorem install_of_info_eq_none {c : Client} {m m' : FeatureMap} (h : m.info = none)
    (hClient : c = .ofMap [] (some m)) : c.install m' = .ofMap [] (some m') := by
  have hVersion : c.version = "" := by
    rw [hClient, Client.version, Client.ofMap, Option.elim_some, FeatureMap.version, h,
      Option.elim_none]
  have hNeeds : c.needs m' = true := by simp [Client.needs, hVersion]
  rw [Client.install, if_pos hNeeds, hClient]
  rfl

theorem IsEdited.apply (h : e.IsEdited edits) (edit : Edit) :
    (e.apply edit).IsEdited (edits ++ [edit]) := by
  rw [apply_eq]
  refine ⟨install_of_info_eq_none h.info h.client, h.info, ?_⟩
  show e.map.features.insertAt _ _ _ = _
  rw [h.features, List.map_append, Snapshot.insertAll_append]
  rfl

/-- Whatever the edits, the map that they make is installed. -/
theorem isEdited_run (edits : List Edit) : (run edits).IsEdited edits := by
  induction edits using List.reverseRecOn with
  | nil => exact isEdited_new
  | append_singleton edits edit ih =>
    rw [run, List.foldl_append]
    exact ih.apply edit

/-! ## What is resolved -/

theorem Agree.leaf_path (h : Agree edits) {edit : Edit} (hMem : edit ∈ edits) :
    edit.leaf.path = edit.path := by
  have hSolid : Path.solidSegments edit.scope = Path.segments edit.scope :=
    Path.solidSegments_eq_iff.2 (h.solid edit hMem)
  rw [Tree.Leaf.path, Edit.leaf, Edit.path, hSolid]

/-- Edits set the same place if they set the same feature in the same scope. -/
theorem Edit.path_eq_iff {edit : Edit} {scope feature : String} :
    edit.path = Path.segments scope ++ [feature] ↔
      edit.scope = scope ∧ edit.feature = feature := by
  constructor
  · intro hPath
    obtain ⟨hScope, hFeature⟩ := List.append_inj' hPath rfl
    exact ⟨Path.segments_injective hScope, by simpa using hFeature⟩
  · rintro ⟨rfl, rfl⟩
    rfl

theorem Agree.lastAt_eq (h : Agree edits) (scope feature : String) :
    Tree.lastAt (edits.map Edit.leaf) (Path.segments scope ++ [feature]) =
      lastSet edits scope feature := by
  rw [Tree.lastAt, lastSet, ← List.map_reverse, List.find?_map, Option.map_map]
  have hSame : ∀ edit ∈ edits.reverse,
      decide (edit.leaf.path = Path.segments scope ++ [feature]) =
        decide (edit.scope = scope ∧ edit.feature = feature) := by
    intro edit hMem
    rw [h.leaf_path (List.mem_reverse.1 hMem), decide_eq_decide, Edit.path_eq_iff]
  congr 1
  exact List.find?_congr hSame

/-- In every scope a feature has the value that it was last set to there. -/
theorem Agree.get?_inScope (h : Agree edits) (scope feature : String) :
    ((run edits).map.inScope scope).get? feature = lastSet edits scope feature := by
  rw [FeatureMap.get?_inScope, (isEdited_run edits).features,
    Tree.leafAt_insertAll_eq_lastAt (Snapshot.leafAt_emptyMap defaultRoot), h.lastAt_eq]
  intro l hl l' hl' hOn
  obtain ⟨edit, hEdit, rfl⟩ := List.mem_map.1 hl
  obtain ⟨other, hOther, rfl⟩ := List.mem_map.1 hl'
  rw [h.leaf_path hEdit, h.leaf_path hOther] at hOn ⊢
  exact h.apart edit hEdit other hOther hOn

/-- The empty scope is not among those in which something was set. -/
theorem Agree.lastSet_empty (h : Agree edits) (feature : String) :
    lastSet edits "" feature = none := by
  rw [lastSet, Option.map_eq_none_iff, List.find?_eq_none]
  intro edit hMem hHere
  have hScope : edit.scope = "" := (of_decide_eq_true hHere).1
  have hSegment : "" ∈ Path.segments edit.scope := by
    rw [hScope, Path.segments_of_not_mem (by simp)]
    exact List.mem_cons_self
  exact h.solid edit (List.mem_reverse.1 hMem) hSegment

/-- After edits that agree a client resolves every feature to what it was last set to by default.
A client for a further scope resolves it to what it was last set to in that scope, if it ever was;
if not, to what it was last set to by default. -/
theorem run_resolves (h : Agree edits) :
    (run edits).client.Answers (lastSet edits defaultScope) ∧
    ∀ scope, ((run edits).client.withScopes [scope]).Answers fun feature =>
      (lastSet edits scope feature).or (lastSet edits defaultScope feature) := by
  have hClient := (isEdited_run edits).client
  have hCurrent : (run edits).client.IsCurrent := hClient ▸ Client.isCurrent_ofMap _ _
  have hMap : (run edits).client.installed = some (run edits).map := by rw [hClient]; rfl
  have hScopes : (run edits).client.scopes = [] := by rw [hClient]; rfl
  -- what is asked in any scopes is asked of the last edits in these scopes
  have hGet : ∀ scopes feature, ((run edits).client.withScopes scopes).get? feature =
      (FeatureMap.priorities scopes).findSome? fun scope => lastSet edits scope feature := by
    intro scopes feature
    rw [Client.get?_withScopes hCurrent hMap, hScopes, List.nil_append]
    simp only [h.get?_inScope]
  refine ⟨Client.answers_of_get? fun feature => ?_, fun scope =>
    Client.answers_of_get? fun feature => ?_⟩
  · -- asking for no scopes changes nothing
    have hOwn := hGet [] feature
    simpa [FeatureMap.priorities, Client.withScopes, Client.asksForNothing] using hOwn
  · rw [hGet]
    by_cases hEmpty : scope = ""
    · subst hEmpty
      simp [FeatureMap.priorities, h.lastSet_empty, defaultScope]
    by_cases hDefault : scope = defaultScope
    · subst hDefault
      simp [FeatureMap.priorities, hEmpty]
    · have hOrder : FeatureMap.priorities [scope] = [scope, defaultScope] := by
        simp [FeatureMap.priorities, hEmpty, Ne.symm hDefault]
      rw [hOrder, List.findSome?_cons, List.findSome?_singleton]
      cases lastSet edits scope feature <;> rfl

/-- A feature that is switched on, and off in one scope, is on for all other scopes. -/
theorem run_resolves_switchedOff :
    Agree [.switch "flag" true, .set "cc/de" "flag" (.bool false)] ∧
      ∀ c : Client, c = (run [.switch "flag" true, .set "cc/de" "flag" (.bool false)]).client →
        c.isAvailable "flag" = true ∧ (c.withScopes ["cc/de"]).isAvailable "flag" ≠ true ∧
          (c.withScopes ["cc/fr"]).isAvailable "flag" = true := by
  have hAgree : Agree [.switch "flag" true, .set "cc/de" "flag" (.bool false)] :=
    ⟨by decide +kernel, by decide +kernel⟩
  refine ⟨hAgree, ?_⟩
  rintro c rfl
  obtain ⟨hOwn, hScoped⟩ := run_resolves hAgree
  refine ⟨(hOwn.available "flag").2 ?_, mt ((hScoped "cc/de").available "flag").1 ?_,
    ((hScoped "cc/fr").available "flag").2 ?_⟩
  · decide +kernel
  · decide +kernel
  · decide +kernel

end EditableClient

end FeatureFlags
