import FeatureFlags.Client.Family
import FeatureFlags.Proofs.Client.Basic

/-!
# What the clients of a family show

A client keeps the flat view of its map and computes it anew in three places: when a map is
installed, when further scopes are asked for, and when a document is served for further scopes. The
three agree, whatever was done to the client before and whatever scopes are asked for.

Which handles stand for one client is told from what was done, without a look at the family
(`sharing`): a clone stands for the client of the handle it was made from, and so does what asking
for no scopes gives; every other handle stands for a client of its own.

* `features_withScopes_withScopes` — scopes can be asked for one after the other.
* `document_eq_served` — what is served is what a client with further scopes shows.
* `isSound_run` — the views are current and `sharing` is right after every run.
* `shown_run` — what all clients show after every run, and what an update changes.
-/

namespace FeatureFlags

/-! ## One client -/

namespace Client

variable {c : Client}

theorem installed_withScopes (c : Client) (scopes : List String) :
    (c.withScopes scopes).installed = c.installed := by
  unfold withScopes
  split
  · rfl
  · rfl

theorem isCurrent_update (h : c.IsCurrent) (bytes : Bytes) : (c.update bytes).2.IsCurrent := by
  unfold update
  split
  · exact isCurrent_install h _
  · exact h

/-- Scopes can be asked for one after the other. -/
theorem features_withScopes_withScopes (h : c.IsCurrent) (first second : List String) :
    ((c.withScopes first).withScopes second).features =
      (c.withScopes (first ++ second)).features := by
  rw [features_withScopes (isCurrent_withScopes h first), features_withScopes h,
    installed_withScopes]
  by_cases hNothing : asksForNothing first = true
  · -- the first client is `c` itself, without the empty scope that may have been asked for
    have hSame : c.withScopes first = c := if_pos hNothing
    rw [hSame]
    cases c.installed with
    | none => rfl
    | some m =>
      show m.merged _ = m.merged _
      rw [← List.append_assoc]
      exact (merged_append_nothing_append m c.scopes hNothing second).symm
  · have hScopes : (c.withScopes first).scopes = c.scopes ++ first := by
      rw [withScopes, if_neg hNothing]
      rfl
    rw [hScopes, List.append_assoc]

/-- What is served for further scopes is what a client with these scopes shows. -/
theorem document_eq_served (h : c.IsCurrent) (root : String) (scopes : List String) :
    c.document root scopes =
      .served root (c.installed.bind FeatureMap.info) (c.withScopes scopes).features := by
  rw [features_withScopes h]
  unfold document
  cases hMap : c.installed with
  | none =>
    simp only
    rw [h, hMap]
    rfl
  | some m =>
    simp only
    split
    · next hNil =>
      -- the view at hand is served instead of a computed one
      rw [hNil, List.append_nil, h, hMap]
    · rfl

end Client

namespace Family

/-! ## Steps -/

/-- What is done through the handles of a family. -/
inductive Step where
  /-- A handle gets a client without scopes and without a map. -/
  | make (new : String)
  | clone (handle new : String)
  | withScopes (handle : String) (scopes : List String) (new : String)
  | install (handle : String) (m : FeatureMap)
  | update (handle : String) (bytes : Bytes)

/-- The family after a step. -/
def apply (f : Family) : Step → Family
  | .make new => f.add new .new
  | .clone handle new => f.share handle new
  | .withScopes handle scopes new => f.derive handle scopes new
  | .install handle m => f.modify handle (·.install m)
  | .update handle bytes => f.modify handle fun c => (c.update bytes).2

/-- The family after one step after the other. -/
def run (steps : List Step) : Family :=
  steps.foldl apply .empty

/-! ## Sharing, told from the steps -/

/-- A handle is made that shares its client with none. -/
def alone (new : String) (shared : String → String → Bool) (a b : String) : Bool :=
  if a = new ∨ b = new then a = b else shared a b

/-- A handle is made that shares its client with another one, and with all that do so. -/
def likewise (handle new : String) (shared : String → String → Bool) (a b : String) : Bool :=
  shared (if a = new then handle else a) (if b = new then handle else b)

/-- Which handles share a client after a step, told from which did before it. A handle that nothing
is known of shares not even with itself, and nothing can be done through it. -/
def Step.sharing (shared : String → String → Bool) : Step → String → String → Bool
  | .make new => alone new shared
  | .clone handle new => if shared handle handle then likewise handle new shared else shared
  | .withScopes handle scopes new =>
    if shared handle handle then
      if Client.asksForNothing scopes then likewise handle new shared else alone new shared
    else shared
  | .install .. | .update .. => shared

/-- Which handles share a client after one step after the other. -/
def sharing (steps : List Step) : String → String → Bool :=
  steps.foldl Step.sharing fun _ _ => false

/-! ## Soundness -/

/-- Every handle has a client, every view is that of the map, and the handles that share a client
are as told. -/
structure IsSound (f : Family) (shared : String → String → Bool) : Prop where
  placed : ∀ {handle i}, f.handles.get? handle = some i → i < f.clients.length
  current : ∀ c ∈ f.clients, c.IsCurrent
  told : ∀ a b, shared a b = true ↔ ∃ i, f.handles.get? a = some i ∧ f.handles.get? b = some i

variable {f : Family} {shared : String → String → Bool}

theorem isSound_empty : IsSound .empty fun _ _ => false where
  placed := by
    intro handle i h
    cases h
  current := by
    intro c hMem
    cases hMem
  told := by
    intro a b
    simp [empty, SortedMap.get?_empty]

theorem IsSound.self_iff (h : f.IsSound shared) (handle : String) :
    shared handle handle = true ↔ (f.get? handle).isSome = true := by
  rw [h.told, get?]
  constructor
  · rintro ⟨i, hi, -⟩
    simp [hi, h.placed hi]
  · intro hSome
    cases hi : f.handles.get? handle with
    | none => simp [hi] at hSome
    | some i => exact ⟨i, rfl, rfl⟩

theorem IsSound.isCurrent (h : f.IsSound shared) {handle : String} {c : Client}
    (hGet : f.get? handle = some c) : c.IsCurrent := by
  obtain ⟨i, -, hi⟩ := Option.bind_eq_some_iff.1 hGet
  exact h.current c (List.mem_of_getElem? hi)

/-- A handle with a client of its own. -/
theorem isSound_add (h : f.IsSound shared) (new : String) {c : Client} (hCurrent : c.IsCurrent) :
    (f.add new c).IsSound (alone new shared) where
  placed := by
    intro handle i hGet
    change (f.handles.insert new f.clients.length).get? handle = some i at hGet
    show i < (f.clients ++ [c]).length
    rw [SortedMap.get?_insert] at hGet
    rw [List.length_append, List.length_singleton]
    split at hGet
    · cases hGet
      exact Nat.lt_succ_self _
    · exact Nat.lt_succ_of_lt (h.placed hGet)
  current := by
    intro c' hMem
    rcases List.mem_append.1 hMem with hOld | hNew
    · exact h.current c' hOld
    · rw [List.mem_singleton.1 hNew]
      exact hCurrent
  told := by
    intro a b
    show alone new shared a b = true ↔ ∃ i,
      (f.handles.insert new f.clients.length).get? a = some i ∧
        (f.handles.insert new f.clients.length).get? b = some i
    simp only [SortedMap.get?_insert, alone]
    -- no other handle stands at the end of the clients
    have hFree : ∀ handle, f.handles.get? handle ≠ some f.clients.length :=
      fun handle hGet => Nat.lt_irrefl _ (h.placed hGet)
    by_cases ha : a = new
    · by_cases hb : b = new
      · simp [ha, hb]
      · simp [ha, hb, Ne.symm hb, hFree]
    · by_cases hb : b = new
      · simp [ha, hb, hFree]
      · simp [ha, hb, h.told]

/-- A handle that shares the client of another one. -/
theorem isSound_share (h : f.IsSound shared) (handle new : String) :
    (f.share handle new).IsSound
      (if shared handle handle then likewise handle new shared else shared) := by
  cases hGet : f.handles.get? handle with
  | none =>
    have hNot : ¬shared handle handle = true := by
      rw [h.told]
      simp [hGet]
    rw [share, hGet, if_neg hNot]
    exact h
  | some i =>
    have hShared : shared handle handle = true := (h.told handle handle).2 ⟨i, hGet, hGet⟩
    -- the new handle stands where the old one does
    have hInsert : ∀ a, (f.handles.insert new i).get? a =
        f.handles.get? (if a = new then handle else a) := by
      intro a
      rw [SortedMap.get?_insert]
      by_cases ha : a = new
      · rw [if_pos ha, if_pos ha, hGet]
      · rw [if_neg ha, if_neg ha]
    rw [share, hGet, if_pos hShared]
    refine ⟨?_, h.current, ?_⟩
    · intro a j hj
      exact h.placed ((hInsert a).symm.trans hj)
    · intro a b
      simp only [hInsert]
      exact h.told _ _

/-- A handle for further scopes. -/
theorem isSound_derive (h : f.IsSound shared) (handle : String) (scopes : List String)
    (new : String) :
    (f.derive handle scopes new).IsSound
      ((Step.withScopes handle scopes new).sharing shared) := by
  unfold derive Step.sharing
  by_cases hNothing : Client.asksForNothing scopes = true
  · simp only [if_pos hNothing]
    exact isSound_share h handle new
  · simp only [if_neg hNothing]
    cases hGet : f.get? handle with
    | none =>
      have hNot : ¬shared handle handle = true := by simp [h.self_iff, hGet]
      simp only [if_neg hNot]
      exact h
    | some c =>
      have hShared : shared handle handle = true := by simp [h.self_iff, hGet]
      simp only [if_pos hShared]
      exact isSound_add h new (Client.isCurrent_withScopes (h.isCurrent hGet) scopes)

/-! ## Updates -/

/-- What an update through a handle changes: the clients of the handles that share with it. -/
theorem get?_modify (h : f.IsSound shared) (handle other : String) (change : Client → Client) :
    (f.modify handle change).get? other =
      if shared handle other then (f.get? other).map change else f.get? other := by
  cases hPlace : f.handles.get? handle with
  | none =>
    have hNot : ¬shared handle other = true := by
      rw [h.told]
      simp [hPlace]
    simp [modify, get?, hPlace, hNot]
  | some i =>
    have hLt : i < f.clients.length := h.placed hPlace
    have hModify : f.modify handle change =
        { f with clients := f.clients.set i (change f.clients[i]) } := by
      simp [modify, get?, set, hPlace, hLt]
    rw [hModify]
    show ((f.handles.get? other).bind fun j => (f.clients.set i (change f.clients[i]))[j]?) = _
    cases hOther : f.handles.get? other with
    | none => simp [get?, hOther]
    | some j =>
      have hShared : shared handle other = true ↔ i = j := by
        rw [h.told]
        simp [hPlace, hOther, eq_comm]
      rw [Option.bind_some, List.getElem?_set]
      by_cases hij : i = j
      · subst hij
        rw [if_pos rfl, if_pos hLt, if_pos (hShared.2 rfl)]
        simp [get?, hOther, hLt]
      · rw [if_neg hij, if_neg (mt hShared.1 hij)]
        simp [get?, hOther]

theorem isSound_modify (h : f.IsSound shared) (handle : String) {change : Client → Client}
    (hChange : ∀ c : Client, c.IsCurrent → (change c).IsCurrent) :
    (f.modify handle change).IsSound shared := by
  unfold modify
  split
  · next c hGet =>
    obtain ⟨i, hPlace, -⟩ := Option.bind_eq_some_iff.1 hGet
    rw [set, hPlace]
    refine ⟨?_, ?_, h.told⟩
    · intro a j hj
      show j < (f.clients.set i (change c)).length
      rw [List.length_set]
      exact h.placed hj
    · intro c' hMem
      rcases List.mem_or_eq_of_mem_set hMem with hOld | hNew
      · exact h.current c' hOld
      · rw [hNew]
        exact hChange c (h.isCurrent hGet)
  · exact h

/-! ## Runs -/

/-- Every step keeps a family sound. -/
theorem isSound_apply (h : f.IsSound shared) (step : Step) :
    (f.apply step).IsSound (step.sharing shared) := by
  cases step with
  | make new => exact isSound_add h new (Client.isCurrent_ofMap [] none)
  | clone handle new => exact isSound_share h handle new
  | withScopes handle scopes new => exact isSound_derive h handle scopes new
  | install handle m =>
    exact isSound_modify h handle fun c hCurrent => Client.isCurrent_install hCurrent m
  | update handle bytes =>
    exact isSound_modify h handle fun c hCurrent => Client.isCurrent_update hCurrent bytes

theorem isSound_foldl (h : f.IsSound shared) (steps : List Step) :
    (steps.foldl apply f).IsSound (steps.foldl Step.sharing shared) := by
  induction steps generalizing f shared with
  | nil => exact h
  | cons step steps ih => exact ih (isSound_apply h step)

/-- Every run leaves a sound family. -/
theorem isSound_run (steps : List Step) : (run steps).IsSound (sharing steps) :=
  isSound_foldl isSound_empty steps

/-- After every run the handles that share are those that stand for one client. Every client shows
the view of its map, whether the view is kept, computed for a document or asked for in several
turns. Installing a map or bytes through a handle changes the clients of those that share with it,
and of no other. -/
theorem shown_run (steps : List Step) :
    (∀ handle, (∃ c, (run steps).get? handle = some c) ↔ sharing steps handle handle = true) ∧
    (∀ a b, sharing steps a b = true → (run steps).get? a = (run steps).get? b) ∧
    (∀ handle c, (run steps).get? handle = some c →
      c.features = Client.view c.scopes c.installed ∧
      (∀ root scopes, c.document root scopes =
        .served root (c.installed.bind FeatureMap.info) (c.withScopes scopes).features) ∧
      ∀ first second, ((c.withScopes first).withScopes second).features =
        (c.withScopes (first ++ second)).features) ∧
    (∀ handle m other, (run (steps ++ [.install handle m])).get? other =
      if sharing steps handle other then ((run steps).get? other).map (·.install m)
      else (run steps).get? other) ∧
    ∀ handle bytes other, (run (steps ++ [.update handle bytes])).get? other =
      if sharing steps handle other then ((run steps).get? other).map fun c => (c.update bytes).2
      else (run steps).get? other := by
  have hSound := isSound_run steps
  have hLast : ∀ step, run (steps ++ [step]) = (run steps).apply step := by
    intro step
    simp [run]
  refine ⟨?_, ?_, ?_, ?_, ?_⟩
  · intro handle
    rw [hSound.self_iff, Option.isSome_iff_exists]
  · intro a b hShared
    obtain ⟨i, ha, hb⟩ := (hSound.told a b).1 hShared
    simp [get?, ha, hb]
  · intro handle c hGet
    have hCurrent := hSound.isCurrent hGet
    exact ⟨hCurrent, Client.document_eq_served hCurrent,
      Client.features_withScopes_withScopes hCurrent⟩
  · intro handle m other
    rw [hLast]
    exact get?_modify hSound handle other (·.install m)
  · intro handle bytes other
    rw [hLast]
    exact get?_modify hSound handle other fun c => (c.update bytes).2

end Family

end FeatureFlags
