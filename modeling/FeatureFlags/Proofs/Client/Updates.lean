import FeatureFlags.Client.Basic
import Mathlib.Data.List.DropRight

/-!
# Payload after payload

A client is handed payloads one after the other. Those that are no maps count for nothing. Of the
others the last one decides about the version, but not always about the map: a map of the version
that is installed already is not taken over, so of maps that share their version the first one
stays. Maps without a version are taken over always.

* `kept` — which of many maps a fresh client ends up with, told from the maps alone.
* `updateAll_ofMap` — a fresh client after any payloads is the client of that map.
* `updateAll_fresh` — what is installed in the end, and that bad payloads leave it alone.
-/

namespace FeatureFlags.Client

variable {c : Client}

/-! ## The last maps -/

/-- The maps among payloads, in their order. -/
def mapsOf (payloads : List Bytes) : List FeatureMap :=
  payloads.filterMap fun bytes => (FeatureMap.parse bytes).toOption

/-- The version of the last of many maps, empty when there is none. -/
def lastVersion (maps : List FeatureMap) : String :=
  maps.getLast?.elim "" FeatureMap.version

/-- The maps at the end of a list that all have the version of the last one. -/
def lastRun (maps : List FeatureMap) : List FeatureMap :=
  maps.rtakeWhile fun m => m.version = lastVersion maps

/-- The map that is kept of maps that came one after the other: the first one of the last run, or
the last one if it has no version. -/
def kept (maps : List FeatureMap) : Option FeatureMap :=
  if lastVersion maps = "" then maps.getLast? else (lastRun maps).head?

@[simp]
theorem lastVersion_concat (maps : List FeatureMap) (m : FeatureMap) :
    lastVersion (maps ++ [m]) = m.version := by
  simp [lastVersion]

theorem lastRun_concat (maps : List FeatureMap) (m : FeatureMap) :
    lastRun (maps ++ [m]) = maps.rtakeWhile (fun m' => m'.version = m.version) ++ [m] := by
  rw [lastRun, lastVersion_concat]
  exact List.rtakeWhile_concat_pos _ _ _ (by simp)

/-- A map of the version that came last makes the run longer. -/
theorem lastRun_concat_of_eq {maps : List FeatureMap} {m : FeatureMap}
    (hVersion : lastVersion maps = m.version) : lastRun (maps ++ [m]) = lastRun maps ++ [m] := by
  rw [lastRun_concat, lastRun, hVersion]

/-- A map of another version begins a run. -/
theorem lastRun_concat_of_ne {maps : List FeatureMap} {m : FeatureMap}
    (hVersion : lastVersion maps ≠ m.version) : lastRun (maps ++ [m]) = [m] := by
  have hNone : maps.rtakeWhile (fun m' => m'.version = m.version) = [] := by
    rcases List.eq_nil_or_concat' maps with rfl | ⟨before, last, rfl⟩
    · rfl
    · rw [lastVersion_concat] at hVersion
      exact List.rtakeWhile_concat_neg _ _ _ (by simpa using hVersion)
  rw [lastRun_concat, hNone, List.nil_append]

theorem lastRun_ne_nil {maps : List FeatureMap} (hNe : maps ≠ []) : lastRun maps ≠ [] := by
  obtain ⟨before, last, rfl⟩ := (List.eq_nil_or_concat' maps).resolve_left hNe
  simp [lastRun_concat]

/-- One more map is what is kept, unless it has the version that came last. -/
theorem kept_concat (maps : List FeatureMap) (m : FeatureMap) :
    kept (maps ++ [m]) =
      if lastVersion maps = "" ∨ lastVersion maps ≠ m.version then some m else kept maps := by
  rw [kept, lastVersion_concat, List.getLast?_concat]
  by_cases hSame : lastVersion maps = m.version
  · by_cases hEmpty : m.version = ""
    · -- maps without a version follow one another
      rw [if_pos hEmpty, if_pos (.inl (hSame.trans hEmpty))]
    · -- the run goes on, and its first map stays
      have hKnown : lastVersion maps ≠ "" := hSame.trans_ne hEmpty
      have hNe : maps ≠ [] := by
        rintro rfl
        exact hKnown rfl
      rw [if_neg hEmpty, lastRun_concat_of_eq hSame,
        List.head?_append_of_ne_nil _ (lastRun_ne_nil hNe), if_neg (by simp [hSame, hEmpty]),
        kept, if_neg hKnown]
  · -- a run begins, if the map has a version
    rw [lastRun_concat_of_ne hSame, List.head?_cons, ite_self, if_pos (.inr hSame)]

/-- What is kept has the version that came last. -/
theorem version_kept (maps : List FeatureMap) :
    (kept maps).elim "" FeatureMap.version = lastVersion maps := by
  induction maps using List.reverseRecOn with
  | nil => rfl
  | append_singleton maps m ih =>
    rw [kept_concat, lastVersion_concat]
    split
    · rfl
    · next hKnown =>
      rw [ih]
      by_contra hOther
      exact hKnown (.inr hOther)

theorem isSome_kept {maps : List FeatureMap} (hNe : maps ≠ []) : (kept maps).isSome = true := by
  rw [kept]
  split
  · simpa using hNe
  · simpa using lastRun_ne_nil hNe

/-! ## Updates -/

theorem updateAll_append (c : Client) (first second : List Bytes) :
    c.updateAll (first ++ second) = (c.updateAll first).updateAll second := by
  rw [updateAll, List.foldl_append]
  rfl

/-- Only the maps among payloads count. -/
theorem updateAll_eq_foldl (c : Client) (payloads : List Bytes) :
    c.updateAll payloads = (mapsOf payloads).foldl install c := by
  induction payloads generalizing c with
  | nil => rfl
  | cons bytes payloads ih =>
    show (c.update bytes).2.updateAll payloads = _
    rw [ih, mapsOf, mapsOf, List.filterMap_cons, update]
    cases FeatureMap.parse bytes with
    | error e => rfl
    | ok m => rfl

/-- A fresh client that is handed maps has what is kept of them. -/
theorem foldl_install_ofMap (scopes : List String) (maps : List FeatureMap) :
    maps.foldl install (ofMap scopes none) = ofMap scopes (kept maps) := by
  -- by induction from the end: the last map meets the version that came before it
  induction maps using List.reverseRecOn with
  | nil => rfl
  | append_singleton maps m ih =>
    have hVersion : (ofMap scopes (kept maps)).version = lastVersion maps := version_kept maps
    rw [List.foldl_append, ih, kept_concat]
    show (ofMap scopes (kept maps)).install m = _
    unfold install needs
    rw [hVersion]
    by_cases hNews : lastVersion maps = "" ∨ lastVersion maps ≠ m.version
    · rw [if_pos hNews, if_pos (by simpa using hNews)]
      rfl
    · rw [if_neg hNews, if_neg (by simpa using hNews)]

/-- A fresh client that is handed payloads is the client of what is kept of the maps among them. -/
theorem updateAll_ofMap (scopes : List String) (payloads : List Bytes) :
    (ofMap scopes none).updateAll payloads = ofMap scopes (kept (mapsOf payloads)) := by
  rw [updateAll_eq_foldl, foldl_install_ofMap]

theorem isReady_install (c : Client) (m : FeatureMap) (h : c.isReady = true) :
    (c.install m).isReady = true := by
  unfold install
  split
  · rfl
  · exact h

/-- A client that is ready stays so. -/
theorem isReady_updateAll (h : c.isReady = true) (payloads : List Bytes) :
    (c.updateAll payloads).isReady = true := by
  rw [updateAll_eq_foldl]
  induction mapsOf payloads generalizing c with
  | nil => exact h
  | cons m maps ih => exact ih (isReady_install c m h)

/-- Whatever a fresh client has been handed, a payload that is no map leaves it as it is. If there
was a map among the payloads, the client is ready and has the version of the last one; what is
installed is the first map of the last run of that version, or the last map if it has no version.
A client that is ready once stays so. -/
theorem updateAll_fresh (scopes : List String) (payloads : List Bytes) :
    (∀ bytes e, FeatureMap.parse bytes = .error e →
      ((ofMap scopes none).updateAll payloads).update bytes =
        (.error e, (ofMap scopes none).updateAll payloads)) ∧
    (∀ last, (mapsOf payloads).getLast? = some last →
      ((ofMap scopes none).updateAll payloads).isReady = true ∧
      ((ofMap scopes none).updateAll payloads).version = last.version ∧
      ((ofMap scopes none).updateAll payloads).installed =
        if last.version = "" then some last else (lastRun (mapsOf payloads)).head?) ∧
    (((ofMap scopes none).updateAll payloads).isReady = true →
      ∀ further, ((ofMap scopes none).updateAll (payloads ++ further)).isReady = true) := by
  refine ⟨?_, ?_, ?_⟩
  · intro bytes e hParse
    rw [update, hParse]
  · intro last hLast
    have hNe : mapsOf payloads ≠ [] := by
      intro hNil
      rw [hNil] at hLast
      cases hLast
    have hVersion : lastVersion (mapsOf payloads) = last.version := by
      rw [lastVersion, hLast]
      rfl
    have hKept : kept (mapsOf payloads) =
        if last.version = "" then some last else (lastRun (mapsOf payloads)).head? := by
      rw [kept, hVersion, hLast]
    rw [updateAll_ofMap]
    exact ⟨isSome_kept hNe, (version_kept _).trans hVersion, hKept⟩
  · intro hReady further
    rw [updateAll_append]
    exact isReady_updateAll hReady further

/-- Of two maps of one version the first one stays, also if it comes after another version. -/
example :
    let m := FeatureMap.empty "dcdr"
    kept [m.setInfo ⟨"aa", 1⟩, m.setInfo ⟨"bb", 2⟩, m.setInfo ⟨"aa", 3⟩, m.setInfo ⟨"aa", 4⟩] =
      some (m.setInfo ⟨"aa", 3⟩) := by
  decide

end FeatureFlags.Client
