import FeatureFlags.Watcher.Basic

/-!
# What watchers do

What the operations of a watcher lead to, said of one operation at a time.

* `init_cases`, `watch_cases` — starting to watch, and the beginning of the loop.
* `deliver_known`, `deliver_news` — what becomes of a reading.
* `isRelevant_rearm` — what was worth a reading stays worth one.
* `handle_pending` — handling as its parts, one after the other.
-/

namespace FeatureFlags.Watcher

variable {w : Watcher} {bytes : Bytes} {folder : List String}

/-! ## Starting -/

theorem init_eq {d : Disk} (w : Watcher) (hRead : d.read w.path = .ok bytes)
    (hFolder : d.folder w.folderPath = .ok folder) : w.init d = (.ok (), w.arm folder bytes) := by
  unfold init
  rw [hRead, hFolder]
  rfl

/-- Initialising arms the watcher, or it fails and leaves all but the state alone. -/
theorem init_cases (w : Watcher) (d : Disk) :
    (∃ bytes folder, d.read w.path = .ok bytes ∧ d.folder w.folderPath = .ok folder ∧
      w.init d = (.ok (), w.arm folder bytes)) ∨
    ∃ e, w.init d = (.error (.setup e), { w with state := .failed }) := by
  cases hRead : d.read w.path with
  | error e =>
    right
    refine ⟨e, ?_⟩
    rw [init, hRead]
    rfl
  | ok bytes =>
    cases hFolder : d.folder w.folderPath with
    | error e =>
      right
      refine ⟨e, ?_⟩
      rw [init, hRead, hFolder]
      rfl
    | ok folder => exact .inl ⟨bytes, folder, rfl, rfl, init_eq w hRead hFolder⟩

/-- Initialising succeeds just when the file can be read and its directory is there. -/
theorem init_eq_ok_iff {d : Disk} {armed : Watcher} :
    w.init d = (.ok (), armed) ↔ ∃ bytes folder, d.read w.path = .ok bytes ∧
      d.folder w.folderPath = .ok folder ∧ armed = w.arm folder bytes := by
  constructor
  · intro h
    rcases w.init_cases d with ⟨bytes, folder, hRead, hFolder, hInit⟩ | ⟨e, hInit⟩
    · rw [hInit] at h
      cases h
      exact ⟨bytes, folder, hRead, hFolder, rfl⟩
    · rw [hInit] at h
      cases h
  · rintro ⟨bytes, folder, hRead, hFolder, rfl⟩
    exact init_eq w hRead hFolder

/-- The loop begins if the watcher is initialised, somebody is registered and no loop has taken the
reports. If only the last is missing, the subscriber is taken over all the same. -/
theorem watch_cases (w : Watcher) :
    (w.state ≠ .watching ∧ w.watch = (.error .notInitialized, w)) ∨
    (w.state = .watching ∧ w.subscriber = none ∧ w.watch = (.error .notRegistered, w)) ∨
    (w.state = .watching ∧ w.subscriber ≠ none ∧ w.reports ≠ .waiting ∧
      w.watch = (.error .notInitialized, { w with subscriber := none })) ∨
    (w.state = .watching ∧ w.subscriber ≠ none ∧ w.reports = .waiting ∧
      w.watch = (.ok (),
        { w with
          subscriber := none
          reports := .taken
          loop := if w.isClosed then none else w.subscriber })) := by
  by_cases hState : w.state = .watching
  · cases hSubscriber : w.subscriber with
    | none => exact .inr (.inl ⟨hState, rfl, by simp [watch, hState, hSubscriber]⟩)
    | some s =>
      by_cases hReports : w.reports = .waiting
      · exact .inr (.inr (.inr ⟨hState, by simp, hReports,
          by simp [watch, hState, hSubscriber, hReports]⟩))
      · exact .inr (.inr (.inl ⟨hState, by simp, hReports,
          by simp [watch, hState, hSubscriber, hReports]⟩))
  · exact .inl ⟨hState, by simp [watch, hState]⟩

/-- Beginning the loop leaves alone what is watched and what is taken for known. -/
theorem watch_eq {running : Watcher} (h : w.watch = (.ok (), running)) :
    running.folders = w.folders ∧ running.lastDelivered = w.lastDelivered := by
  rcases w.watch_cases with ⟨-, hWatch⟩ | ⟨-, -, hWatch⟩ | ⟨-, -, -, hWatch⟩ | ⟨-, -, -, hWatch⟩
  all_goals
    rw [hWatch] at h
    cases h
  exact ⟨rfl, rfl⟩

/-! ## Delivering -/

/-- What was delivered last is nothing to tell anybody. -/
theorem deliver_known (hNe : bytes ≠ []) (hKnown : w.lastDelivered = some bytes)
    (isListening : Bool) : w.deliver (.ok bytes) isListening = (.unchanged, w) := by
  cases bytes with
  | nil => exact absurd rfl hNe
  | cons b rest => exact if_pos hKnown

/-- All else is delivered to whoever listens. -/
theorem deliver_news (hNe : bytes ≠ []) (hNews : w.lastDelivered ≠ some bytes) :
    w.deliver (.ok bytes) true = (.delivered bytes, { w with lastDelivered := some bytes }) := by
  cases bytes with
  | nil => exact absurd rfl hNe
  | cons b rest => exact (if_neg hNews).trans (if_pos rfl)

/-! ## Watching on -/

/-- A directory that is watched already is not watched twice. -/
theorem rearm_self (h : w.folders = [folder]) : w.rearm (.ok folder) = w := by
  show (if w.folders.contains folder then w else _) = w
  rw [h, if_pos (by simp)]

/-- Watching on may add a directory, and changes nothing else. -/
theorem rearm_eq (w : Watcher) (folder : Except FileError (List String)) :
    ∃ more, w.rearm folder = { w with folders := more ++ w.folders } := by
  unfold rearm
  split
  · next folder =>
    split
    · exact ⟨[], rfl⟩
    · exact ⟨[folder], rfl⟩
  · exact ⟨[], rfl⟩

@[simp]
theorem lastDelivered_rearm (w : Watcher) (folder : Except FileError (List String)) :
    (w.rearm folder).lastDelivered = w.lastDelivered := by
  obtain ⟨more, hRearm⟩ := rearm_eq w folder
  rw [hRearm]

/-- Whatever may have changed the file in a watched directory still may if more are watched. -/
theorem isRelevant_rearm {change : Disk.Change} (folder : Except FileError (List String))
    (h : w.isRelevant change = true) : (w.rearm folder).isRelevant change = true := by
  obtain ⟨more, hRearm⟩ := rearm_eq w folder
  rw [hRearm]
  have hTarget : ∀ place, w.isTarget place = true →
      isTarget { w with folders := more ++ w.folders } place = true := by
    intro place hPlace
    simp only [isTarget, Bool.and_eq_true, List.contains_iff_mem, List.mem_append] at hPlace ⊢
    exact ⟨.inr hPlace.1, hPlace.2⟩
  cases change with
  | touched place => exact hTarget place h
  | removed place => cases h
  | moved source target =>
    simp only [isRelevant, Bool.or_eq_true, Bool.and_eq_true, List.contains_iff_mem,
      List.mem_append] at h ⊢
    rcases h with hNew | ⟨hOld, hFolder⟩
    · exact .inl (hTarget target hNew)
    · exact .inr ⟨hTarget source hOld, .inr hFolder⟩

/-! ## Handling -/

/-- Handling what is reported is reading the file, delivering the reading and watching on. -/
theorem handle_pending {s : Subscriber} (hLoop : w.loop = some s) (hPending : w.isPending = false)
    (d : Disk) :
    handle { w with isPending := true } d (fun _ => true) =
      (some (w.deliver (d.read w.path) true).1,
        (w.deliver (d.read w.path) true).2.rearm (d.folder w.folderPath)) := by
  -- with the fields apart, the report that is pending can be put in and taken out again
  obtain ⟨path, state, reports, folders, isPending, lastDelivered, next, loop, isClosed⟩ := w
  cases hLoop
  cases hPending
  simp only [handle]
  cases d.read path with
  | error e => rfl
  | ok bytes =>
    cases bytes with
    | nil => rfl
    | cons b rest =>
      simp only [deliver, if_true]
      by_cases hKnown : lastDelivered = some (b :: rest)
      · rw [if_pos hKnown]
      · rw [if_neg hKnown]
        rfl

end FeatureFlags.Watcher
