import FeatureFlags.Proofs.Watcher.Deliveries

/-!
# Loops that are refused

A loop is refused if the watcher is not initialised, if nobody is registered, or if another loop has
taken the reports. Only the last of these is noticed after the subscriber has been taken over, and
then the subscriber is lost: the watcher is left as if nobody had registered, and whoever initialises
it again finds that the next loop is refused as well.

* `Call`, `perform`, `outcomes` — what is done with a watcher, and what comes of it.
* `IsSound` — a watcher that is watching has been initialised on some disk.
* `outcomes_restart` — initialising and beginning a loop tells whether somebody is registered.
* `eq_iff_of_refused` — which refusals change nothing, and that all others can be told.
-/

namespace FeatureFlags.Watcher

/-! ## Calls -/

/-- What is done with a watcher. Between the calls the disk changes and the loop handles what was
reported. -/
inductive Call where
  | init (d : Disk)
  | register (s : Subscriber)
  | watch
  | close
  | note (change : Disk.Change)
  | handle (d : Disk) (isListening : Subscriber → Bool)

/-- What comes of a call. -/
inductive Outcome where
  | result (result : Except Error Unit)
  /-- What came of handling the reports, and for whom. -/
  | handled (loop : Option Subscriber) (delivery : Option Delivery)

/-- Makes a call. -/
def perform (w : Watcher) : Call → Outcome × Watcher
  | .init d => (.result (w.init d).1, (w.init d).2)
  | .register s => (.result (.ok ()), w.register s)
  | .watch => (.result w.watch.1, w.watch.2)
  | .close => (.result (.ok ()), w.close)
  | .note change => (.result (.ok ()), w.note change)
  | .handle d isListening => (.handled w.loop (w.handle d isListening).1, (w.handle d isListening).2)

/-- The watcher after one call after the other. -/
def run (w : Watcher) (calls : List Call) : Watcher :=
  calls.foldl (fun w call => (w.perform call).2) w

/-- What comes of one call after the other. -/
def outcomes (w : Watcher) : List Call → List Outcome
  | [] => []
  | call :: calls => (w.perform call).1 :: (w.perform call).2.outcomes calls

/-! ## Soundness -/

/-- Whether a watcher that is watching has reports, be they taken or not, and could be initialised
on some disk. -/
structure IsSound (w : Watcher) : Prop where
  reported : w.state = .watching → w.reports ≠ .missing
  startable : w.state = .watching → ∃ (d : Disk) (bytes : Bytes) (folder : List String),
    d.read w.path = .ok bytes ∧ d.folder w.folderPath = .ok folder

/-- Whether a watcher is initialised as another one is. -/
structure IsLike (w' w : Watcher) : Prop where
  path : w'.path = w.path
  state : w'.state = w.state
  reports : w'.reports = w.reports

variable {w w' after : Watcher} {e : Error}

theorem isSound_ofPath (path : String) : (ofPath path).IsSound where
  reported := by
    intro hWatching
    cases hWatching
  startable := by
    intro hWatching
    cases hWatching

theorem IsSound.of_isLike (h : w.IsSound) (hLike : w'.IsLike w) : w'.IsSound where
  reported := by
    rw [hLike.state, hLike.reports]
    exact h.reported
  startable := by
    have hFolder : w'.folderPath = w.folderPath := by
      rw [folderPath, folderPath, hLike.path]
    rw [hLike.state, hLike.path, hFolder]
    exact h.startable

theorem isSound_init (w : Watcher) (d : Disk) : (w.init d).2.IsSound := by
  rcases w.init_cases d with ⟨bytes, folder, hRead, hFolder, hInit⟩ | ⟨e, hInit⟩
  · rw [hInit]
    exact ⟨fun _ => Reports.noConfusion, fun _ => ⟨d, bytes, folder, hRead, hFolder⟩⟩
  · rw [hInit]
    constructor
    · intro hWatching
      cases hWatching
    · intro hWatching
      cases hWatching

theorem isSound_watch (h : w.IsSound) : w.watch.2.IsSound := by
  rcases w.watch_cases with ⟨-, hWatch⟩ | ⟨-, -, hWatch⟩ | ⟨-, -, -, hWatch⟩ | ⟨-, -, -, hWatch⟩
  · rw [hWatch]
    exact h
  · rw [hWatch]
    exact h
  · rw [hWatch]
    exact h.of_isLike ⟨rfl, rfl, rfl⟩
  · rw [hWatch]
    exact ⟨fun _ => Reports.noConfusion, h.startable⟩

theorem isLike_deliver (w : Watcher) (reading : Except FileError Bytes) (isListening : Bool) :
    (w.deliver reading isListening).2.IsLike w := by
  unfold deliver
  split
  · exact ⟨rfl, rfl, rfl⟩
  · exact ⟨rfl, rfl, rfl⟩
  · split
    · exact ⟨rfl, rfl, rfl⟩
    · split
      · exact ⟨rfl, rfl, rfl⟩
      · exact ⟨rfl, rfl, rfl⟩

/-- Handling what is reported does not initialise anything. -/
theorem isLike_handle (w : Watcher) (d : Disk) (isListening : Subscriber → Bool) :
    (w.handle d isListening).2.IsLike w := by
  unfold handle
  split
  · next s _ _ =>
    have hLike := isLike_deliver { w with isPending := false } (d.read w.path) (isListening s)
    split
    · next hDeliver =>
      rw [hDeliver] at hLike
      exact ⟨hLike.path, hLike.state, hLike.reports⟩
    · next delivered _ hDeliver =>
      rw [hDeliver] at hLike
      obtain ⟨more, hRearm⟩ := rearm_eq delivered (d.folder delivered.folderPath)
      show (delivered.rearm (d.folder delivered.folderPath)).IsLike w
      rw [hRearm]
      exact ⟨hLike.path, hLike.state, hLike.reports⟩
  · exact ⟨rfl, rfl, rfl⟩

theorem isSound_perform (h : w.IsSound) (call : Call) : (w.perform call).2.IsSound := by
  cases call with
  | init d => exact isSound_init w d
  | watch => exact isSound_watch h
  | register s => exact h.of_isLike ⟨rfl, rfl, rfl⟩
  | close => exact h.of_isLike ⟨rfl, rfl, rfl⟩
  | note change => exact h.of_isLike ⟨rfl, rfl, rfl⟩
  | handle d isListening => exact h.of_isLike (w.isLike_handle d isListening)

/-- Whatever calls are made, the watcher stays sound. -/
theorem isSound_run (h : w.IsSound) (calls : List Call) : (w.run calls).IsSound := by
  induction calls generalizing w with
  | nil => exact h
  | cons call calls ih => exact ih (isSound_perform h call)

/-! ## Refusals -/

/-- Initialising the watcher again and beginning a loop tells whether somebody is registered. -/
theorem outcomes_restart {d : Disk} {bytes : Bytes} {folder : List String}
    (hRead : d.read w.path = .ok bytes) (hFolder : d.folder w.folderPath = .ok folder) :
    w.outcomes [.init d, .watch] = [.result (.ok ()),
      .result (if w.subscriber = none then .error .notRegistered else .ok ())] := by
  have hInit := init_eq w hRead hFolder
  have hWatch : (w.arm folder bytes).watch.1 =
      if w.subscriber = none then .error .notRegistered else .ok () := by
    cases hSubscriber : w.subscriber <;> simp [watch, arm, hSubscriber]
  simp only [outcomes, perform, hInit, hWatch]

/-- A refusal changes nothing, or another loop has taken the reports and the subscriber is lost. -/
theorem refused_cases (h : w.watch = (.error e, after)) :
    ((e = .notInitialized ∨ e = .notRegistered) ∧ after = w ∧
      (w.state = .watching → w.subscriber = none)) ∨
    (e = .notInitialized ∧ after = { w with subscriber := none } ∧ w.state = .watching ∧
      w.subscriber ≠ none ∧ w.reports ≠ .waiting) := by
  rcases w.watch_cases with ⟨hState, hWatch⟩ | ⟨-, hNone, hWatch⟩ | ⟨hState, hSome, hReports, hWatch⟩ |
    ⟨-, -, -, hWatch⟩
  -- in the last case the loop begins, which is no refusal
  all_goals
    rw [hWatch] at h
    cases h
  · exact .inl ⟨.inl rfl, rfl, fun hWatching => absurd hWatching hState⟩
  · exact .inl ⟨.inr rfl, rfl, fun _ => hNone⟩
  · exact .inr ⟨rfl, rfl, hState, hSome, hReports⟩

/-- Whatever has been done before, a loop is refused for one of two reasons. The refusal leaves the
watcher as it was, and all that comes later as if there had been none, just when the watcher is not
watching or nobody is registered. Otherwise another loop has taken the reports, and nothing is lost
but the subscriber. -/
theorem eq_iff_of_refused {path : String} {calls : List Call}
    (hRun : (ofPath path).run calls = w) (hRefused : w.watch = (.error e, after)) :
    (e = .notInitialized ∨ e = .notRegistered) ∧
    (after = w ↔ (w.state = .watching → w.subscriber = none)) ∧
    ((∀ later, after.outcomes later = w.outcomes later) ↔
      (w.state = .watching → w.subscriber = none)) ∧
    (after ≠ w → e = .notInitialized ∧ w.reports = .taken ∧
      after = { w with subscriber := none }) := by
  have hSound : w.IsSound := hRun ▸ isSound_run (isSound_ofPath path) calls
  rcases refused_cases hRefused with ⟨hReason, rfl, hNobody⟩ |
    ⟨rfl, hAfter, hState, hSome, hReports⟩
  · exact ⟨hReason, iff_of_true rfl hNobody, iff_of_true (fun _ => rfl) hNobody,
      fun hOther => absurd rfl hOther⟩
  · have hSomebody : ¬(w.state = .watching → w.subscriber = none) := fun h => hSome (h hState)
    have hChanged : after ≠ w := by
      intro hSame
      rw [hAfter] at hSame
      exact hSome (congrArg Watcher.subscriber hSame).symm
    -- where the watcher was initialised it can be initialised again, and then a loop tells
    have hTold : ¬∀ later, after.outcomes later = w.outcomes later := by
      obtain ⟨d, bytes, folder, hRead, hFolder⟩ := hSound.startable hState
      have hBefore := outcomes_restart hRead hFolder
      have hRead' : d.read after.path = .ok bytes := by
        rw [hAfter]
        exact hRead
      have hFolder' : d.folder after.folderPath = .ok folder := by
        rw [hAfter]
        exact hFolder
      have hLater := outcomes_restart hRead' hFolder'
      intro hSame
      rw [hSame, hBefore, hAfter, if_neg hSome] at hLater
      cases hLater
    have hTaken : w.reports = .taken := by
      have hReported := hSound.reported hState
      cases hCase : w.reports with
      | missing => exact absurd hCase hReported
      | waiting => exact absurd hCase hReports
      | taken => rfl
    exact ⟨.inl rfl, iff_of_false hChanged hSomebody, iff_of_false hTold hSomebody,
      fun _ => ⟨rfl, hTaken, hAfter⟩⟩

/-- While a loop runs a second subscriber is registered, and a second loop is refused. -/
theorem eq_iff_of_refused_registeredAgain :
    ∃ w after : Watcher,
      (ofPath "f").run [.init oneFile, .register 0, .watch, .register 1] = w ∧
      w.watch = (.error .notInitialized, after) ∧ w.subscriber = some 1 ∧
      after.subscriber = none ∧ ¬∀ later, after.outcomes later = w.outcomes later := by
  have hFolderPath : (ofPath "f").folderPath = "." := by decide +kernel
  have hInit : (ofPath "f").init oneFile = (.ok (), (ofPath "f").arm [] [97]) := by
    apply init_eq (ofPath "f") read_oneFile
    rw [hFolderPath]
    exact folder_oneFile
  let w : Watcher := { (ofPath "f").arm [] [97] with
    reports := .taken, subscriber := some 1, loop := some 0 }
  have hRun : (ofPath "f").run [.init oneFile, .register 0, .watch, .register 1] = w := by
    simp only [run, List.foldl_cons, List.foldl_nil, perform, hInit]
    rfl
  have hRefused : w.watch = (.error .notInitialized, { w with subscriber := none }) := rfl
  obtain ⟨-, -, hTold, -⟩ := eq_iff_of_refused hRun hRefused
  refine ⟨w, _, hRun, hRefused, rfl, rfl, ?_⟩
  intro hSame
  cases hTold.1 hSame rfl

end FeatureFlags.Watcher
