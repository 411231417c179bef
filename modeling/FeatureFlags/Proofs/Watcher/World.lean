import FeatureFlags.Proofs.Watcher.Basic
import Mathlib.Logic.Relation

/-!
# A watcher's loop among others

The loop of a watcher takes one notification after the other. A relevant one wakes it; then it
swallows as many of those that follow as it likes, reads the file and delivers what it has read if
that is news. Meanwhile others replace the file, empty it or make it unreadable, between any two
steps of the loop, and the notifications of what they do wait until they are taken.

* `Step`, `Reachable` — what can happen next, and what can be reached once the loop runs.
* `World.deliver_cases` — what becomes of a reading.
* `exists_handle` — undisturbed, the steps of the loop are those of `handle`.
-/

namespace FeatureFlags.Watcher

/-! ## Notifications and steps -/

/-- What the loop is told. -/
inductive Notification where
  | change (change : Disk.Change)
  /-- Nothing about the disk, but that telling has failed. -/
  | failure
deriving DecidableEq

/-- Whether a notification wakes the loop. -/
def hears (w : Watcher) : Notification → Bool
  | .change change => w.isRelevant change
  | .failure => false

/-- What the loop is doing. -/
inductive Phase where
  | waiting
  /-- A relevant notification has been taken, and those that follow may be swallowed. -/
  | draining
  /-- The file has been read, and the reading is not handled yet. -/
  | holding (reading : Except FileError Bytes)

/-- The reading that is not handled yet, if there is one. -/
def Phase.held : Phase → List (Except FileError Bytes)
  | .holding reading => [reading]
  | _ => []

/-- What was handed to the subscriber, if anything was. -/
def Delivery.payload? : Delivery → Option Bytes
  | .delivered bytes => some bytes
  | _ => none

/-- A watcher whose loop runs, the file, and what is on its way to the loop and from it. -/
structure World where
  /-- What reading the file would give now. -/
  file : Except FileError Bytes
  /-- The notifications that the loop has not taken, the oldest first. -/
  queue : List Notification
  phase : Phase
  watcher : Watcher
  /-- What the file was found to be at all readings of the loop. -/
  readings : List (Except FileError Bytes)
  /-- Everything that has been delivered. -/
  sent : List Bytes

namespace World

/-- The loop begins to run after a first reading of the file. -/
def initial (watcher : Watcher) (first : Bytes) : World where
  file := .ok first
  queue := []
  phase := .waiting
  watcher := watcher
  readings := []
  sent := []

/-- Others change the file, and a notification tells of it. -/
def replace (w : World) (bytes : Bytes) (change : Disk.Change) : World :=
  { w with file := .ok bytes, queue := w.queue ++ [.change change] }

/-- The loop reads the file. -/
def read (w : World) : World :=
  { w with phase := .holding w.file, readings := w.readings ++ [w.file] }

/-- The loop delivers a reading if it is news, and watches on. -/
def deliver (w : World) (reading : Except FileError Bytes)
    (folder : Except FileError (List String)) : World :=
  let outcome := w.watcher.deliver reading true
  { w with
    phase := .waiting
    watcher := outcome.2.rearm folder
    sent := w.sent ++ outcome.1.payload?.toList }

end World

/-- One step, of whoever makes it. Whoever replaces or empties the file causes a relevant
notification; that the file cannot be read for a while need not be told. All other notifications,
relevant or not, may come at any time. -/
inductive Step : World → World → Prop where
  | replace (w : World) (bytes : Bytes) (change : Disk.Change) :
      w.watcher.isRelevant change = true → Step w (w.replace bytes change)
  | obstruct (w : World) (e : FileError) : Step w { w with file := .error e }
  | notify (w : World) (n : Notification) : Step w { w with queue := w.queue ++ [n] }
  | skip (w : World) (n : Notification) (rest : List Notification) : w.phase = .waiting →
      w.queue = n :: rest → w.watcher.hears n = false → Step w { w with queue := rest }
  | wake (w : World) (n : Notification) (rest : List Notification) : w.phase = .waiting →
      w.queue = n :: rest → w.watcher.hears n = true →
      Step w { w with phase := .draining, queue := rest }
  | swallow (w : World) (n : Notification) (rest : List Notification) : w.phase = .draining →
      w.queue = n :: rest → Step w { w with queue := rest }
  | read (w : World) : w.phase = .draining → Step w w.read
  | deliver (w : World) (reading : Except FileError Bytes)
      (folder : Except FileError (List String)) : w.phase = .holding reading →
      Step w (w.deliver reading folder)

/-- What can be reached after a watcher has been initialised, has got a subscriber and has begun its
loop, the file being what it was found to be at first. -/
inductive Reachable (first : Bytes) : World → Prop where
  | start {w armed running : Watcher} {d : Disk} {s : Subscriber} : d.read w.path = .ok first →
      w.init d = (.ok (), armed) → (armed.register s).watch = (.ok (), running) →
      running.loop = some s → Reachable first (.initial running first)
  | step {w w' : World} : Reachable first w → Step w w' → Reachable first w'

/-! ## What steps do -/

variable {w : World}

/-- A reading is handed to the subscriber just when it is neither empty nor the last one that was.
In either case the loop goes back to waiting and watches on. -/
theorem World.deliver_cases (w : World) (reading : Except FileError Bytes)
    (folder : Except FileError (List String)) :
    (w.deliver reading folder =
        { w with phase := .waiting, watcher := w.watcher.rearm folder } ∧
      ∀ bytes, reading = .ok bytes → bytes ≠ [] → w.watcher.lastDelivered = some bytes) ∨
    ∃ bytes, reading = .ok bytes ∧ bytes ≠ [] ∧ w.watcher.lastDelivered ≠ some bytes ∧
      w.deliver reading folder =
        { w with
          phase := .waiting
          watcher := { w.watcher with lastDelivered := some bytes }.rearm folder
          sent := w.sent ++ [bytes] } := by
  -- nothing is handed over, so nothing is added to what was delivered
  have hNothing : ∀ delivery : Delivery, delivery.payload? = none →
      w.watcher.deliver reading true = (delivery, w.watcher) →
      w.deliver reading folder =
        { w with phase := .waiting, watcher := w.watcher.rearm folder } := by
    intro delivery hNone hDeliver
    unfold World.deliver
    rw [hDeliver]
    simp only [hNone, Option.toList_none, List.append_nil]
  cases reading with
  | error e => exact .inl ⟨hNothing (.unreadable e) rfl rfl, fun _ h => nomatch h⟩
  | ok bytes =>
    by_cases hEmpty : bytes = []
    · subst hEmpty
      refine .inl ⟨hNothing .emptyFile rfl rfl, ?_⟩
      intro bytes hBytes hNe
      exact absurd (Except.ok.inj hBytes).symm hNe
    · by_cases hKnown : w.watcher.lastDelivered = some bytes
      · refine .inl ⟨hNothing .unchanged rfl (deliver_known hEmpty hKnown true), ?_⟩
        rintro _ ⟨⟩ -
        exact hKnown
      · refine .inr ⟨bytes, rfl, hEmpty, hKnown, ?_⟩
        unfold World.deliver
        rw [deliver_news hEmpty hKnown]
        rfl

/-- What wakes the loop still does when more directories are watched. -/
theorem hears_rearm {watcher : Watcher} {n : Notification}
    (folder : Except FileError (List String)) (h : (watcher.rearm folder).hears n = false) :
    watcher.hears n = false := by
  cases n with
  | failure => rfl
  | change change =>
    rw [Bool.eq_false_iff] at h ⊢
    intro hBefore
    exact h (isRelevant_rearm folder hBefore)

/-! ## Undisturbed runs -/

/-- What is in the queue before the first relevant notification is skipped, and that one wakes the
loop. -/
theorem exists_woken (hPhase : w.phase = .waiting)
    (hHeard : ∃ n ∈ w.queue, w.watcher.hears n = true) :
    ∃ rest, Relation.ReflTransGen Step w { w with phase := .draining, queue := rest } := by
  obtain ⟨n, hMem, hHears⟩ := hHeard
  induction hQueue : w.queue generalizing w with
  | nil =>
    rw [hQueue] at hMem
    cases hMem
  | cons m rest ih =>
    by_cases hFirst : w.watcher.hears m = true
    · exact ⟨rest, .single (.wake w m rest hPhase hQueue hFirst)⟩
    · -- the first one is skipped, so the relevant one is further behind
      have hSkip : Step w { w with queue := rest } :=
        .skip w m rest hPhase hQueue (Bool.eq_false_iff.2 hFirst)
      have hBehind : n ∈ rest := by
        rw [hQueue] at hMem
        rcases List.mem_cons.1 hMem with rfl | hBehind
        · exact absurd hHears hFirst
        · exact hBehind
      obtain ⟨after, hRun⟩ := ih (w := { w with queue := rest }) hPhase hBehind hHears rfl
      exact ⟨after, .head hSkip hRun⟩

theorem swallow_all (hPhase : w.phase = .draining) :
    Relation.ReflTransGen Step w { w with queue := [] } := by
  induction hQueue : w.queue generalizing w with
  | nil =>
    rw [← hQueue]
  | cons n rest ih =>
    exact .head (.swallow w n rest hPhase hQueue) (ih (w := { w with queue := rest }) hPhase rfl)

/-- Handled without a break and as a whole, the notifications that are there are handled as by
`handle`. -/
theorem exists_handle {d : Disk} {s : Subscriber} (hPhase : w.phase = .waiting)
    (hHeard : ∃ n ∈ w.queue, w.watcher.hears n = true) (hLoop : w.watcher.loop = some s)
    (hPending : w.watcher.isPending = false) (hRead : d.read w.watcher.path = w.file) :
    ∃ w' delivery, Relation.ReflTransGen Step w w' ∧ w'.phase = .waiting ∧ w'.queue = [] ∧
      handle { w.watcher with isPending := true } d (fun _ => true) =
        (some delivery, w'.watcher) ∧
      w'.sent = w.sent ++ delivery.payload?.toList := by
  obtain ⟨rest, hWoken⟩ := exists_woken hPhase hHeard
  have hDrained : Relation.ReflTransGen Step { w with phase := .draining, queue := rest }
      { w with phase := .draining, queue := [] } := swallow_all rfl
  have hHolding : Step { w with phase := .draining, queue := [] }
      (World.read { w with phase := .draining, queue := [] }) := .read _ rfl
  have hDeliver := ((hWoken.trans hDrained).tail hHolding).tail
    (.deliver _ w.file (d.folder w.watcher.folderPath) rfl)
  refine ⟨_, (w.watcher.deliver w.file true).1, hDeliver, rfl, rfl, ?_, rfl⟩
  rw [handle_pending hLoop hPending, hRead]
  rfl

end FeatureFlags.Watcher
