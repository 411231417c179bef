import FeatureFlags.Client.Following
import FeatureFlags.Proofs.Watcher.Basic
import Mathlib.Logic.Relation

/-!
# Following a file, step by step

Whoever follows a file is not alone: the file may be replaced at any moment, between any two steps
of starting and of the watcher's loop. Here these steps are told apart. Taken without a break they
are those of `start` and of `handle`.

* `Step`, `Reachable` — what can happen next, and what can be reached.
* `deliver_known`, `deliver_news` — what the loop does with what it has read.
* `exists_start`, `exists_handle` — undisturbed runs.
-/

namespace FeatureFlags.Following

/-! ## Moments and steps -/

/-- How far starting has come. -/
inductive Caller where
  | starting
  /-- The file has been found readable. -/
  | checked
  /-- The directory is watched. -/
  | armed
  /-- The file has been read once more. -/
  | synced
  /-- What was read has been installed. -/
  | installed
  | registered
  | returned
deriving DecidableEq

/-- What the watcher's loop is doing. -/
inductive Loop where
  | unstarted
  | idle
  /-- A report has been taken, and those that follow may be swallowed. -/
  | woken
  /-- The file has been read, and its bytes are not delivered yet. -/
  | holding (bytes : Bytes)
deriving DecidableEq

/-- A file, a client that follows it, and what is under way between them. -/
structure World where
  file : Bytes
  /-- How many reports wait for the loop. -/
  reports : Nat
  caller : Caller
  loop : Loop
  watcher : Watcher
  /-- What has been delivered but not installed. -/
  channel : List Bytes
  client : Client
  /-- What the first reading gave. -/
  first : Bytes
  /-- What the second reading gave. -/
  second : Bytes
  /-- What the last reading gave, whether at the start or in the loop. -/
  seen : Bytes
  /-- Everything that has been delivered. -/
  sent : List Bytes

namespace World

/-- Before a fresh client follows the file at a path. -/
def initial (path : String) (scopes : List String) (file : Bytes) : World where
  file := file
  reports := 0
  caller := .starting
  loop := .unstarted
  watcher := .ofPath path
  channel := []
  client := .ofMap scopes none
  first := []
  second := []
  seen := []
  sent := []

/-- The file is replaced, which is reported if its directory is watched. -/
def replace (w : World) (folder : List String) (bytes : Bytes) : World :=
  { w with
    file := bytes
    reports := if w.watcher.folders.contains folder then w.reports + 1 else w.reports }

/-- The second reading is installed. -/
def install (w : World) : World :=
  { w with
    caller := .installed
    client := match w.watcher.contents (.ok w.second) with
      | .ok bytes => (w.client.update bytes).2
      | .error _ => w.client }

/-- The loop delivers what it has read, if it is news, and watches the directory on. -/
def deliver (w : World) (folder : List String) (bytes : Bytes) : World :=
  match w.watcher.deliver (.ok bytes) true with
  | (.delivered bytes, watcher) =>
    { w with
      loop := .idle
      watcher := watcher.rearm (.ok folder)
      channel := w.channel ++ [bytes]
      sent := w.sent ++ [bytes] }
  | (_, watcher) => { w with loop := .idle, watcher := watcher.rearm (.ok folder) }

/-- The client takes over what has been on the way longest. -/
def consume (w : World) (bytes : Bytes) (channel : List Bytes) : World :=
  { w with channel := channel, client := (w.client.update bytes).2 }

/-- Whether following has come to rest: it has started, and nothing is left to be done. -/
structure IsAtRest (w : World) : Prop where
  caller : w.caller = .returned
  loop : w.loop = .unstarted ∨ w.loop = .idle
  reports : w.reports = 0
  channel : w.channel = []

end World

/-- One step, of whoever makes it. Documents are what the file may be replaced by. -/
inductive Step (IsDocument : Bytes → Prop) (folder : List String) : World → World → Prop where
  | replace (w : World) (bytes : Bytes) : IsDocument bytes →
      Step IsDocument folder w (w.replace folder bytes)
  | check (w : World) : w.caller = .starting →
      Step IsDocument folder w { w with caller := .checked, first := w.file }
  | arm (w : World) : w.caller = .checked →
      Step IsDocument folder w
        { w with caller := .armed, watcher := w.watcher.arm folder w.first }
  | sync (w : World) : w.caller = .armed →
      Step IsDocument folder w { w with caller := .synced, second := w.file, seen := w.file }
  | install (w : World) : w.caller = .synced → Step IsDocument folder w w.install
  | register (w : World) : w.caller = .installed →
      Step IsDocument folder w
        { w with caller := .registered, watcher := w.watcher.register subscriber }
  | giveBack (w : World) : w.caller = .registered →
      Step IsDocument folder w { w with caller := .returned }
  | watch (w : World) (watcher : Watcher) : w.caller = .returned → w.loop = .unstarted →
      w.watcher.watch = (.ok (), watcher) →
      Step IsDocument folder w { w with loop := .idle, watcher := watcher }
  | wake (w : World) (reports : Nat) : w.loop = .idle → w.reports = reports + 1 →
      Step IsDocument folder w { w with loop := .woken, reports := reports }
  | swallow (w : World) (reports : Nat) : w.loop = .woken → w.reports = reports + 1 →
      Step IsDocument folder w { w with reports := reports }
  | read (w : World) : w.loop = .woken →
      Step IsDocument folder w { w with loop := .holding w.file, seen := w.file }
  | deliver (w : World) (bytes : Bytes) : w.loop = .holding bytes →
      Step IsDocument folder w (w.deliver folder bytes)
  | consume (w : World) (bytes : Bytes) (channel : List Bytes) : w.channel = bytes :: channel →
      Step IsDocument folder w (w.consume bytes channel)

/-- What can be reached in a run that starts with a fresh client. -/
inductive Reachable (IsDocument : Bytes → Prop) (folder : List String) : World → Prop where
  | initial (path : String) (scopes : List String) {file : Bytes} : IsDocument file →
      Reachable IsDocument folder (.initial path scopes file)
  | step {w w' : World} : Reachable IsDocument folder w → Step IsDocument folder w w' →
      Reachable IsDocument folder w'

/-! ## What steps do -/

variable {IsDocument : Bytes → Prop} {folder : List String} {w : World}

/-- A replacement is reported once the directory is watched. -/
theorem reports_replace (hFolders : w.watcher.folders = [folder]) (bytes : Bytes) :
    (w.replace folder bytes).reports = w.reports + 1 := by
  show (if w.watcher.folders.contains folder then w.reports + 1 else w.reports) = _
  rw [hFolders, if_pos (by simp)]

/-- The second reading is installed unless it is empty. -/
theorem install_eq (hNe : w.second ≠ []) :
    w.install = { w with caller := .installed, client := (w.client.update w.second).2 } := by
  have hContents : w.watcher.contents (.ok w.second) = .ok w.second := by
    unfold Watcher.contents
    split
    · next h => cases h
    · next h => exact absurd (Except.ok.inj h) hNe
    · next h => rw [Except.ok.inj h]
  unfold World.install
  rw [hContents]

/-- What the loop has read and what has been delivered last is nothing to tell anybody. -/
theorem deliver_known {bytes : Bytes} (hNe : bytes ≠ [])
    (hKnown : w.watcher.lastDelivered = some bytes) (hFolders : w.watcher.folders = [folder]) :
    w.deliver folder bytes = { w with loop := .idle } := by
  unfold World.deliver
  rw [Watcher.deliver_known hNe hKnown]
  show { w with loop := .idle, watcher := w.watcher.rearm (.ok folder) } = _
  rw [Watcher.rearm_self hFolders]

/-- All else that it has read is delivered. -/
theorem deliver_news {bytes : Bytes} (hNe : bytes ≠ [])
    (hNews : w.watcher.lastDelivered ≠ some bytes) (hFolders : w.watcher.folders = [folder]) :
    w.deliver folder bytes =
      { w with
        loop := .idle
        watcher := { w.watcher with lastDelivered := some bytes }
        channel := w.channel ++ [bytes]
        sent := w.sent ++ [bytes] } := by
  -- the directory is watched already, so it stays as it is
  have hRearm : Watcher.rearm { w.watcher with lastDelivered := some bytes } (.ok folder) =
      { w.watcher with lastDelivered := some bytes } := Watcher.rearm_self hFolders
  unfold World.deliver
  rw [Watcher.deliver_news hNe hNews]
  simp only [hRearm]

/-! ## Undisturbed runs -/

/-- Taken without a break, the steps of starting amount to `start`. -/
theorem exists_start {d : Disk} {path : String} {bytes : Bytes} (scopes : List String)
    (hDocument : IsDocument bytes) (hRead : d.read path = .ok bytes)
    (hFolder : d.folder (Watcher.ofPath path).folderPath = .ok folder) :
    ∃ w, Reachable IsDocument folder w ∧ w.file = bytes ∧ w.loop = .idle ∧
      start (.ofMap scopes none) path d = .ok ⟨w.client, w.watcher⟩ := by
  have hInitial : Reachable IsDocument folder (.initial path scopes bytes) := .initial _ _ hDocument
  -- check, arm, read again, install, register, give back
  have hOpened := ((hInitial.step (.check _ rfl)).step (.arm _ rfl)).step (.sync _ rfl)
  have hReturned := ((hOpened.step (.install _ rfl)).step (.register _ rfl)).step (.giveBack _ rfl)
  refine ⟨_, hReturned.step (.watch _ _ rfl rfl rfl), rfl, rfl, ?_⟩
  have hInit := Watcher.init_eq (.ofPath path) hRead hFolder
  unfold start
  simp only [hInit, hRead]
  rfl

theorem swallow_all (hLoop : w.loop = .woken) :
    Relation.ReflTransGen (Step IsDocument folder) w { w with reports := 0 } := by
  induction hReports : w.reports generalizing w with
  | zero =>
    rw [← hReports]
  | succ n ih =>
    exact .head (.swallow w n hLoop hReports) (ih (w := { w with reports := n }) hLoop rfl)

/-- The loop takes all reports that are there, and reads the file. -/
theorem exists_holding (hLoop : w.loop = .idle) (hReports : w.reports ≠ 0) :
    ∃ w', Relation.ReflTransGen (Step IsDocument folder) w w' ∧ w'.loop = .holding w.file ∧
      w'.reports = 0 ∧ w'.watcher = w.watcher ∧ w'.channel = w.channel ∧ w'.client = w.client := by
  obtain ⟨n, hn⟩ := Nat.exists_eq_succ_of_ne_zero hReports
  have hWoken : Step IsDocument folder w { w with loop := .woken, reports := n } :=
    .wake w n hLoop hn
  have hSwallowed : Relation.ReflTransGen (Step IsDocument folder)
      { w with loop := .woken, reports := n } { w with loop := .woken, reports := 0 } :=
    swallow_all rfl
  -- the report that woke the loop has swallowed the others
  have hHolding : Step IsDocument folder { w with loop := .woken, reports := 0 }
      { w with loop := .holding w.file, reports := 0, seen := w.file } := .read _ rfl
  exact ⟨_, (Relation.ReflTransGen.head hWoken hSwallowed).tail hHolding, rfl, rfl, rfl, rfl, rfl⟩

theorem handle_eq {watcher : Watcher} {d : Disk} {bytes : Bytes} (hNe : bytes ≠ [])
    (hFolders : watcher.folders = [folder]) (hServed : watcher.loop = some subscriber)
    (hPending : watcher.isPending = false) (hRead : d.read watcher.path = .ok bytes)
    (hFolder : d.folder watcher.folderPath = .ok folder) :
    Watcher.handle { watcher with isPending := true } d (fun _ => true) =
      if watcher.lastDelivered = some bytes then (some .unchanged, watcher)
      else (some (.delivered bytes), { watcher with lastDelivered := some bytes }) := by
  rw [Watcher.handle_pending hServed hPending, hRead, hFolder]
  by_cases hKnown : watcher.lastDelivered = some bytes
  · rw [if_pos hKnown, Watcher.deliver_known hNe hKnown, Watcher.rearm_self hFolders]
  · have hRearm : Watcher.rearm { watcher with lastDelivered := some bytes } (.ok folder) =
        { watcher with lastDelivered := some bytes } := Watcher.rearm_self hFolders
    rw [if_neg hKnown, Watcher.deliver_news hNe hKnown, hRearm]

/-- Handled without a break and as a whole, the reports that are there are handled as by
`handle`. -/
theorem exists_handle {d : Disk} (hFile : w.file ≠ []) (hLoop : w.loop = .idle)
    (hReports : w.reports ≠ 0) (hChannel : w.channel = [])
    (hFolders : w.watcher.folders = [folder]) (hServed : w.watcher.loop = some subscriber)
    (hPending : w.watcher.isPending = false) (hRead : d.read w.watcher.path = .ok w.file)
    (hFolder : d.folder w.watcher.folderPath = .ok folder) :
    ∃ w', Relation.ReflTransGen (Step IsDocument folder) w w' ∧ w'.loop = .idle ∧ w'.reports = 0 ∧
      w'.channel = [] ∧
      handle ⟨w.client, { w.watcher with isPending := true }⟩ d = ⟨w'.client, w'.watcher⟩ := by
  have hHolding : ∃ held, Relation.ReflTransGen (Step IsDocument folder) w held ∧
      held.loop = .holding w.file ∧ held.reports = 0 ∧ held.watcher = w.watcher ∧
      held.channel = w.channel ∧ held.client = w.client := exists_holding hLoop hReports
  obtain ⟨held, hRun, hHeld, hReports, hWatcher, hChannel', hClient⟩ := hHolding
  have hDeliver := hRun.tail (.deliver held w.file hHeld)
  have hHandle := handle_eq hFile hFolders hServed hPending hRead hFolder
  -- taking the reports has left the watcher and the client alone
  rw [← hWatcher] at hFolders hHandle ⊢
  rw [← hClient]
  rw [hChannel] at hChannel'
  by_cases hKnown : held.watcher.lastDelivered = some w.file
  · -- the file is known, and that was all
    rw [deliver_known hFile hKnown hFolders] at hDeliver
    refine ⟨_, hDeliver, rfl, hReports, hChannel', ?_⟩
    unfold handle
    rw [hHandle, if_pos hKnown]
  · -- the file is news, and the client takes it over
    rw [deliver_news hFile hKnown hFolders, hChannel'] at hDeliver
    refine ⟨_, hDeliver.tail (.consume _ w.file [] rfl), rfl, hReports, rfl, ?_⟩
    unfold handle
    rw [hHandle, if_neg hKnown]
    rfl

end FeatureFlags.Following
