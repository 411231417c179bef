import FeatureFlags.Proofs.Watcher.World
import Mathlib.Data.List.Chain

/-!
# What a watcher's loop delivers

The loop neither repeats itself nor misses a change. Whatever it delivers it has read from the file,
every delivery differs from the one before it, and when nothing relevant is left in the queue the
latest delivery is what is in the file. This holds wherever the replacements fall: before a burst
is swallowed, while it is, between the reading and the delivery, or after it.

What makes it hold is that a replacement which the loop has not read is still announced. Swallowing
a notification is safe because the reading is still to come, and a replacement after the reading
comes with a notification of its own.

* `Inv` — what holds at every moment; `inv_step` and `inv_of_reachable` carry it through every run.
* `deliveries_of_reachable` — what has been delivered at any moment of a run.
-/

namespace FeatureFlags.Watcher

/-! ## What holds at every moment -/

section

variable (first : Bytes) (w : World)

/-- What was delivered last, or the first reading if nothing was. -/
def latest : Bytes :=
  w.sent.getLastD first

/-- What the file was found to be last. -/
def seen : Except FileError Bytes :=
  w.readings.getLastD (.ok first)

/-- Whether the loop has no reason to read the file: it is not about to, and nothing in the queue
will make it. -/
def IsQuiet : Prop :=
  w.phase ≠ .draining ∧ ∀ n ∈ w.queue, w.watcher.hears n = false

/-- What holds at every moment of a run. -/
structure Inv : Prop where
  solid : ∀ bytes ∈ w.sent, bytes ≠ []
  news : (first :: w.sent).IsChain (· ≠ ·)
  /-- Every delivery is a reading of its own, and the one that is held is none of them. -/
  ofReadings : (w.sent.map Except.ok ++ w.phase.held).Sublist w.readings
  /-- The loop knows what it has delivered, or the first reading; an empty one is nothing known. -/
  remembered : w.watcher.lastDelivered =
    if latest first w = [] then none else some (latest first w)
  holding : ∀ reading, w.phase = .holding reading → seen first w = reading
  handled : (∀ reading, w.phase ≠ .holding reading) →
    ∀ bytes, seen first w = .ok bytes → bytes ≠ [] → latest first w = bytes
  /-- What is in the file has been read, or is still announced. -/
  current : IsQuiet w → ∀ bytes, w.file = .ok bytes → seen first w = .ok bytes

end

variable {first : Bytes} {w w' : World}

theorem inv_start {watcher armed running : Watcher} {d : Disk} {s : Subscriber}
    (hRead : d.read watcher.path = .ok first) (hInit : watcher.init d = (.ok (), armed))
    (hWatch : (armed.register s).watch = (.ok (), running)) :
    Inv first (.initial running first) := by
  obtain ⟨bytes, folder, hBytes, -, rfl⟩ := init_eq_ok_iff.1 hInit
  rw [hRead] at hBytes
  cases hBytes
  -- arming takes the first reading for known unless it is empty, and the loop begins with that
  have hKnown : running.lastDelivered = if first = [] then none else some first :=
    (watch_eq hWatch).2
  refine ⟨?_, .singleton first, .slnil, hKnown, ?_, ?_, ?_⟩
  · intro bytes hMem
    cases hMem
  · intro reading hPhase
    cases hPhase
  · intro _ bytes hSeen _
    exact Except.ok.inj hSeen
  · intro _ bytes hFile
    exact hFile

/-! ## Steps of others -/

/-- What becomes of the file and of the queue matters for one thing only: a loop that is quiet must
have read what is in the file. -/
theorem inv_outside (hInv : Inv first w) {file : Except FileError Bytes}
    {queue : List Notification}
    (hCurrent : IsQuiet { w with queue := queue } → ∀ bytes, file = .ok bytes →
      seen first w = .ok bytes) :
    Inv first { w with file := file, queue := queue } where
  solid := hInv.solid
  news := hInv.news
  ofReadings := hInv.ofReadings
  remembered := hInv.remembered
  holding := hInv.holding
  handled := hInv.handled
  current := hCurrent

/-- A replacement is announced, so the loop is not quiet afterwards. -/
theorem inv_replace (hInv : Inv first w) (bytes : Bytes) {change : Disk.Change}
    (hRelevant : w.watcher.isRelevant change = true) : Inv first (w.replace bytes change) := by
  apply inv_outside hInv
  rintro ⟨-, hQueue⟩
  have hHeard : w.watcher.hears (.change change) = false :=
    hQueue (.change change) (List.mem_append_right _ (List.mem_singleton_self _))
  exact absurd hRelevant (Bool.eq_false_iff.1 hHeard)

/-- An unreadable file has no contents that could have been missed. -/
theorem inv_obstruct (hInv : Inv first w) (e : FileError) :
    Inv first { w with file := .error e } := by
  apply inv_outside hInv
  intro _ bytes hFile
  cases hFile

/-- Notifications may come and go as long as they do not leave the loop quiet that was not. -/
theorem inv_queue (hInv : Inv first w) {queue : List Notification}
    (hQuiet : IsQuiet { w with queue := queue } → IsQuiet w) :
    Inv first { w with queue := queue } := by
  apply inv_outside hInv
  intro hNow
  exact hInv.current (hQuiet hNow)

theorem inv_notify (hInv : Inv first w) (n : Notification) :
    Inv first { w with queue := w.queue ++ [n] } := by
  apply inv_queue hInv
  rintro ⟨hPhase, hQueue⟩
  exact ⟨hPhase, fun m hMem => hQueue m (List.mem_append_left _ hMem)⟩

/-! ## Steps of the loop -/

theorem inv_skip (hInv : Inv first w) {n : Notification} {rest : List Notification}
    (hQueue : w.queue = n :: rest) (hUnheard : w.watcher.hears n = false) :
    Inv first { w with queue := rest } := by
  apply inv_queue hInv
  rintro ⟨hPhase, hRest⟩
  refine ⟨hPhase, ?_⟩
  intro m hMem
  rw [hQueue] at hMem
  rcases List.mem_cons.1 hMem with rfl | hMem
  · exact hUnheard
  · exact hRest m hMem

/-- While a burst is swallowed the loop is about to read, so nothing can be missed. -/
theorem inv_swallow (hInv : Inv first w) (hPhase : w.phase = .draining)
    (rest : List Notification) : Inv first { w with queue := rest } := by
  apply inv_queue hInv
  rintro ⟨hNotDraining, -⟩
  exact absurd hPhase hNotDraining

theorem inv_wake (hInv : Inv first w) (hPhase : w.phase = .waiting) (rest : List Notification) :
    Inv first { w with phase := .draining, queue := rest } where
  solid := hInv.solid
  news := hInv.news
  ofReadings := by
    have hReadings := hInv.ofReadings
    rw [hPhase] at hReadings
    exact hReadings
  remembered := hInv.remembered
  holding := by
    intro reading hHolding
    cases hHolding
  handled := by
    intro _
    apply hInv.handled
    rw [hPhase]
    exact fun _ => Phase.noConfusion
  current := by
    rintro ⟨hNotDraining, -⟩
    exact absurd rfl hNotDraining

theorem seen_read (first : Bytes) (w : World) : seen first w.read = w.file := by
  simp [seen, World.read]

theorem inv_read (hInv : Inv first w) (hPhase : w.phase = .draining) : Inv first w.read where
  solid := hInv.solid
  news := hInv.news
  ofReadings := by
    have hReadings := hInv.ofReadings
    rw [hPhase] at hReadings
    simp only [Phase.held, List.append_nil] at hReadings
    exact hReadings.append (List.Sublist.refl [w.file])
  remembered := hInv.remembered
  holding := by
    rintro reading ⟨⟩
    exact seen_read first w
  handled := by
    intro hNotHolding
    exact absurd rfl (hNotHolding w.file)
  current := by
    intro _ bytes hFile
    rw [seen_read]
    exact hFile

/-- A loop that is quiet after it has watched on was quiet before, for it hears no less now. -/
theorem isQuiet_of_deliver {watcher : Watcher} {sent : List Bytes}
    {reading : Except FileError Bytes} {folder : Except FileError (List String)}
    (hPhase : w.phase = .holding reading) (hHears : ∀ n, watcher.hears n = w.watcher.hears n)
    (h : IsQuiet { w with phase := .waiting, watcher := watcher.rearm folder, sent := sent }) :
    IsQuiet w := by
  obtain ⟨-, hQueue⟩ := h
  refine ⟨?_, ?_⟩
  · rw [hPhase]
    exact Phase.noConfusion
  · intro n hMem
    rw [← hHears]
    exact hears_rearm folder (hQueue n hMem)

/-- A reading that is not delivered is unreadable, empty or known. -/
theorem inv_keepBack (hInv : Inv first w) {reading : Except FileError Bytes}
    {folder : Except FileError (List String)} (hPhase : w.phase = .holding reading)
    (hKnown : ∀ bytes, reading = .ok bytes → bytes ≠ [] → w.watcher.lastDelivered = some bytes) :
    Inv first { w with phase := .waiting, watcher := w.watcher.rearm folder } where
  solid := hInv.solid
  news := hInv.news
  ofReadings := by
    have hReadings := (List.sublist_append_left _ _).trans hInv.ofReadings
    simpa [Phase.held] using hReadings
  remembered := (lastDelivered_rearm _ _).trans hInv.remembered
  holding := by
    intro _ hHolding
    cases hHolding
  handled := by
    intro _ bytes hSeen hNe
    -- what was read is what the loop remembers, and that is the latest delivery
    have hReading : reading = .ok bytes := (hInv.holding reading hPhase).symm.trans hSeen
    have hLatest := (hKnown bytes hReading hNe).symm.trans hInv.remembered
    split at hLatest
    · cases hLatest
    · exact (Option.some.inj hLatest).symm
  current := fun hQuiet => hInv.current (isQuiet_of_deliver hPhase (fun _ => rfl) hQuiet)

/-- A reading that is delivered is the latest delivery from then on. -/
theorem inv_handOver (hInv : Inv first w) {bytes : Bytes}
    {folder : Except FileError (List String)} (hPhase : w.phase = .holding (.ok bytes))
    (hNe : bytes ≠ []) (hNews : w.watcher.lastDelivered ≠ some bytes) :
    Inv first
      { w with
        phase := .waiting
        watcher := { w.watcher with lastDelivered := some bytes }.rearm folder
        sent := w.sent ++ [bytes] } where
  solid := by
    intro other hMem
    rcases List.mem_append.1 hMem with hBefore | hLast
    · exact hInv.solid other hBefore
    · rw [List.mem_singleton.1 hLast]
      exact hNe
  news := by
    -- it differs from the latest delivery, which is what the loop remembers
    have hLatest : latest first w ≠ bytes := by
      intro hSame
      have hRemembered := hInv.remembered
      rw [hSame, if_neg hNe] at hRemembered
      exact hNews hRemembered
    have hLast : ∀ last ∈ (first :: w.sent).getLast?, ∀ next ∈ [bytes].head?, last ≠ next := by
      rintro last hLast next ⟨⟩
      rw [List.getLast?_cons] at hLast
      cases hLast
      rw [← List.getLastD_eq_getLast?]
      exact hLatest
    exact List.isChain_append.2 ⟨hInv.news, .singleton bytes, hLast⟩
  ofReadings := by
    have hReadings := hInv.ofReadings
    rw [hPhase] at hReadings
    simpa [Phase.held] using hReadings
  remembered := by
    rw [lastDelivered_rearm]
    simp [latest, hNe]
  holding := by
    intro _ hHolding
    cases hHolding
  handled := by
    intro _ other hSeen _
    have hSame : seen first w = .ok bytes := hInv.holding _ hPhase
    have hOther : Except.ok bytes = Except.ok other := hSame.symm.trans hSeen
    cases hOther
    simp [latest]
  current := by
    intro hQuiet
    have hHears : ∀ n,
        hears { w.watcher with lastDelivered := some bytes } n = w.watcher.hears n := by
      intro n
      cases n <;> rfl
    exact hInv.current (isQuiet_of_deliver hPhase hHears hQuiet)

theorem inv_deliver (hInv : Inv first w) {reading : Except FileError Bytes}
    (hPhase : w.phase = .holding reading) (folder : Except FileError (List String)) :
    Inv first (w.deliver reading folder) := by
  rcases w.deliver_cases reading folder with ⟨hDeliver, hKnown⟩ | ⟨bytes, rfl, hNe, hNews, hDeliver⟩
  · rw [hDeliver]
    exact inv_keepBack hInv hPhase hKnown
  · rw [hDeliver]
    exact inv_handOver hInv hPhase hNe hNews

/-! ## Runs -/

/-- Every step keeps what holds. -/
theorem inv_step (hInv : Inv first w) (hStep : Step w w') : Inv first w' := by
  cases hStep with
  | replace bytes change hRelevant => exact inv_replace hInv bytes hRelevant
  | obstruct e => exact inv_obstruct hInv e
  | notify n => exact inv_notify hInv n
  | skip n rest _ hQueue hUnheard => exact inv_skip hInv hQueue hUnheard
  | wake n rest hPhase _ _ => exact inv_wake hInv hPhase rest
  | swallow n rest hPhase _ => exact inv_swallow hInv hPhase rest
  | read hPhase => exact inv_read hInv hPhase
  | deliver reading folder hPhase => exact inv_deliver hInv hPhase folder

theorem inv_of_reachable (h : Reachable first w) : Inv first w := by
  induction h with
  | start hRead hInit hWatch _ => exact inv_start hRead hInit hWatch
  | step _ hStep ih => exact inv_step ih hStep

/-! ## What is found out -/

/-- Only by reading the file does the loop find out what is in it. -/
theorem mem_readings_of_step {reading : Except FileError Bytes} (hStep : Step w w')
    (hMem : reading ∈ w'.readings) :
    reading ∈ w.readings ∨ w.phase = .draining ∧ w.file = reading ∧ w' = w.read := by
  cases hStep with
  | read hPhase =>
    rcases List.mem_append.1 hMem with hBefore | hNow
    · exact .inl hBefore
    · exact .inr ⟨hPhase, (List.mem_singleton.1 hNow).symm, rfl⟩
  | replace | obstruct | notify | skip | wake | swallow | deliver => exact .inl hMem

/-- A reading is what was in the file at the moment when the loop read it. -/
theorem exists_moment_of_reading {reading : Except FileError Bytes} (h : Reachable first w)
    (hMem : reading ∈ w.readings) :
    ∃ before, Reachable first before ∧ before.phase = .draining ∧ before.file = reading ∧
      Relation.ReflTransGen Step before.read w := by
  induction h with
  | start => cases hMem
  | @step w w' hReachable hStep ih =>
    rcases mem_readings_of_step hStep hMem with hBefore | ⟨hPhase, hFile, rfl⟩
    · obtain ⟨before, hMoment, hPhase, hFile, hRun⟩ := ih hBefore
      exact ⟨before, hMoment, hPhase, hFile, hRun.tail hStep⟩
    · exact ⟨w, hReachable, hPhase, hFile, .refl⟩

/-! ## What is delivered -/

/-- At any moment of any run, whatever was delivered is not empty and was in the file when the loop
read it, each delivery from a reading of its own and in the order of these. None is the same as the
one before it, the first one compared with what was in the file at the start. When the loop waits
and nothing that it hears is left in the queue, the latest delivery is what is in the file, if that
is readable and not empty. -/
theorem deliveries_of_reachable (h : Reachable first w) :
    (∀ bytes ∈ w.sent, bytes ≠ [] ∧
      ∃ before, Reachable first before ∧ before.phase = .draining ∧ before.file = .ok bytes ∧
        Relation.ReflTransGen Step before.read w) ∧
    (w.sent.map Except.ok).Sublist w.readings ∧
    (first :: w.sent).IsChain (· ≠ ·) ∧
    (w.phase = .waiting → (∀ n ∈ w.queue, w.watcher.hears n = false) →
      ∀ bytes, w.file = .ok bytes → bytes ≠ [] → w.sent.getLastD first = bytes) := by
  have hInv := inv_of_reachable h
  have hReadings : (w.sent.map Except.ok).Sublist w.readings :=
    (List.sublist_append_left _ _).trans hInv.ofReadings
  refine ⟨?_, hReadings, hInv.news, ?_⟩
  · intro bytes hMem
    exact ⟨hInv.solid bytes hMem,
      exists_moment_of_reading h (hReadings.subset (List.mem_map_of_mem hMem))⟩
  · intro hPhase hQueue bytes hFile hNe
    have hQuiet : IsQuiet w := by
      refine ⟨?_, hQueue⟩
      rw [hPhase]
      exact Phase.noConfusion
    -- the file has been read as it is now, and what was read has been handled
    have hSeen : seen first w = .ok bytes := hInv.current hQuiet bytes hFile
    refine hInv.handled ?_ bytes hSeen hNe
    rw [hPhase]
    exact fun _ => Phase.noConfusion

/-- A disk with one file. -/
def oneFile : Disk :=
  ⟨.leaf "f" (.file 0) .empty, [[97]]⟩

theorem read_oneFile : oneFile.read "f" = .ok [97] := by
  have hNul : FileError.hasNul "f" = false := by decide +kernel
  have hLong : FileError.isTooLong "f" = false := by decide +kernel
  have hSegments : Path.segments "f" = ["f"] := by decide +kernel
  have hLocate : oneFile.locate true "f" = .ok (.name ⟨[], "f"⟩ (some (.file 0))) := by
    simp [Disk.locate, Disk.walk, hNul, hLong, hSegments, oneFile, Tree.lookup, Tree.get?]
  rw [Disk.read, hLocate]
  rfl

theorem folder_oneFile : oneFile.folder "." = .ok [] := by
  have hNul : FileError.hasNul "." = false := by decide +kernel
  have hSegments : Path.segments "." = ["."] := by decide +kernel
  have hLocate : oneFile.locate true "." = .ok (.folder []) := by
    simp [Disk.locate, Disk.walk, hNul, hSegments]
  rw [Disk.folder, hLocate]
  rfl

/-- Its file was emptied and, while the notifications of that were swallowed, written anew. -/
def rewritten : World where
  file := .ok [98]
  queue := []
  phase := .waiting
  watcher :=
    { path := "f", state := .watching, reports := .taken, folders := [[]], isPending := false,
      lastDelivered := some [98], subscriber := none, loop := some 0, isClosed := false }
  readings := [.ok [98]]
  sent := [[98]]

theorem reachable_rewritten : Reachable [97] rewritten := by
  let running : Watcher := { rewritten.watcher with lastDelivered := some [97] }
  have hChange : running.isRelevant (.touched ⟨[], "f"⟩) = true := by decide +kernel
  have hFolderPath : (ofPath "f").folderPath = "." := by decide +kernel
  have hInit : (ofPath "f").init oneFile = (.ok (), (ofPath "f").arm [] [97]) := by
    apply init_eq (ofPath "f") read_oneFile
    rw [hFolderPath]
    exact folder_oneFile
  have hStart : Reachable [97] (.initial running [97]) := .start read_oneFile hInit (s := 0) rfl rfl
  have hEmptied := hStart.step (.replace _ [] (.touched ⟨[], "f"⟩) hChange)
  have hFailure := hEmptied.step (.notify _ .failure)
  have hWoken := hFailure.step (.wake _ _ _ rfl rfl hChange)
  have hWritten := hWoken.step (.replace _ [98] (.touched ⟨[], "f"⟩) hChange)
  have hDrained := (hWritten.step (.swallow _ _ _ rfl rfl)).step (.swallow _ _ _ rfl rfl)
  have hHolding := hDrained.step (.read _ rfl)
  exact hHolding.step (.deliver _ (.ok [98]) (.ok []) rfl)

theorem deliveries_of_reachable_rewritten :
    Reachable [97] rewritten ∧
      (∃ before, Reachable [97] before ∧ before.phase = .draining ∧ before.file = .ok [98] ∧
        Relation.ReflTransGen Step before.read rewritten) ∧
      ([97] :: rewritten.sent).IsChain (· ≠ ·) ∧ rewritten.sent.getLastD [97] = [98] := by
  obtain ⟨hSent, -, hNews, hLatest⟩ := deliveries_of_reachable reachable_rewritten
  refine ⟨reachable_rewritten, (hSent [98] (List.mem_singleton_self _)).2, hNews, ?_⟩
  apply hLatest rfl ?_ [98] rfl (List.cons_ne_nil _ _)
  intro n hMem
  cases hMem

end FeatureFlags.Watcher
