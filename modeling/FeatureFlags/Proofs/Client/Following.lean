import FeatureFlags.Proofs.Client.Updates
import FeatureFlags.Proofs.Client.World
import FeatureFlags.Proofs.FeatureMap.Document

/-!
# Following a file while others replace it

A client follows a file that somebody else replaces at any moment, and the whole is looked at when
it has come to rest: nothing is left to be noticed, read, delivered or installed.

At rest the client has what is in the file, with one exception. The loop keeps back what the very
first reading gave, because it takes it for delivered, but it is the second reading that gets
installed. A file that has changed in between and changed back before the loop read it leaves the
client with the second reading.

* `Inv` — what holds at every moment; `step_inv` and `reachable_inv` carry it through every run.
* `installed_iff_of_isAtRest` — when a client at rest has what is in the file.
* `exists_unsettled` — any two documents make the exception.
-/

namespace FeatureFlags.Following

/-! ## Updates with documents -/

/-- Whether all documents can be read and their versions tell them apart. -/
structure AreVersioned (IsDocument : Bytes → Prop) : Prop where
  parse : ∀ {bytes}, IsDocument bytes → ∃ m, FeatureMap.parse bytes = .ok m
  same : ∀ {bytes bytes' m m'}, IsDocument bytes → IsDocument bytes' →
    FeatureMap.parse bytes = .ok m → FeatureMap.parse bytes' = .ok m' →
    m.version ≠ "" → m.version = m'.version → m = m'

theorem ne_nil_of_parse {bytes : Bytes} {m : FeatureMap} (h : FeatureMap.parse bytes = .ok m) :
    bytes ≠ [] := by
  rintro rfl
  cases h

/-- A client that takes over a map has it afterwards, if no other map has its version. -/
theorem installed_update {c : Client} {bytes : Bytes} {m : FeatureMap}
    (hParse : FeatureMap.parse bytes = .ok m)
    (hSame : ∀ m', c.installed = some m' → m'.version ≠ "" → m'.version = m.version → m' = m) :
    (c.update bytes).2.installed = some m := by
  unfold Client.update
  rw [hParse]
  show (c.install m).installed = some m
  -- a client that needs no update has the version already, and so the map
  unfold Client.install
  split
  · rfl
  · next hNeeds =>
    simp only [Client.needs, Bool.or_eq_true, decide_eq_true_eq, not_or, ne_eq,
      Decidable.not_not] at hNeeds
    obtain ⟨hVersion, hEqual⟩ := hNeeds
    cases hInstalled : c.installed with
    | none =>
      rw [Client.version, hInstalled] at hVersion
      exact absurd rfl hVersion
    | some m' =>
      rw [Client.version, hInstalled] at hVersion hEqual
      rw [hSame m' hInstalled hVersion hEqual]

/-! ## What holds at every moment -/

section

variable (IsDocument : Bytes → Prop) (folder : List String) (w : World)

/-- Nothing has reached the client, and the loop has not begun. -/
structure Untouched : Prop where
  loop : w.loop = .unstarted
  sent : w.sent = []
  channel : w.channel = []
  client : w.client.installed = none

/-- The directory is watched, and the loop takes what was delivered last for known, or the first
reading. -/
structure Armed : Prop where
  first : IsDocument w.first
  folders : w.watcher.folders = [folder]
  lastDelivered : w.watcher.lastDelivered = some (w.sent.getLastD w.first)

/-- The file has been read a second time. -/
structure Synced : Prop where
  /-- As long as nothing is reported, the file is as it was read last. -/
  current : w.loop ≠ .woken → w.reports = 0 → w.file = w.seen
  holding : ∀ bytes, w.loop = .holding bytes → w.seen = bytes ∧ IsDocument bytes
  /-- Unless nothing has been read since, the loop has compared what it read. -/
  compared : (∀ bytes, w.loop ≠ .holding bytes) →
    (w.seen = w.second ∧ w.sent = []) ∨ w.watcher.lastDelivered = some w.seen
  latest : IsDocument (w.sent.getLastD w.second)

/-- Once everything on the way is installed, the client has what was delivered last, or the second
reading. -/
def Settled : Prop :=
  ∃ m, FeatureMap.parse (w.sent.getLastD w.second) = .ok m ∧
    (w.client.updateAll w.channel).installed = some m

/-- What holds as long as starting has come so far. -/
def HoldsAt : Caller → Prop
  | .starting => Untouched w
  | .checked => Untouched w ∧ IsDocument w.first
  | .armed => Untouched w ∧ Armed IsDocument folder w
  | .synced => Untouched w ∧ Armed IsDocument folder w ∧ Synced IsDocument w
  | .installed | .registered =>
    w.loop = .unstarted ∧ Armed IsDocument folder w ∧ Synced IsDocument w ∧ Settled w
  | .returned => Armed IsDocument folder w ∧ Synced IsDocument w ∧ Settled w

/-- What holds at every moment of a run. -/
def Inv : Prop :=
  IsDocument w.file ∧ HoldsAt IsDocument folder w w.caller

end

variable {IsDocument : Bytes → Prop} {folder : List String} {w w' : World}

theorem inv_initial (path : String) (scopes : List String) {file : Bytes} (h : IsDocument file) :
    Inv IsDocument folder (.initial path scopes file) :=
  ⟨h, rfl, rfl, rfl, rfl⟩

/-! ## Steps of starting -/

theorem inv_arm (hDocuments : AreVersioned IsDocument) (hInv : Inv IsDocument folder w)
    (hCaller : w.caller = .checked) :
    Inv IsDocument folder
      { w with caller := .armed, watcher := w.watcher.arm folder w.first } := by
  unfold Inv at hInv
  rw [hCaller] at hInv
  obtain ⟨hFile, hUntouched, hFirst⟩ := hInv
  obtain ⟨m, hParse⟩ := hDocuments.parse hFirst
  -- arming remembers what was read first, which is not empty because it can be read
  have hDelivered : (if w.first = [] then none else some w.first) =
      some (w.sent.getLastD w.first) := by
    rw [if_neg (ne_nil_of_parse hParse), hUntouched.sent]
    rfl
  exact ⟨hFile, ⟨hUntouched.loop, hUntouched.sent, hUntouched.channel, hUntouched.client⟩,
    ⟨hFirst, rfl, hDelivered⟩⟩

theorem inv_sync (hInv : Inv IsDocument folder w) (hCaller : w.caller = .armed) :
    Inv IsDocument folder { w with caller := .synced, second := w.file, seen := w.file } := by
  unfold Inv at hInv
  rw [hCaller] at hInv
  obtain ⟨hFile, hUntouched, hArmed⟩ := hInv
  refine ⟨hFile, ⟨hUntouched.loop, hUntouched.sent, hUntouched.channel, hUntouched.client⟩,
    ⟨hArmed.first, hArmed.folders, hArmed.lastDelivered⟩, ?_⟩
  refine ⟨fun _ _ => rfl, fun bytes hLoop => ?_, fun _ => .inl ⟨rfl, hUntouched.sent⟩, ?_⟩
  · change w.loop = .holding bytes at hLoop
    rw [hUntouched.loop] at hLoop
    cases hLoop
  · -- nothing has been delivered yet, so the latest document is the one just read
    show IsDocument (w.sent.getLastD w.file)
    rw [hUntouched.sent]
    exact hFile

theorem inv_install (hDocuments : AreVersioned IsDocument) (hInv : Inv IsDocument folder w)
    (hCaller : w.caller = .synced) : Inv IsDocument folder w.install := by
  unfold Inv at hInv
  rw [hCaller] at hInv
  obtain ⟨hFile, hUntouched, hArmed, hSynced⟩ := hInv
  have hLatest := hSynced.latest
  rw [hUntouched.sent] at hLatest
  obtain ⟨m, hParse⟩ := hDocuments.parse hLatest
  rw [install_eq (ne_nil_of_parse hParse)]
  refine ⟨hFile, hUntouched.loop, ⟨hArmed.first, hArmed.folders, hArmed.lastDelivered⟩,
    ⟨hSynced.current, hSynced.holding, hSynced.compared, hSynced.latest⟩, m, ?_, ?_⟩
  · show FeatureMap.parse (w.sent.getLastD w.second) = .ok m
    rw [hUntouched.sent]
    exact hParse
  · show ((w.client.update w.second).2.updateAll w.channel).installed = some m
    rw [hUntouched.channel]
    -- a fresh client has no map that could have the same version
    refine installed_update hParse fun m' hInstalled => ?_
    rw [hUntouched.client] at hInstalled
    cases hInstalled

theorem inv_watch (hInv : Inv IsDocument folder w) {watcher : Watcher}
    (hCaller : w.caller = .returned) (hLoop : w.loop = .unstarted)
    (h : w.watcher.watch = (.ok (), watcher)) :
    Inv IsDocument folder { w with loop := .idle, watcher := watcher } := by
  unfold Inv at hInv ⊢
  rw [hCaller] at hInv
  simp only [hCaller]
  obtain ⟨hFile, hArmed, hSynced, hSettled⟩ := hInv
  -- nothing has been read since the second reading, for the loop is only beginning
  obtain ⟨hFolders, hDelivered⟩ := Watcher.watch_eq h
  refine ⟨hFile, ⟨hArmed.first, hFolders.trans hArmed.folders,
    hDelivered.trans hArmed.lastDelivered⟩, ⟨fun _ => ?_, fun _ h => (nomatch h), fun _ => ?_,
    hSynced.latest⟩, hSettled⟩
  · exact hSynced.current (by rw [hLoop]; exact Loop.noConfusion)
  · show _ ∨ watcher.lastDelivered = _
    rw [hDelivered]
    exact hSynced.compared fun bytes => by rw [hLoop]; exact Loop.noConfusion

/-! ## Steps of others -/

theorem synced_replace (hArmed : Armed IsDocument folder w) (hSynced : Synced IsDocument w)
    (bytes : Bytes) : Synced IsDocument (w.replace folder bytes) where
  current := by
    -- a replacement is reported, so there is something to be noticed
    intro _ hReports
    rw [reports_replace hArmed.folders] at hReports
    cases hReports
  holding := hSynced.holding
  compared := hSynced.compared
  latest := hSynced.latest

theorem inv_replace (hInv : Inv IsDocument folder w) {bytes : Bytes} (h : IsDocument bytes) :
    Inv IsDocument folder (w.replace folder bytes) := by
  obtain ⟨hFile, hCaller⟩ := hInv
  refine ⟨h, ?_⟩
  show HoldsAt IsDocument folder (w.replace folder bytes) w.caller
  -- only the file and the reports change
  have hUntouched : Untouched w → Untouched (w.replace folder bytes) :=
    fun ⟨hLoop, hSent, hChannel, hClient⟩ => ⟨hLoop, hSent, hChannel, hClient⟩
  have hArmed : Armed IsDocument folder w → Armed IsDocument folder (w.replace folder bytes) :=
    fun ⟨hFirst, hFolders, hDelivered⟩ => ⟨hFirst, hFolders, hDelivered⟩
  cases hEq : w.caller <;> rw [hEq] at hCaller
  case starting => exact hUntouched hCaller
  case checked => exact ⟨hUntouched hCaller.1, hCaller.2⟩
  case armed => exact ⟨hUntouched hCaller.1, hArmed hCaller.2⟩
  case synced =>
    exact ⟨hUntouched hCaller.1, hArmed hCaller.2.1, synced_replace hCaller.2.1 hCaller.2.2 bytes⟩
  case installed =>
    exact ⟨hCaller.1, hArmed hCaller.2.1, synced_replace hCaller.2.1 hCaller.2.2.1 bytes,
      hCaller.2.2.2⟩
  case registered =>
    exact ⟨hCaller.1, hArmed hCaller.2.1, synced_replace hCaller.2.1 hCaller.2.2.1 bytes,
      hCaller.2.2.2⟩
  case returned =>
    exact ⟨hArmed hCaller.1, synced_replace hCaller.1 hCaller.2.1 bytes, hCaller.2.2⟩

/-- The loop only runs when starting is over. -/
theorem returned_of_loop (hInv : Inv IsDocument folder w) (hLoop : w.loop ≠ .unstarted) :
    w.caller = .returned ∧ IsDocument w.file ∧ Armed IsDocument folder w ∧ Synced IsDocument w ∧
      Settled w := by
  obtain ⟨hFile, hCaller⟩ := hInv
  cases hEq : w.caller <;> rw [hEq] at hCaller
  case starting => exact absurd hCaller.loop hLoop
  case checked => exact absurd hCaller.1.loop hLoop
  case armed => exact absurd hCaller.1.loop hLoop
  case synced => exact absurd hCaller.1.loop hLoop
  case installed => exact absurd hCaller.1 hLoop
  case registered => exact absurd hCaller.1 hLoop
  case returned => exact ⟨rfl, hFile, hCaller⟩

theorem inv_of_returned (hCaller : w.caller = .returned) (hFile : IsDocument w.file)
    (hArmed : Armed IsDocument folder w) (hSynced : Synced IsDocument w) (hSettled : Settled w) :
    Inv IsDocument folder w := by
  unfold Inv
  rw [hCaller]
  exact ⟨hFile, hArmed, hSynced, hSettled⟩

theorem inv_wake (hInv : Inv IsDocument folder w) (hLoop : w.loop = .idle) (reports : Nat) :
    Inv IsDocument folder { w with loop := .woken, reports := reports } := by
  obtain ⟨hCaller, hFile, hArmed, hSynced, hSettled⟩ :=
    returned_of_loop hInv (by rw [hLoop]; exact Loop.noConfusion)
  refine inv_of_returned hCaller hFile ⟨hArmed.first, hArmed.folders, hArmed.lastDelivered⟩
    ⟨fun h => absurd rfl h, fun _ h => (nomatch h), fun _ => ?_, hSynced.latest⟩ hSettled
  exact hSynced.compared fun bytes => by rw [hLoop]; exact Loop.noConfusion

theorem inv_swallow (hInv : Inv IsDocument folder w) (hLoop : w.loop = .woken) (reports : Nat) :
    Inv IsDocument folder { w with reports := reports } := by
  obtain ⟨hCaller, hFile, hArmed, hSynced, hSettled⟩ :=
    returned_of_loop hInv (by rw [hLoop]; exact Loop.noConfusion)
  exact inv_of_returned hCaller hFile ⟨hArmed.first, hArmed.folders, hArmed.lastDelivered⟩
    ⟨fun h => absurd hLoop h, hSynced.holding, hSynced.compared, hSynced.latest⟩ hSettled

theorem inv_read (hInv : Inv IsDocument folder w) (hLoop : w.loop = .woken) :
    Inv IsDocument folder { w with loop := .holding w.file, seen := w.file } := by
  obtain ⟨hCaller, hFile, hArmed, hSynced, hSettled⟩ :=
    returned_of_loop hInv (by rw [hLoop]; exact Loop.noConfusion)
  refine inv_of_returned hCaller hFile ⟨hArmed.first, hArmed.folders, hArmed.lastDelivered⟩
    ⟨fun _ _ => rfl, fun bytes h => ?_, fun h => absurd rfl (h w.file), hSynced.latest⟩ hSettled
  cases h
  exact ⟨rfl, hFile⟩

theorem inv_deliver (hDocuments : AreVersioned IsDocument) (hInv : Inv IsDocument folder w)
    {bytes : Bytes} (hLoop : w.loop = .holding bytes) :
    Inv IsDocument folder (w.deliver folder bytes) := by
  obtain ⟨hCaller, hFile, hArmed, hSynced, hSettled⟩ :=
    returned_of_loop hInv (by rw [hLoop]; exact Loop.noConfusion)
  obtain ⟨hSeen, hDocument⟩ := hSynced.holding bytes hLoop
  obtain ⟨m, hParse⟩ := hDocuments.parse hDocument
  have hCurrent := hSynced.current (by rw [hLoop]; exact Loop.noConfusion)
  by_cases hKnown : w.watcher.lastDelivered = some bytes
  · rw [deliver_known (ne_nil_of_parse hParse) hKnown hArmed.folders]
    refine inv_of_returned hCaller hFile ⟨hArmed.first, hArmed.folders, hArmed.lastDelivered⟩
      ⟨fun _ => hCurrent, fun _ h => (nomatch h), fun _ => .inr ?_, hSynced.latest⟩ hSettled
    rw [hSeen]
    exact hKnown
  · rw [deliver_news (ne_nil_of_parse hParse) hKnown hArmed.folders]
    -- news become what was delivered last, for the loop and for the client
    have hLast : ∀ other, (w.sent ++ [bytes]).getLastD other = bytes := by simp
    refine inv_of_returned hCaller hFile ⟨hArmed.first, hArmed.folders, ?_⟩
      ⟨fun _ => hCurrent, fun _ h => (nomatch h), fun _ => .inr ?_, ?_⟩ ⟨m, ?_, ?_⟩
    · exact congrArg some (hLast w.first).symm
    · exact congrArg some hSeen.symm
    · show IsDocument ((w.sent ++ [bytes]).getLastD w.second)
      rw [hLast]
      exact hDocument
    · show FeatureMap.parse ((w.sent ++ [bytes]).getLastD w.second) = .ok m
      rw [hLast]
      exact hParse
    · show (w.client.updateAll (w.channel ++ [bytes])).installed = some m
      rw [Client.updateAll_append]
      -- what the client will have by then is a document too, and versions tell documents apart
      refine installed_update hParse fun m' hInstalled hVersion hEqual => ?_
      obtain ⟨latest, hParseLatest, hLatest⟩ := hSettled
      rw [hLatest] at hInstalled
      cases hInstalled
      exact hDocuments.same hSynced.latest hDocument hParseLatest hParse hVersion hEqual

/-- Only what has been delivered can be on its way. -/
theorem settled_of_channel (hInv : Inv IsDocument folder w) (hChannel : w.channel ≠ []) :
    Settled w := by
  -- up to the second reading nobody has delivered anything
  obtain ⟨-, hCaller⟩ := hInv
  cases hEq : w.caller <;> rw [hEq] at hCaller
  case starting => exact absurd hCaller.channel hChannel
  case checked => exact absurd hCaller.1.channel hChannel
  case armed => exact absurd hCaller.1.channel hChannel
  case synced => exact absurd hCaller.1.channel hChannel
  case installed => exact hCaller.2.2.2
  case registered => exact hCaller.2.2.2
  case returned => exact hCaller.2.2

theorem inv_consume (hInv : Inv IsDocument folder w) {bytes : Bytes} {channel : List Bytes}
    (hChannel : w.channel = bytes :: channel) :
    Inv IsDocument folder (w.consume bytes channel) := by
  have hSettled : Settled (w.consume bytes channel) := by
    obtain ⟨m, hParse, hInstalled⟩ := settled_of_channel hInv (by rw [hChannel]; simp)
    rw [hChannel] at hInstalled
    exact ⟨m, hParse, hInstalled⟩
  -- something is on its way, so the client has been installed into already
  have hOnTheWay : ¬ Untouched w := by
    intro hUntouched
    rw [hUntouched.channel] at hChannel
    cases hChannel
  have hSynced : Synced IsDocument w → Synced IsDocument (w.consume bytes channel) :=
    fun ⟨hCurrent, hHolding, hCompared, hLatest⟩ => ⟨hCurrent, hHolding, hCompared, hLatest⟩
  have hArmed : Armed IsDocument folder w → Armed IsDocument folder (w.consume bytes channel) :=
    fun ⟨hFirst, hFolders, hDelivered⟩ => ⟨hFirst, hFolders, hDelivered⟩
  obtain ⟨hFile, hCaller⟩ := hInv
  refine ⟨hFile, ?_⟩
  show HoldsAt IsDocument folder (w.consume bytes channel) w.caller
  cases hEq : w.caller <;> rw [hEq] at hCaller
  case starting => exact absurd hCaller hOnTheWay
  case checked => exact absurd hCaller.1 hOnTheWay
  case armed => exact absurd hCaller.1 hOnTheWay
  case synced => exact absurd hCaller.1 hOnTheWay
  case installed => exact ⟨hCaller.1, hArmed hCaller.2.1, hSynced hCaller.2.2.1, hSettled⟩
  case registered => exact ⟨hCaller.1, hArmed hCaller.2.1, hSynced hCaller.2.2.1, hSettled⟩
  case returned => exact ⟨hArmed hCaller.1, hSynced hCaller.2.1, hSettled⟩

/-! ## Runs -/

/-- Every step keeps what holds. -/
theorem step_inv (hDocuments : AreVersioned IsDocument) (hInv : Inv IsDocument folder w)
    (hStep : Step IsDocument folder w w') : Inv IsDocument folder w' := by
  cases hStep with
  | replace bytes hBytes => exact inv_replace hInv hBytes
  | check hCaller =>
    obtain ⟨hFile, hHolds⟩ := hInv
    rw [hCaller] at hHolds
    exact ⟨hFile, ⟨hHolds.loop, hHolds.sent, hHolds.channel, hHolds.client⟩, hFile⟩
  | arm hCaller => exact inv_arm hDocuments hInv hCaller
  | sync hCaller => exact inv_sync hInv hCaller
  | install hCaller => exact inv_install hDocuments hInv hCaller
  | register hCaller =>
    obtain ⟨hFile, hHolds⟩ := hInv
    rw [hCaller] at hHolds
    obtain ⟨hLoop, hArmed, hSynced, hSettled⟩ := hHolds
    exact ⟨hFile, hLoop, ⟨hArmed.first, hArmed.folders, hArmed.lastDelivered⟩,
      ⟨hSynced.current, hSynced.holding, hSynced.compared, hSynced.latest⟩, hSettled⟩
  | giveBack hCaller =>
    obtain ⟨hFile, hHolds⟩ := hInv
    rw [hCaller] at hHolds
    obtain ⟨-, hArmed, hSynced, hSettled⟩ := hHolds
    exact ⟨hFile, ⟨hArmed.first, hArmed.folders, hArmed.lastDelivered⟩,
      ⟨hSynced.current, hSynced.holding, hSynced.compared, hSynced.latest⟩, hSettled⟩
  | watch watcher hCaller hLoop hWatch => exact inv_watch hInv hCaller hLoop hWatch
  | wake reports hLoop _ => exact inv_wake hInv hLoop reports
  | swallow reports hLoop _ => exact inv_swallow hInv hLoop reports
  | read hLoop => exact inv_read hInv hLoop
  | deliver bytes hLoop => exact inv_deliver hDocuments hInv hLoop
  | consume bytes channel hChannel => exact inv_consume hInv hChannel

theorem reachable_inv (hDocuments : AreVersioned IsDocument) (h : Reachable IsDocument folder w) :
    Inv IsDocument folder w := by
  induction h with
  | initial path scopes hFile => exact inv_initial path scopes hFile
  | step _ hStep ih => exact step_inv hDocuments ih hStep

/-! ## At rest -/

theorem World.IsAtRest.loop_ne (hRest : w.IsAtRest) :
    w.loop ≠ .woken ∧ ∀ bytes, w.loop ≠ .holding bytes := by
  rcases hRest.loop with hLoop | hLoop
  · rw [hLoop]
    exact ⟨Loop.noConfusion, fun _ => Loop.noConfusion⟩
  · rw [hLoop]
    exact ⟨Loop.noConfusion, fun _ => Loop.noConfusion⟩

/-- If something has been delivered, then what was delivered last is in the file. -/
theorem file_eq_of_sent (hRest : w.IsAtRest) (hArmed : Armed IsDocument folder w)
    (hSynced : Synced IsDocument w) (hSent : w.sent ≠ []) (other : Bytes) :
    w.sent.getLastD other = w.file := by
  obtain ⟨hNotWoken, hNotHolding⟩ := hRest.loop_ne
  have hSeen : w.file = w.seen := hSynced.current hNotWoken hRest.reports
  have hKnown : w.watcher.lastDelivered = some w.seen := by
    rcases hSynced.compared hNotHolding with ⟨-, hNone⟩ | hKnown
    · exact absurd hNone hSent
    · exact hKnown
  -- the loop remembers the delivery made last
  have hDelivered := hArmed.lastDelivered
  rw [hKnown] at hDelivered
  rw [hSeen, Option.some.inj hDelivered, List.getLastD_eq_getLast?, List.getLastD_eq_getLast?]
  cases hEnd : w.sent.getLast? with
  | none => exact absurd (List.getLast?_eq_none_iff.1 hEnd) hSent
  | some last => rfl

/-- If nothing has been delivered, then the file is as one of the two readings found it. -/
theorem file_eq_of_not_sent (hRest : w.IsAtRest) (hArmed : Armed IsDocument folder w)
    (hSynced : Synced IsDocument w) (hSent : w.sent = []) :
    w.file = w.second ∨ w.file = w.first := by
  obtain ⟨hNotWoken, hNotHolding⟩ := hRest.loop_ne
  have hSeen : w.file = w.seen := hSynced.current hNotWoken hRest.reports
  have hDelivered := hArmed.lastDelivered
  rw [hSent] at hDelivered
  rcases hSynced.compared hNotHolding with ⟨hSecond, -⟩ | hKnown
  · exact .inl (hSeen.trans hSecond)
  · rw [hKnown] at hDelivered
    exact .inr (hSeen.trans (Option.some.inj hDelivered))

/-- A client that has come to rest has what is in the file, unless nothing was ever delivered, the
file is what the first reading gave and the second reading gave another map. -/
theorem installed_iff_of_isAtRest (hDocuments : AreVersioned IsDocument)
    (h : Reachable IsDocument folder w) (hRest : w.IsAtRest) :
    ∃ m, FeatureMap.parse w.file = .ok m ∧
      (w.client.installed = some m ↔
        ¬ (w.sent = [] ∧ w.file = w.first ∧ FeatureMap.parse w.second ≠ .ok m)) := by
  obtain ⟨hFile, hHolds⟩ := reachable_inv hDocuments h
  rw [hRest.caller] at hHolds
  obtain ⟨hArmed, hSynced, latest, hLatest, hInstalled⟩ := hHolds
  -- nothing is on the way, so the client has the latest map already
  rw [hRest.channel] at hInstalled
  have hInstalled : w.client.installed = some latest := hInstalled
  obtain ⟨m, hParse⟩ := hDocuments.parse hFile
  refine ⟨m, hParse, ?_⟩
  rw [hInstalled, Option.some.injEq]
  by_cases hSent : w.sent = []
  · -- the latest map is that of the second reading
    rw [hSent] at hLatest
    have hLatest : FeatureMap.parse w.second = .ok latest := hLatest
    constructor
    · rintro rfl ⟨-, -, hOther⟩
      exact hOther hLatest
    · intro hExcept
      rcases file_eq_of_not_sent hRest hArmed hSynced hSent with hSecond | hFirst
      · rw [hSecond, hLatest] at hParse
        exact Except.ok.inj hParse
      · by_contra hOther
        refine hExcept ⟨hSent, hFirst, fun hSame => hOther ?_⟩
        rw [hLatest] at hSame
        exact Except.ok.inj hSame
  · -- the latest map is the one that was delivered last
    rw [file_eq_of_sent hRest hArmed hSynced hSent, hParse] at hLatest
    constructor
    · rintro - ⟨hNone, -, -⟩
      exact hSent hNone
    · intro _
      exact (Except.ok.inj hLatest).symm

/-! ## A stale client -/

theorem Reachable.keepBack (h : Reachable IsDocument folder w) {bytes : Bytes}
    (hLoop : w.loop = .holding bytes) (hNe : bytes ≠ [])
    (hKnown : w.watcher.lastDelivered = some bytes) (hFolders : w.watcher.folders = [folder]) :
    Reachable IsDocument folder { w with loop := .idle } := by
  rw [← deliver_known hNe hKnown hFolders]
  exact h.step (.deliver w bytes hLoop)

/-- Any two documents make the exception: the file is replaced by the second one after the first
reading and by the first one again after the second reading. -/
theorem exists_unsettled (folder : List String) (path : String) (scopes : List String)
    {first second : Bytes} (hFirst : IsDocument first) (hSecond : IsDocument second)
    (hNe : first ≠ []) :
    ∃ w, Reachable IsDocument folder w ∧ w.IsAtRest ∧ w.sent = [] ∧ w.file = first ∧
      w.first = first ∧ w.second = second := by
  have hInitial : Reachable IsDocument folder (.initial path scopes first) := .initial _ _ hFirst
  have hChecked := hInitial.step (.check _ rfl)
  have hOpened := ((hChecked.step (.arm _ rfl)).step (.replace _ _ hSecond)).step (.sync _ rfl)
  have hReturned := ((hOpened.step (.install _ rfl)).step (.register _ rfl)).step (.giveBack _ rfl)
  have hBegun := (hReturned.step (.replace _ _ hFirst)).step (.watch _ _ rfl rfl rfl)
  -- both replacements have been reported, and the loop takes both reports for one
  have hWoken := hBegun.step (.wake _ 1 rfl (by simp [World.replace, World.install, Watcher.arm,
    World.initial, Watcher.register, Watcher.ofPath]))
  have hRead := (hWoken.step (.swallow _ 0 rfl rfl)).step (.read _ rfl)
  -- the file is what the first reading gave, so nothing is delivered
  have hKept := hRead.keepBack rfl hNe (if_neg hNe) rfl
  exact ⟨_, hKept, ⟨rfl, .inr rfl, rfl, rfl⟩, rfl, rfl, rfl, rfl⟩

/-- A map with one switch. -/
def switched (version : String) (on : Bool) : FeatureMap :=
  ((FeatureMap.empty "dcdr").insert "default" "new_ui" (.bool on)).setInfo ⟨version, 1757030409⟩

theorem parse_switched (version : String) (on : Bool) :
    FeatureMap.parse (switched version on).write = .ok (switched version on) := by
  have hKept : (switched version on).features.Forall Value.IsKept := ⟨⟨rfl, trivial⟩, trivial⟩
  have hHeight : (switched version on).features.height ≤ FeatureMap.heightLimit := by
    show 2 ≤ 125
    decide
  exact FeatureMap.parse_write _ hKept hHeight

/-- The documents of two versions, of which the second one turns the switch off. -/
def IsSwitch (bytes : Bytes) : Prop :=
  bytes = (switched "aa" true).write ∨ bytes = (switched "bb" false).write

theorem areVersioned_isSwitch : AreVersioned IsSwitch where
  parse := by
    rintro bytes (rfl | rfl)
    · exact ⟨_, parse_switched _ _⟩
    · exact ⟨_, parse_switched _ _⟩
  same := by
    rintro _ _ m m' (rfl | rfl) (rfl | rfl) hParse hParse' - hVersion <;>
      rw [parse_switched] at hParse hParse' <;> cases hParse <;> cases hParse'
    · rfl
    · exact absurd hVersion (by decide)
    · exact absurd hVersion (by decide)
    · rfl

/-- The switch is turned off after the first reading and on again after the second one. When all has
come to rest, it is on in the file and off in the client. -/
theorem exists_stale : ∃ w, Reachable IsSwitch ["srv"] w ∧ w.IsAtRest ∧
    FeatureMap.parse w.file = .ok (switched "aa" true) ∧
    w.client.installed ≠ some (switched "aa" true) := by
  have hParse := parse_switched "aa" true
  have hOn : IsSwitch (switched "aa" true).write := .inl rfl
  have hOff : IsSwitch (switched "bb" false).write := .inr rfl
  obtain ⟨w, hReachable, hRest, hSent, hFile, hFirst, hSecond⟩ :=
    exists_unsettled ["srv"] "/srv/decider.json" [] hOn hOff (ne_nil_of_parse hParse)
  rw [← hFile] at hParse
  refine ⟨w, hReachable, hRest, hParse, fun hInstalled => ?_⟩
  -- this is just the exception that the general statement makes
  obtain ⟨m, hParse', hIff⟩ := installed_iff_of_isAtRest areVersioned_isSwitch hReachable hRest
  cases Except.ok.inj (hParse'.symm.trans hParse)
  refine hIff.1 hInstalled ⟨hSent, hFile.trans hFirst.symm, ?_⟩
  rw [hSecond, parse_switched]
  intro hSame
  exact absurd (congrArg FeatureMap.version (Except.ok.inj hSame)) (by decide)

end FeatureFlags.Following
