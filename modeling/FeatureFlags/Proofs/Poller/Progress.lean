import FeatureFlags.Proofs.Poller

/-!
# Pollers that go on

A poller names the version of its client in every request. That version is a text from the last
document that was taken over, and a document may have any text for a version, while a header may not
have any text for a value. So whether a poller goes on depends on the versions that it has taken
over: as long as all of them can be sent, a document with another version is taken over by the next
poll, and from the first one on that cannot be sent, every poll fails and nothing changes any more.

* `headers_of_not_isSendable` — a poller whose version cannot be sent cannot ask.
* `poll_of_answers` — news is taken over.
* `poll_pollAll_of_not_isSendable` — a poller whose version cannot be sent stands still.
* `poll_pollAll_installed_iff` — after every run, which pollers take news over.
-/

namespace FeatureFlags.Poller

open Http

/-! ## Asking -/

variable {p : Poller}

/-- A poller whose version cannot be sent cannot ask. -/
theorem headers_of_not_isSendable (h : ¬ IsSendable p.client.version) :
    p.headers = .error (.badHeader "if-none-match") := by
  have hNe : p.client.version ≠ "" := by
    intro hEmpty
    rw [hEmpty] at h
    exact h nofun
  unfold headers
  rw [header?_eq, if_neg h, decide_eq_true hNe]
  rfl

/-! ## One poll -/

/-- Whether a poller is answered with the document of a map, if it can ask. -/
def Answers (p : Poller) (send : Headers → Option Response) (m : FeatureMap) : Prop :=
  ∀ headers, p.headers = .ok headers →
    ∃ r, send headers = some r ∧ r.status = Status.ok ∧ FeatureMap.parse r.body = .ok m

/-- A poller that takes over a document has the map of it. -/
def withMap (p : Poller) (m : FeatureMap) : Poller :=
  { p with client := .ofMap p.client.scopes (some m.restored) }

variable {send : Headers → Option Response} {m : FeatureMap}

/-- News is taken over. -/
theorem poll_of_answers (hVersion : IsSendable p.client.version)
    (hScopes : ∀ scope ∈ p.scopes, IsSendable scope) (hAnswers : p.Answers send m)
    (hNews : m.version ≠ p.client.version) : p.poll send = (.ok .installed, p.withMap m) := by
  have hHeaders := headers_eq hVersion hScopes
  obtain ⟨r, hSend, hStatus, hParse⟩ := hAnswers _ hHeaders
  have hReceive : receive r = .ok (some m.restored) := by
    unfold receive
    rw [hStatus, if_neg (by decide), if_pos rfl, hParse]
  have hFetch : p.fetch send = .ok (some m.restored) := by
    unfold fetch
    rw [hHeaders]
    simp only [bind, Except.bind, hSend]
    exact hReceive
  -- restoring a document leaves its version alone
  have hNeeds : p.client.needs m.restored = true := by
    have hOther : p.client.version ≠ m.restored.version := hNews.symm
    rw [Client.needs, decide_eq_true hOther, Bool.or_true]
  unfold poll
  rw [hFetch]
  simp only [outcome, Option.elim_some, Client.install, if_pos hNeeds]
  rfl

theorem poll_of_not_isSendable (h : ¬ IsSendable p.client.version)
    (send : Headers → Option Response) :
    p.poll send = (.error (.badHeader "if-none-match"), p) := by
  have hFetch : p.fetch send = .error (.badHeader "if-none-match") := by
    unfold fetch
    rw [headers_of_not_isSendable h]
    rfl
  unfold poll
  rw [hFetch]

/-! ## Runs -/

theorem pollAll_append (p : Poller) (first second : List (Headers → Option Response)) :
    p.pollAll (first ++ second) = (p.pollAll first).pollAll second :=
  List.foldl_append

/-- A poller asks for the same scopes all the time. -/
theorem scopes_pollAll (p : Poller) (sends : List (Headers → Option Response)) :
    (p.pollAll sends).scopes = p.scopes := by
  induction sends generalizing p with
  | nil => rfl
  | cons send sends ih =>
    have hFirst : (p.poll send).2.scopes = p.scopes := by
      unfold poll
      split <;> rfl
    exact (ih _).trans hFirst

/-- A poller whose version cannot be sent stands still, whatever it is answered. -/
theorem pollAll_of_not_isSendable (h : ¬ IsSendable p.client.version)
    (sends : List (Headers → Option Response)) : p.pollAll sends = p := by
  induction sends with
  | nil => rfl
  | cons send sends ih =>
    show (p.poll send).2.pollAll sends = p
    rw [poll_of_not_isSendable h]
    exact ih

/-- So a version that can be sent comes after such versions only. -/
theorem isSendable_of_pollAll {sends : List (Headers → Option Response)}
    (h : IsSendable (p.pollAll sends).client.version) (n : Nat) :
    IsSendable (p.pollAll (sends.take n)).client.version := by
  by_contra hNot
  have hStill := pollAll_of_not_isSendable hNot (sends.drop n)
  rw [← pollAll_append, List.take_append_drop] at hStill
  rw [hStill] at h
  exact hNot h

/-- After every run of a poller whose scopes can be sent: if the poller, should it ask, is answered
with a document that has another version than its client, then the poll takes the document over
just when every version that the client has had on the way can be sent. Once the client has a
version that cannot be sent, every later poll fails, whatever it would be answered, and the poller
stays as it is. -/
theorem poll_pollAll_installed_iff {p : Poller} (hScopes : ∀ scope ∈ p.scopes, IsSendable scope)
    (sends : List (Headers → Option Response)) {send : Headers → Option Response} {m : FeatureMap}
    (hAnswers : (p.pollAll sends).Answers send m)
    (hNews : m.version ≠ (p.pollAll sends).client.version) :
    ((p.pollAll sends).poll send = (.ok .installed, (p.pollAll sends).withMap m) ↔
      ∀ n, IsSendable (p.pollAll (sends.take n)).client.version) ∧
    (¬ IsSendable (p.pollAll sends).client.version → ∀ later send',
      ((p.pollAll sends).pollAll later).poll send' =
        (.error (.badHeader "if-none-match"), p.pollAll sends)) := by
  have hScopes' : ∀ scope ∈ (p.pollAll sends).scopes, IsSendable scope := by
    rw [scopes_pollAll]
    exact hScopes
  refine ⟨⟨fun hPoll n => ?_, fun hAll => ?_⟩, fun hNot later send' => ?_⟩
  · apply isSendable_of_pollAll
    -- a poller that cannot ask installs nothing
    by_contra hNot
    rw [poll_of_not_isSendable hNot] at hPoll
    exact nomatch (Prod.mk.inj hPoll).1
  · have hVersion := hAll sends.length
    rw [List.take_length] at hVersion
    exact poll_of_answers hVersion hScopes' hAnswers hNews
  · rw [pollAll_of_not_isSendable hNot, poll_of_not_isSendable hNot]

/-- A document with a version. -/
def offer (version : String) (on : Bool) : FeatureMap :=
  .served "dcdr" (some ⟨version, 1757030409⟩) (SortedMap.empty.insert "new_ui" (.bool on))

/-- Whoever asks is sent the document. -/
def sendAlways (m : FeatureMap) : Headers → Option Response :=
  fun _ => some ⟨Status.ok, [], m.write⟩

theorem answers_sendAlways (p : Poller) (version : String) (on : Bool) :
    p.Answers (sendAlways (offer version on)) (offer version on) := by
  intro headers _
  refine ⟨_, rfl, rfl, FeatureMap.parse_served _ _ ?_⟩
  intro e he
  obtain rfl := List.mem_singleton.1 he
  exact Value.isKept_bool on

/-- A line break in a version stops the poller, and a usual version does not. -/
theorem poll_pollAll_installed_lineBreak :
    (((ofClient .new).pollAll [sendAlways (offer "v1" true)]).poll
      (sendAlways (offer "v2" false))).1 = .ok .installed ∧
    ((((ofClient .new).pollAll [sendAlways (offer "a\nb" true)]).pollAll
      [sendAlways (offer "v2" false)]).poll (sendAlways (offer "v3" true))).1 =
        .error (.badHeader "if-none-match") := by
  have hUsual : ((ofClient .new).pollAll [sendAlways (offer "v1" true)]).client.version = "v1" := by
    decide +kernel
  have hBroken : ((ofClient .new).pollAll [sendAlways (offer "a\nb" true)]).client.version =
      "a\nb" := by
    decide +kernel
  constructor
  · have hInstalled := poll_pollAll_installed_iff (p := ofClient .new) nofun
      [sendAlways (offer "v1" true)] (answers_sendAlways _ "v2" false)
      (by rw [hUsual]; decide)
    rw [hInstalled.1.2]
    intro n
    apply isSendable_of_pollAll
    rw [hUsual]
    decide
  · have hStopped := poll_pollAll_installed_iff (p := ofClient .new) nofun
      [sendAlways (offer "a\nb" true)] (answers_sendAlways _ "v2" false)
      (by rw [hBroken]; decide)
    have hNot : ¬ IsSendable
        ((ofClient .new).pollAll [sendAlways (offer "a\nb" true)]).client.version := by
      rw [hBroken]
      exact fun h => absurd (h '\n' (by decide)) (by decide)
    rw [hStopped.2 hNot [sendAlways (offer "v2" false)] (sendAlways (offer "v3" true))]

end FeatureFlags.Poller
