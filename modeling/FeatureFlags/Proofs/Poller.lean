import FeatureFlags.Poller
import FeatureFlags.Proofs.Server.Feature

/-!
# Polling a feature server

A client behind a feature server gets one map after the other, and a poller asks the server for its
document now and then. Maps may be installed at any moment, also while a request or an answer is
under way. Whenever an answer comes back, the poller's client then resolves what the client behind
the server resolved for the poller's scopes when the server answered. An answer without a document
is safe, because the poller's client has the version that it names only together with its view.

* `headers_eq` — what a poller asks.
* `Inv` — what ties the two clients together; `apply_inv` and `run_inv` carry it through every run.
* `poll_run` — after every run, an answer brings the poller's client to agree with the client that
  it comes from, and a poll that fails changes nothing.
-/

namespace FeatureFlags.Poller

open Http FeatureServer

/-! ## Runs -/

/-- What is under way between a poller and a server. -/
inductive UnderWay where
  | nothing
  | request (headers : Headers)
  /-- An answer, and the client behind the server as it was when the server answered. -/
  | answer (response : Response) (c : Client)

/-- The client behind a feature server, and a poller of the server. -/
structure Session where
  served : Client
  poller : Poller
  underWay : UnderWay

/-- What happens in a session. A poll is over before the next one begins. -/
inductive Event where
  | install (m : FeatureMap)
  | ask
  | answer
  | receive
  /-- The request or the answer gets lost, or there was no way to ask. -/
  | lose

/-- The request with the headers of a poller. -/
def request (f : FeatureServer) (headers : Headers) : Request :=
  ⟨"GET", f.endpoint, headers⟩

namespace Session

/-- Before anything has happened. -/
def start (own scopes : List String) : Session :=
  ⟨.ofMap own none, { Poller.ofClient .new with scopes := scopes }, .nothing⟩

/-- A session after an event. What cannot happen yet does nothing. -/
def apply (f : FeatureServer) (s : Session) : Event → Session
  | .install m => { s with served := s.served.install m }
  | .ask =>
    match s.underWay, s.poller.headers with
    | .nothing, .ok headers => { s with underWay := .request headers }
    | _, _ => s
  | .answer =>
    match s.underWay with
    | .request headers =>
      { s with underWay := .answer (f.respond s.served (request f headers)) s.served }
    | _ => s
  | .receive =>
    match s.underWay with
    | .answer response _ =>
      { s with poller := (s.poller.poll fun _ => some response).2, underWay := .nothing }
    | _ => s
  | .lose => { s with poller := (s.poller.poll fun _ => none).2, underWay := .nothing }

/-- A session after a list of events. -/
def run (f : FeatureServer) (own scopes : List String) (events : List Event) : Session :=
  events.foldl (apply f) (start own scopes)

end Session

/-! ## One poll -/

theorem header?_eq (name text : String) (isSent : Bool) :
    header? name text isSent =
      if isSent then
        if IsSendable text then .ok [(name, Bytes.ofString text)] else .error (.badHeader name)
      else .ok [] := by
  unfold header?
  rw [headerValue?_ofString]
  cases isSent with
  | false => rfl
  | true => by_cases h : IsSendable text <;> simp [h]

/-- A poller whose version can be sent can ask. -/
theorem headers_eq {p : Poller} (hVersion : IsSendable p.client.version)
    (hScopes : ∀ scope ∈ p.scopes, IsSendable scope) :
    p.headers = .ok (asking p.scopesHeader p.client.version p.scopes) := by
  have hJoin : IsSendable (",".intercalate p.scopes) := RequestedScopes.forall_join rfl hScopes
  unfold headers asking RequestedScopes.join
  rw [header?_eq, header?_eq, if_pos hVersion, if_pos hJoin]
  by_cases hEmpty : p.client.version = "" <;> by_cases hNil : p.scopes = [] <;>
    simp [hEmpty, hNil, bind, Except.bind, pure, Except.pure]

/-- What an answer of the server brings. -/
theorem receive_respond {f : FeatureServer} {c : Client} {headers : Headers} {document : FeatureMap}
    (hDocument : c.document f.jsonRoot (f.requestedScopes headers) = document)
    (hParse : FeatureMap.parse document.write = .ok document) :
    receive (f.respond c (request f headers)) =
      .ok (if isKnown headers c.version then none else some document.restored) := by
  have hRespond := respond_eq f c headers
  simp only [hDocument] at hRespond
  -- either the answer says that nothing is new, or its body is the document
  unfold receive request
  split at hRespond
  · next hKnown => rw [hRespond, if_pos rfl, if_pos hKnown]
  · next hUnknown =>
    obtain ⟨hStatus, hBody⟩ := hRespond
    rw [hStatus, hBody, hParse, if_neg (by decide), if_pos rfl, if_neg hUnknown]

/-- What a poll that the server answers does. -/
theorem poll_respond {f : FeatureServer} {c : Client} {p : Poller} {headers : Headers}
    {document : FeatureMap} (hHeaders : p.headers = .ok headers)
    (hDocument : c.document f.jsonRoot (f.requestedScopes headers) = document)
    (hParse : FeatureMap.parse document.write = .ok document) :
    (p.poll fun _ => some (f.respond c (request f headers))) =
      if isKnown headers c.version then (.ok .notModified, p)
      else (.ok (outcome p.client (some document.restored)),
        { p with client := p.client.install document.restored }) := by
  -- the headers are those that have been sent, so the request is the one answered
  have hFetch : (p.fetch fun _ => some (f.respond c (request f headers))) =
      receive (f.respond c (request f headers)) := by
    unfold fetch
    rw [hHeaders]
    rfl
  unfold poll
  rw [hFetch, receive_respond hDocument hParse]
  by_cases hKnown : isKnown headers c.version = true
  · rw [if_pos hKnown, if_pos hKnown]
    rfl
  · rw [if_neg hKnown, if_neg hKnown]
    rfl

/-- A poll that fails changes nothing. -/
theorem poll_error {p p' : Poller} {send : Headers → Option Response} {e : Error}
    (h : p.poll send = (.error e, p')) : p' = p := by
  unfold poll at h
  split at h
  · cases h
  · cases h
    rfl

theorem poll_lost (p : Poller) : (p.poll fun _ => none).2 = p := by
  have hFetch : ∃ e, p.fetch (fun _ => none) = .error e := by
    unfold fetch
    cases p.headers with
    | error e => exact ⟨e, rfl⟩
    | ok headers => exact ⟨.noResponse, rfl⟩
  obtain ⟨e, hFetch⟩ := hFetch
  unfold poll
  rw [hFetch]

/-! ## What ties the two clients together -/

/-- Whether a map can be served: its version is a fingerprint, and its numbers survive the way. -/
structure IsServable (m : FeatureMap) : Prop where
  version : IsFingerprint m.version
  kept : m.features.Forall Value.IsKept

/-- What holds of the client behind the server: it resolves the maps that it has. -/
structure Serves (own : List String) (IsInstalled : FeatureMap → Prop) (c : Client) : Prop where
  current : c.IsCurrent
  own_eq : c.scopes = own
  installed : ∀ m, c.installed = some m → IsInstalled m

/-- What holds of the poller: the view of its client is that of an installed map of its version. -/
structure Follows (f : FeatureServer) (own scopes : List String) (IsInstalled : FeatureMap → Prop)
    (p : Poller) : Prop where
  scopes_eq : p.scopes = scopes
  header : p.scopesHeader = f.scopesHeader
  alone : p.client.scopes = []
  tied : p.client.version ≠ "" → ∃ m, IsInstalled m ∧ m.version = p.client.version ∧
    p.client.features = m.merged (own ++ scopes)

/-- What holds of what is under way: it is what the poller has asked, or what the server has
answered to that. -/
def Fits (f : FeatureServer) (own : List String) (IsInstalled : FeatureMap → Prop) (p : Poller) :
    UnderWay → Prop
  | .nothing => True
  | .request headers => p.headers = .ok headers
  | .answer response c => Serves own IsInstalled c ∧
    ∃ headers, p.headers = .ok headers ∧ response = f.respond c (request f headers)

/-- What holds at every moment of a session. -/
structure Inv (f : FeatureServer) (own scopes : List String) (IsInstalled : FeatureMap → Prop)
    (s : Session) : Prop where
  served : Serves own IsInstalled s.served
  poller : Follows f own scopes IsInstalled s.poller
  underWay : Fits f own IsInstalled s.poller s.underWay

/-- Whether two clients agree on what is resolved for scopes, and on its version. -/
structure Agree (polling served : Client) (scopes : List String) : Prop where
  features : polling.features = (served.withScopes scopes).features
  version : polling.version = served.version

section

variable {f : FeatureServer} {own scopes : List String} {IsInstalled : FeatureMap → Prop}
  {c : Client} {p : Poller} {s : Session}

theorem isFingerprint_empty : IsFingerprint "" := by
  intro c hc
  cases hc

theorem Follows.isFingerprint (h : Follows f own scopes IsInstalled p)
    (hServable : ∀ m, IsInstalled m → IsServable m) : IsFingerprint p.client.version := by
  by_cases hEmpty : p.client.version = ""
  · rw [hEmpty]
    exact isFingerprint_empty
  · obtain ⟨m, hInstalled, hVersion, -⟩ := h.tied hEmpty
    rw [← hVersion]
    exact (hServable m hInstalled).version

/-- The numbers of the map behind the server survive the way. -/
theorem Serves.kept (h : Serves own IsInstalled c) (hServable : ∀ m, IsInstalled m → IsServable m) :
    ∀ m, c.installed = some m → m.features.Forall Value.IsKept :=
  fun m hMap => (hServable m (h.installed m hMap)).kept

theorem Serves.install (h : Serves own IsInstalled c) {m : FeatureMap} (hm : IsInstalled m) :
    Serves own IsInstalled (c.install m) where
  current := Client.isCurrent_install h.current m
  own_eq := (Client.scopes_install c m).trans h.own_eq
  installed := by
    intro m' hMap
    unfold Client.install at hMap
    split at hMap
    · cases hMap
      exact hm
    · exact h.installed m' hMap

/-- What the poller's client has after it has taken over a document. -/
theorem agree_install {c polling : Client} (hCurrent : c.IsCurrent) (hAlone : polling.scopes = [])
    (root : String) (scopes : List String)
    (hNeeds : polling.needs (c.document root scopes.eraseDups).restored = true) :
    Agree (polling.install (c.document root scopes.eraseDups).restored) c scopes := by
  have hInstall : polling.install (c.document root scopes.eraseDups).restored =
      .ofMap [] (some (c.document root scopes.eraseDups).restored) := by
    rw [Client.install, if_pos hNeeds, hAlone]
  rw [hInstall]
  refine ⟨?_, version_document c root _⟩
  show (c.document root scopes.eraseDups).restored.merged [] = _
  -- what was served is what is resolved
  rw [document_eq hCurrent, FeatureMap.merged_restored_served, Client.features_withScopes hCurrent,
    Client.features_withScopes hCurrent]
  cases c.installed with
  | none => rfl
  | some m => exact FeatureMap.merged_eraseDups m c.scopes scopes

/-- The version of the map behind the server comes with the view of that map. -/
theorem Follows.agree_of_version (hServes : Serves own IsInstalled c)
    (h : Follows f own scopes IsInstalled p)
    (hSame : ∀ m m', IsInstalled m → IsInstalled m' → m.version ≠ "" → m.version = m'.version →
      m = m')
    (hTagged : c.version ≠ "") (hVersions : p.client.version = c.version) :
    Agree p.client c scopes := by
  refine ⟨?_, hVersions⟩
  obtain ⟨m, hInstalled, hVersion, hFeatures⟩ := h.tied (hVersions ▸ hTagged)
  rw [hFeatures, Client.features_withScopes hServes.current, hServes.own_eq]
  cases hMap : c.installed with
  | none =>
    rw [Client.version, hMap] at hTagged
    exact absurd rfl hTagged
  | some m' =>
    -- the map that the poller follows and the map served have one version, and so they are one
    have hVersion' : c.version = m'.version := by
      rw [Client.version, hMap]
      rfl
    have hEqual : m.version = m'.version := hVersion.trans (hVersions.trans hVersion')
    have hNamed : m.version ≠ "" := by
      rw [hEqual, ← hVersion']
      exact hTagged
    rw [hSame m m' hInstalled (hServes.installed m' hMap) hNamed hEqual]
    rfl

/-- A client that agrees with the one behind the server goes with the poller. -/
theorem Follows.of_agree (hServes : Serves own IsInstalled c)
    (h : Follows f own scopes IsInstalled p) {polling : Client} (hAlone : polling.scopes = [])
    (hAgree : Agree polling c scopes) :
    Follows f own scopes IsInstalled { p with client := polling } where
  scopes_eq := h.scopes_eq
  header := h.header
  alone := hAlone
  tied := by
    intro hVersion
    change polling.version ≠ "" at hVersion
    show ∃ m, IsInstalled m ∧ m.version = polling.version ∧
      polling.features = m.merged (own ++ scopes)
    rw [hAgree.version] at hVersion
    -- a version that is not empty comes from a map
    cases hMap : c.installed with
    | none =>
      rw [Client.version, hMap] at hVersion
      exact absurd rfl hVersion
    | some m =>
      refine ⟨m, hServes.installed m hMap, ?_, ?_⟩
      · rw [hAgree.version, Client.version, hMap]
        rfl
      · rw [hAgree.features, Client.features_withScopes hServes.current, hServes.own_eq, hMap]
        rfl

variable (hHeader : f.scopesHeader = defaultScopesHeader)
  (hAskable : ∀ scope ∈ scopes, RequestedScopes.IsAskable scope)
  (hFew : scopes.eraseDups.length ≤ RequestedScopes.limit)
  (hServable : ∀ m, IsInstalled m → IsServable m)
  (hSame : ∀ m m', IsInstalled m → IsInstalled m' → m.version ≠ "" → m.version = m'.version →
    m = m')

include hAskable hServable

/-- A poller can always ask. -/
theorem Follows.headers_eq (h : Follows f own scopes IsInstalled p) :
    p.headers = .ok (asking f.scopesHeader p.client.version scopes) := by
  have hVersion : IsSendable p.client.version := fun c hc =>
    isSendable_of_isVisible (isVisible_of_isHexDigit (h.isFingerprint hServable c hc))
  have hScopes : ∀ scope ∈ p.scopes, IsSendable scope := by
    rw [h.scopes_eq]
    exact fun scope hScope c hc => isSendable_of_isVisible ((hAskable scope hScope).visible c hc)
  rw [Poller.headers_eq hVersion hScopes, h.header, h.scopes_eq]

include hHeader hFew hSame

/-- A poll that the server answers succeeds, and then the two clients agree. -/
theorem Follows.poll (hServes : Serves own IsInstalled c) (h : Follows f own scopes IsInstalled p)
    {headers : Headers} (hHeaders : p.headers = .ok headers) :
    ∃ outcome polling, (p.poll fun _ => some (f.respond c (request f headers))) =
        (.ok outcome, { p with client := polling }) ∧
      polling.scopes = [] ∧ Agree polling c scopes := by
  have hOther : f.scopesHeader ≠ "if-none-match" := by
    rw [hHeader]
    decide
  have hAsking : headers = asking f.scopesHeader p.client.version scopes :=
    Except.ok.inj (hHeaders.symm.trans (h.headers_eq hAskable hServable))
  have hRequested : f.requestedScopes headers = scopes.eraseDups := by
    rw [hAsking]
    exact requestedScopes_asking hOther hAskable hFew
  have hParse : FeatureMap.parse (c.document f.jsonRoot scopes.eraseDups).write =
      .ok (c.document f.jsonRoot scopes.eraseDups) :=
    parse_document hServes.current (hServes.kept hServable) f.jsonRoot _
  -- the server leaves the document out just when the poller has the version already
  have hKnown : isKnown headers c.version = (c.version ≠ "" && p.client.version = c.version) := by
    rw [hAsking]
    exact isKnown_asking hOther (h.isFingerprint hServable) _
  rw [poll_respond hHeaders (congrArg _ hRequested) hParse, hKnown]
  by_cases hTold : c.version ≠ "" ∧ p.client.version = c.version
  · -- no document comes, but the version has come with its view before
    obtain ⟨hTagged, hVersions⟩ := hTold
    exact ⟨.notModified, p.client, if_pos (by simp [hTagged, hVersions]), h.alone,
      h.agree_of_version hServes hSame hTagged hVersions⟩
  · -- a document comes, and the client does not take it for the one that it has
    have hNeeds : p.client.needs (c.document f.jsonRoot scopes.eraseDups).restored = true := by
      have hVersions : (c.document f.jsonRoot scopes.eraseDups).restored.version = c.version :=
        version_document c f.jsonRoot _
      rw [Client.needs, hVersions]
      by_cases hNew : p.client.version = ""
      · simp [hNew]
      · simp only [Bool.or_eq_true, decide_eq_true_eq]
        right
        intro hVersions
        exact hTold ⟨hVersions ▸ hNew, hVersions⟩
    refine ⟨_, _, if_neg (by simpa using hTold), ?_,
      agree_install hServes.current h.alone f.jsonRoot scopes hNeeds⟩
    rw [Client.install, if_pos hNeeds]
    exact h.alone

/-- Every event keeps what holds. -/
theorem apply_inv (hInv : Inv f own scopes IsInstalled s) (event : Event)
    (hEvent : ∀ m, event = .install m → IsInstalled m) :
    Inv f own scopes IsInstalled (s.apply f event) := by
  obtain ⟨hServes, hFollows, hFits⟩ := hInv
  cases event with
  | install m => exact ⟨hServes.install (hEvent m rfl), hFollows, hFits⟩
  | ask =>
    rw [Session.apply]
    split
    · next headers _ hHeaders => exact ⟨hServes, hFollows, hHeaders⟩
    · exact ⟨hServes, hFollows, hFits⟩
  | answer =>
    rw [Session.apply]
    split
    · next headers hWay =>
      rw [hWay] at hFits
      exact ⟨hServes, hFollows, hServes, headers, hFits, rfl⟩
    · exact ⟨hServes, hFollows, hFits⟩
  | receive =>
    rw [Session.apply]
    split
    · next response c hWay =>
      rw [hWay] at hFits
      obtain ⟨hServed, headers, hHeaders, rfl⟩ := hFits
      obtain ⟨outcome, polling, hPoll, hAlone, hAgree⟩ :=
        hFollows.poll hHeader hAskable hFew hServable hSame hServed hHeaders
      -- the answer was made for this very poller, which has not changed since it asked
      refine ⟨hServes, ?_, trivial⟩
      show Follows f own scopes IsInstalled (s.poller.poll fun _ => _).2
      rw [hPoll]
      exact hFollows.of_agree hServed hAlone hAgree
    · exact ⟨hServes, hFollows, hFits⟩
  | lose =>
    rw [Session.apply, poll_lost]
    exact ⟨hServes, hFollows, trivial⟩

/-- What holds at the start holds after every run. -/
theorem run_inv (events : List Event) (hEvents : ∀ m, Event.install m ∈ events → IsInstalled m) :
    Inv f own scopes IsInstalled (.run f own scopes events) := by
  have hServes : Serves own IsInstalled (.ofMap own none) :=
    ⟨Client.isCurrent_ofMap own none, rfl, fun m hMap => (nomatch hMap)⟩
  have hFollows : Follows f own scopes IsInstalled { ofClient .new with scopes := scopes } :=
    ⟨rfl, hHeader.symm, rfl, fun hVersion => absurd rfl hVersion⟩
  -- by induction on the events, from every session in which it holds
  suffices hFold : ∀ s : Session, Inv f own scopes IsInstalled s →
      Inv f own scopes IsInstalled (events.foldl (Session.apply f) s) from
    hFold _ ⟨hServes, hFollows, trivial⟩
  induction events with
  | nil => exact fun s hInv => hInv
  | cons event events ih =>
    intro s hInv
    have hFirst := apply_inv hHeader hAskable hFew hServable hSame hInv event
      fun m hEq => hEvents m (hEq ▸ List.mem_cons_self)
    exact ih (fun m hm => hEvents m (List.mem_cons_of_mem _ hm)) _ hFirst

end

/-! ## After every run -/

/-- Whatever has been installed behind the server, and however often the poller has asked: it can
ask again; an answer that is under way makes its poll succeed, and then the poller's client resolves
what the client behind the server resolved for the poller's scopes when the server answered, and has
the version of that time. A poll that fails, for whatever reason, changes nothing. -/
theorem poll_run {f : FeatureServer} (hHeader : f.scopesHeader = defaultScopesHeader)
    (own : List String) {scopes : List String}
    (hAskable : ∀ scope ∈ scopes, RequestedScopes.IsAskable scope)
    (hFew : scopes.eraseDups.length ≤ RequestedScopes.limit) {events : List Event}
    (hServable : ∀ m, Event.install m ∈ events → IsServable m)
    (hSame : ∀ m m', Event.install m ∈ events → Event.install m' ∈ events → m.version ≠ "" →
      m.version = m'.version → m = m') :
    (∃ headers, (Session.run f own scopes events).poller.headers = .ok headers) ∧
    (∀ response c, (Session.run f own scopes events).underWay = .answer response c →
      ∃ outcome p, ((Session.run f own scopes events).poller.poll fun _ => some response) =
          (.ok outcome, p) ∧
        p.client.features = (c.withScopes scopes).features ∧ p.client.version = c.version) ∧
    ∀ send e p, (Session.run f own scopes events).poller.poll send = (.error e, p) →
      p = (Session.run f own scopes events).poller := by
  obtain ⟨-, hFollows, hFits⟩ :
      Inv f own scopes (fun m => Event.install m ∈ events) (.run f own scopes events) :=
    run_inv hHeader hAskable hFew hServable hSame events fun _ hm => hm
  refine ⟨⟨_, hFollows.headers_eq hAskable hServable⟩, fun response c hWay => ?_,
    fun send e p => poll_error⟩
  rw [hWay] at hFits
  obtain ⟨hServed, headers, hHeaders, rfl⟩ := hFits
  obtain ⟨outcome, polling, hPoll, -, hAgree⟩ :=
    hFollows.poll hHeader hAskable hFew hServable hSame hServed hHeaders
  exact ⟨outcome, _, hPoll, hAgree.features, hAgree.version⟩

/-- A map with a switch that is the other way round in the scope `cc/de`. -/
def switched (version : String) (on : Bool) : FeatureMap :=
  (((FeatureMap.empty "dcdr").insert "default" "new_ui" (.bool on)).insert "cc/de" "new_ui"
    (.bool !on)).setInfo ⟨version, 1757030409⟩

theorem isServable_switched {version : String} (h : IsFingerprint version) (on : Bool) :
    IsServable (switched version on) := by
  have hEmpty : (FeatureMap.empty "dcdr").features.Forall Value.IsKept := ⟨trivial, trivial⟩
  have hOuter := Tree.forall_insertAt hEmpty (Path.solidSegments "default") "new_ui"
    (Value.isKept_bool on)
  exact ⟨h, Tree.forall_insertAt hOuter (Path.solidSegments "cc/de") "new_ui"
    (Value.isKept_bool !on)⟩

/-- The server of the default settings in the namespace `dcdr`. -/
def server : FeatureServer := ⟨"/dcdr.json", "dcdr", defaultScopesHeader⟩

/-- A second map is installed when the poller has asked again, and a third one, which has the first
version, when the server has answered. -/
def switching : List Event :=
  [.install (switched "aa" true), .ask, .answer, .receive, .ask, .install (switched "bb" false),
    .answer, .install (switched "aa" true)]

/-- The client behind the server as it was when the server gave the answer that is under way. -/
def UnderWay.served? : UnderWay → Option Client
  | .answer _ c => some c
  | _ => none

theorem poll_run_switching :
    ∃ response c outcome p,
      (Session.run server [] ["cc/de", "cc"] switching).underWay = .answer response c ∧
      ((Session.run server [] ["cc/de", "cc"] switching).poller.poll fun _ => some response) =
        (.ok outcome, p) ∧
      p.client.get? "new_ui" = some (.bool true) ∧ p.client.version = "bb" := by
  have hAskable : ∀ scope ∈ ["cc/de", "cc"], RequestedScopes.IsAskable scope := by
    intro scope hScope
    rcases List.mem_pair.1 hScope with rfl | rfl
    · exact ⟨by decide, List.all_eq_true.1 (by decide), by decide, by decide⟩
    · exact ⟨by decide, List.all_eq_true.1 (by decide), by decide, by decide⟩
  have hMaps : ∀ m, Event.install m ∈ switching →
      m = switched "aa" true ∨ m = switched "bb" false := by
    intro m hm
    simp only [switching, List.mem_cons, Event.install.injEq, reduceCtorEq, List.not_mem_nil,
      or_false, false_or] at hm
    tauto
  have hServable : ∀ m, Event.install m ∈ switching → IsServable m := by
    intro m hm
    rcases hMaps m hm with rfl | rfl
    · exact isServable_switched (List.all_eq_true.1 (by decide)) true
    · exact isServable_switched (List.all_eq_true.1 (by decide)) false
  have hSame : ∀ m m', Event.install m ∈ switching → Event.install m' ∈ switching →
      m.version ≠ "" → m.version = m'.version → m = m' := by
    intro m m' hm hm' _ hVersion
    rcases hMaps m hm with rfl | rfl <;> rcases hMaps m' hm' with rfl | rfl
    · rfl
    · exact absurd hVersion (by decide)
    · exact absurd hVersion (by decide)
    · rfl
  -- the answer under way comes from the second map
  have hServed : (Session.run server [] ["cc/de", "cc"] switching).underWay.served?.map
      (fun c => ((c.withScopes ["cc/de", "cc"]).get? "new_ui", c.version)) =
        some (some (.bool true), "bb") := by
    decide +kernel
  obtain ⟨-, hAnswered, -⟩ :=
    poll_run (f := server) rfl [] hAskable (by decide) hServable hSame
  cases hWay : (Session.run server [] ["cc/de", "cc"] switching).underWay with
  | nothing =>
    rw [hWay] at hServed
    cases hServed
  | request headers =>
    rw [hWay] at hServed
    cases hServed
  | answer response c =>
    rw [hWay] at hServed
    obtain ⟨hFound, hNamed⟩ := Prod.mk.inj (Option.some.inj hServed)
    obtain ⟨outcome, p, hPoll, hFeatures, hVersion⟩ := hAnswered response c hWay
    refine ⟨response, c, outcome, p, rfl, hPoll, ?_, hVersion.trans hNamed⟩
    rw [Client.get?, hFeatures]
    exact hFound

end FeatureFlags.Poller
