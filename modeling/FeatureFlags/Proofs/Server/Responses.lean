import FeatureFlags.Proofs.Client.Family
import FeatureFlags.Proofs.Server.Validators

/-!
# What every response says

A response is put together in several places: the status is chosen by the path, the method and the
versions that the request has; the document is that of the client for the scopes asked for; the
entity tag and the date are those of the document; and whatever comes of it gets the headers that
forbid caching and the scopes header of the request. `IsAnswer` says of the response as a whole what
it tells about the client, without a look at how it is put together.

* `getAll_respond`, `getAll_answer_of_not_mem` — where the headers of a response come from.
* `isDocument_write` — the body is read back as what the client resolves.
* `isAnswer_respond` — every response is an answer.
-/

namespace FeatureFlags

open Http

/-! ## Clients behind servers -/

namespace Client

/-- Whether a client comes about by installing maps that satisfy `P` and asking for scopes. -/
inductive IsMade (P : FeatureMap → Prop) : Client → Prop
  | new : IsMade P .new
  | install {c : Client} {m : FeatureMap} (h : IsMade P c) (hm : P m) : IsMade P (c.install m)
  | withScopes {c : Client} (h : IsMade P c) (scopes : List String) : IsMade P (c.withScopes scopes)

variable {P : FeatureMap → Prop} {c : Client}

theorem IsMade.isCurrent (h : IsMade P c) : c.IsCurrent := by
  induction h with
  | new => exact isCurrent_ofMap [] none
  | install _ _ ih => exact isCurrent_install ih _
  | withScopes _ scopes ih => exact isCurrent_withScopes ih scopes

theorem IsMade.forall_installed (h : IsMade P c) : ∀ m, c.installed = some m → P m := by
  induction h with
  | new => exact nofun
  | @install c m _ hm ih =>
    intro m' hMap
    rw [Client.install] at hMap
    split at hMap
    · cases hMap
      exact hm
    · exact ih m' hMap
  | withScopes _ scopes ih =>
    rw [installed_withScopes]
    exact ih

end Client

namespace FeatureServer

/-! ## What has to be said -/

/-- The headers that the server sets or reads whatever its scopes header is called. -/
def standardHeaders : List String :=
  ["cache-control", "pragma", "expires", "etag", "content-type", "last-modified", "if-none-match"]

/-- The scopes that a request asks for in the first header of a name, if that is readable. -/
def askedIn (header : String) (r : Request) : List String :=
  ((r.headers.get? header).bind headerText?).elim [] RequestedScopes.parse

/-- Whether bytes are a document with the info of a client's map and, right under its root, the
features that the client resolves for further scopes, and nothing else. -/
def IsDocument (root : String) (c : Client) (scopes : List String) (bytes : Bytes) : Prop :=
  ∃ m, FeatureMap.parse bytes = .ok m ∧ m.root = root ∧
    m.info = c.installed.bind FeatureMap.info ∧
    ∀ path item, m.lookup path = some item ↔
      ∃ name v, path = [name] ∧ item = .leaf v ∧ (c.withScopes scopes).get? name = some v

/-- What a response to a request says about the client behind the server. -/
structure IsAnswer (f : FeatureServer) (c : Client) (r : Request) (response : Response) : Prop where
  uncached : response.headers.getAll "cache-control" =
      [Bytes.ofString "no-cache, no-store, must-revalidate"] ∧
    response.headers.getAll "pragma" = [Bytes.ofString "no-cache"] ∧
    response.headers.getAll "expires" = [Bytes.ofString "0"]
  echoed : response.headers.getAll f.scopesHeader = (r.headers.get? f.scopesHeader).toList
  notFound_iff : response.status = Status.notFound ↔ r.path ≠ f.endpoint
  methodNotAllowed_iff : response.status = Status.methodNotAllowed ↔
    r.path = f.endpoint ∧ r.method ≠ "GET" ∧ r.method ≠ "HEAD"
  /-- Whoever has the version gets nothing, and whoever has not gets the document. -/
  content : r.path = f.endpoint → (r.method = "GET" ∨ r.method = "HEAD") →
    (response.status = Status.notModified ∧ response.body = [] ∧ HasVersion r.headers c.version) ∨
    (response.status = Status.ok ∧ ¬ HasVersion r.headers c.version ∧
      IsDocument f.jsonRoot c (askedIn f.scopesHeader r) response.body)
  tagged : response.status = Status.notModified ∨ response.status = Status.ok →
    response.headers.getAll "etag" =
      if c.version ≠ "" ∧ IsSendable c.version then [Bytes.ofString c.version] else []
  described : response.status = Status.ok →
    response.headers.getAll "content-type" = [Bytes.ofString "application/json"] ∧
    response.headers.getAll "last-modified" =
      ((c.lastModified.bind fun t => date? t.toInt).map Bytes.ofString).toList

/-! ## Where headers come from -/

section

variable (f : FeatureServer) (c : Client) (r : Request) (response : Response)
  {name other : String}

theorem getAll_withHeader?_self (name : String) (value : Option Bytes)
    (hNew : response.headers.getAll name = []) :
    (withHeader? response name value).headers.getAll name = value.toList := by
  cases value with
  | none => exact hNew
  | some value => exact Headers.getAll_set_self _ name value

theorem getAll_withHeader?_of_ne (value : Option Bytes) (h : other ≠ name) :
    (withHeader? response name value).headers.getAll other = response.headers.getAll other := by
  cases value with
  | none => rfl
  | some value => exact Headers.getAll_set_of_ne _ h

theorem getAll_uncached (h : other ∉ ["cache-control", "pragma", "expires"]) :
    (uncached response).headers.getAll other = response.headers.getAll other := by
  simp only [List.mem_cons, List.not_mem_nil, or_false, not_or] at h
  obtain ⟨hControl, hPragma, hExpires⟩ := h
  exact (Headers.getAll_set_of_ne _ hExpires).trans
    ((Headers.getAll_set_of_ne _ hPragma).trans (Headers.getAll_set_of_ne _ hControl))

theorem getAll_uncached_self : (uncached response).headers.getAll "cache-control" =
      [Bytes.ofString "no-cache, no-store, must-revalidate"] ∧
    (uncached response).headers.getAll "pragma" = [Bytes.ofString "no-cache"] ∧
    (uncached response).headers.getAll "expires" = [Bytes.ofString "0"] := by
  refine ⟨?_, ?_, Headers.getAll_set_self _ _ _⟩
  · exact (Headers.getAll_set_of_ne _ (by decide)).trans
      ((Headers.getAll_set_of_ne _ (by decide)).trans (Headers.getAll_set_self _ _ _))
  · exact (Headers.getAll_set_of_ne _ (by decide)).trans (Headers.getAll_set_self _ _ _)

/-- Whatever else the server does to an answer, it adds only headers. -/
theorem status_respond : (f.respond c r).status = (f.answer c r).status :=
  status_withHeader? _ _ _

theorem body_respond : (f.respond c r).body = (f.answer c r).body :=
  body_withHeader? _ _ _

theorem getAll_respond (hScopes : other ≠ f.scopesHeader)
    (h : other ∉ ["cache-control", "pragma", "expires"]) :
    (f.respond c r).headers.getAll other = (f.answer c r).headers.getAll other := by
  unfold respond
  rw [getAll_withHeader?_of_ne _ _ hScopes, getAll_uncached _ h]

/-- An answer has no headers but those that describe its document. -/
theorem getAll_answer_of_not_mem (h : name ∉ ["etag", "content-type", "last-modified"]) :
    (f.answer c r).headers.getAll name = [] := by
  simp only [List.mem_cons, List.not_mem_nil, or_false, not_or] at h
  obtain ⟨hTag, hType, hModified⟩ := h
  unfold answer
  split
  · rfl
  · split
    · rfl
    · unfold serve
      simp only
      split
      · rw [getAll_withHeader?_of_ne _ _ hTag]
        rfl
      · rw [getAll_withHeader?_of_ne _ _ hModified, getAll_withHeader?_of_ne _ _ hTag]
        simp [Headers.getAll, Ne.symm hType]

/-- The entity tag of a version is the version itself, if it can be sent. -/
theorem toList_entityTag? (version : String) : (entityTag? version).toList =
    if version ≠ "" ∧ IsSendable version then [Bytes.ofString version] else [] := by
  unfold entityTag?
  rw [headerValue?_ofString]
  by_cases hEmpty : version = ""
  · simp [hEmpty]
  · by_cases hSendable : IsSendable version
    · simp [hEmpty, hSendable]
    · simp [hEmpty, hSendable]

/-! ## What is served -/

theorem requestedScopes_eq : f.requestedScopes r.headers = askedIn f.scopesHeader r := by
  unfold requestedScopes askedIn
  cases (r.headers.get? f.scopesHeader).bind headerText? <;> rfl

theorem lastModified_document (root : String) (scopes : List String) :
    (c.document root scopes).lastModified = c.lastModified := by
  unfold Client.document Client.lastModified
  cases c.installed <;> rfl

/-- The document is read back as what the client resolves. -/
theorem isDocument_write {c : Client} (h : c.IsCurrent)
    (hKept : ∀ m, c.installed = some m → m.features.Forall Value.IsKept) (root : String)
    (scopes : List String) :
    IsDocument root c scopes (c.document root scopes).write := by
  refine ⟨_, parse_document h hKept root scopes, ?_⟩
  rw [document_eq h]
  refine ⟨rfl, rfl, fun path item => ?_⟩
  show (Tree.ofLeaves (c.withScopes scopes).features).lookup path = some item ↔ _
  cases path with
  | nil =>
    constructor
    · intro hLookup
      cases hLookup
    · rintro ⟨name, v, hPath, -⟩
      cases hPath
  | cons name rest =>
    cases rest with
    | nil =>
      rw [Tree.lookup, Tree.get?_ofLeaves, Option.map_eq_some_iff]
      constructor
      · rintro ⟨v, hGet, rfl⟩
        exact ⟨name, v, rfl, rfl, hGet⟩
      · rintro ⟨other, v, hPath, rfl, hGet⟩
        cases hPath
        exact ⟨v, hGet, rfl⟩
    | cons second rest =>
      -- nothing but leaves stands under the root, so no path goes on
      have hNone : (Tree.ofLeaves (c.withScopes scopes).features).lookup (name :: second :: rest) =
          none := by
        rw [Tree.lookup, Tree.get?_ofLeaves]
        · cases (c.withScopes scopes).features.get? name <;> rfl
        · exact List.cons_ne_nil second rest
      rw [hNone]
      constructor
      · intro hLookup
        cases hLookup
      · rintro ⟨other, v, hPath, -⟩
        cases hPath

/-- The two ways in which a request for the document is answered. -/
theorem serve_cases {c : Client} (h : c.IsCurrent)
    (hKept : ∀ m, c.installed = some m → m.features.Forall Value.IsKept) :
    ((f.serve c r.headers).status = Status.notModified ∧ (f.serve c r.headers).body = [] ∧
      HasVersion r.headers c.version) ∨
    ((f.serve c r.headers).status = Status.ok ∧ ¬ HasVersion r.headers c.version ∧
      IsDocument f.jsonRoot c (askedIn f.scopesHeader r) (f.serve c r.headers).body) := by
  unfold serve
  simp only [version_document]
  by_cases hKnown : isKnown r.headers c.version = true
  · left
    rw [if_pos hKnown, status_withHeader?, body_withHeader?]
    exact ⟨rfl, rfl, isKnown_iff.1 hKnown⟩
  · right
    rw [if_neg hKnown, status_withHeader?, status_withHeader?, body_withHeader?, body_withHeader?,
      requestedScopes_eq]
    exact ⟨rfl, fun hHas => hKnown (isKnown_iff.2 hHas), isDocument_write h hKept f.jsonRoot _⟩

theorem getAll_etag_serve : (f.serve c r.headers).headers.getAll "etag" =
    if c.version ≠ "" ∧ IsSendable c.version then [Bytes.ofString c.version] else [] := by
  rw [← toList_entityTag?]
  unfold serve
  simp only [version_document]
  split
  · exact getAll_withHeader?_self _ _ _ rfl
  · rw [getAll_withHeader?_of_ne _ _ (by decide)]
    exact getAll_withHeader?_self _ _ _ rfl

theorem described_serve (hStatus : (f.serve c r.headers).status = Status.ok) :
    (f.serve c r.headers).headers.getAll "content-type" = [Bytes.ofString "application/json"] ∧
    (f.serve c r.headers).headers.getAll "last-modified" =
      ((c.lastModified.bind fun t => date? t.toInt).map Bytes.ofString).toList := by
  unfold serve at hStatus ⊢
  simp only [version_document, lastModified_document] at hStatus ⊢
  split
  · next hKnown =>
    rw [if_pos hKnown, status_withHeader?] at hStatus
    exact absurd hStatus (by decide)
  · constructor
    · rw [getAll_withHeader?_of_ne _ _ (by decide), getAll_withHeader?_of_ne _ _ (by decide)]
      rfl
    · apply getAll_withHeader?_self
      rw [getAll_withHeader?_of_ne _ _ (by decide)]
      rfl

/-! ## Every response -/

/-- Which of the three kinds of answers a request gets. -/
theorem answer_cases :
    (r.path ≠ f.endpoint ∧ f.answer c r = .ofStatus Status.notFound) ∨
    (r.path = f.endpoint ∧ (r.method ≠ "GET" ∧ r.method ≠ "HEAD") ∧
      f.answer c r = .ofStatus Status.methodNotAllowed) ∨
    (r.path = f.endpoint ∧ (r.method = "GET" ∨ r.method = "HEAD") ∧
      f.answer c r = f.serve c r.headers) := by
  unfold answer isReading
  by_cases hPath : r.path = f.endpoint
  · by_cases hGet : r.method = "GET"
    · exact .inr (.inr ⟨hPath, .inl hGet, by simp [hPath, hGet]⟩)
    · by_cases hHead : r.method = "HEAD"
      · exact .inr (.inr ⟨hPath, .inr hHead, by simp [hPath, hHead]⟩)
      · exact .inr (.inl ⟨hPath, ⟨hGet, hHead⟩, by simp [hPath, hGet, hHead]⟩)
  · exact .inl ⟨hPath, if_pos hPath⟩

theorem status_serve (headers : Headers) :
    (f.serve c headers).status = Status.notModified ∨ (f.serve c headers).status = Status.ok := by
  unfold serve
  simp only
  split
  · exact .inl (status_withHeader? _ _ _)
  · exact .inr ((status_withHeader? _ _ _).trans (status_withHeader? _ _ _))

theorem status_answer_eq_notFound_iff :
    (f.answer c r).status = Status.notFound ↔ r.path ≠ f.endpoint := by
  rcases answer_cases f c r with ⟨hPath, hAnswer⟩ | ⟨hPath, -, hAnswer⟩ | ⟨hPath, -, hAnswer⟩
  · rw [hAnswer]
    exact ⟨fun _ => hPath, fun _ => rfl⟩
  · rw [hAnswer]
    exact ⟨fun h => absurd h (by decide), fun h => absurd hPath h⟩
  · rw [hAnswer]
    refine ⟨fun h => ?_, fun h => absurd hPath h⟩
    rcases status_serve f c r.headers with hServe | hServe <;>
      exact absurd (hServe.symm.trans h) (by decide)

theorem status_answer_eq_methodNotAllowed_iff :
    (f.answer c r).status = Status.methodNotAllowed ↔
      r.path = f.endpoint ∧ r.method ≠ "GET" ∧ r.method ≠ "HEAD" := by
  rcases answer_cases f c r with
    ⟨hPath, hAnswer⟩ | ⟨hPath, hMethod, hAnswer⟩ | ⟨hPath, hMethod, hAnswer⟩
  · rw [hAnswer]
    exact ⟨fun h => absurd h (by decide), fun h => absurd h.1 hPath⟩
  · rw [hAnswer]
    exact ⟨fun _ => ⟨hPath, hMethod⟩, fun _ => rfl⟩
  · rw [hAnswer]
    refine ⟨fun h => ?_, fun ⟨_, hGet, hHead⟩ => (hMethod.elim hGet hHead).elim⟩
    rcases status_serve f c r.headers with hServe | hServe <;>
      exact absurd (hServe.symm.trans h) (by decide)

theorem answer_eq_serve (hPath : r.path = f.endpoint)
    (hMethod : r.method = "GET" ∨ r.method = "HEAD") : f.answer c r = f.serve c r.headers := by
  rcases answer_cases f c r with ⟨hOther, -⟩ | ⟨-, ⟨hGet, hHead⟩, -⟩ | ⟨-, -, hAnswer⟩
  · exact absurd hPath hOther
  · exact (hMethod.elim hGet hHead).elim
  · exact hAnswer

theorem answer_eq_serve_of_status
    (h : (f.answer c r).status = Status.notModified ∨ (f.answer c r).status = Status.ok) :
    f.answer c r = f.serve c r.headers := by
  rcases answer_cases f c r with ⟨-, hAnswer⟩ | ⟨-, -, hAnswer⟩ | ⟨-, -, hAnswer⟩
  · rw [hAnswer] at h
    exact absurd h (by decide)
  · rw [hAnswer] at h
    exact absurd h (by decide)
  · exact hAnswer

end

/-- Whatever is asked of a server, and whatever has been installed behind it, if the numbers survive
the way: the response cannot be cached and has the scopes header of the request. It says that there
is nothing here just when the path is not that of the document, and that the method is not allowed
just when it does not only ask for something. Else it says that nothing is new to whoever has the
version, or it is read back as the document of what the client resolves for the scopes asked for;
and it has the version as its tag, whenever there is one that can be sent. -/
theorem isAnswer_respond {f : FeatureServer} {c : Client}
    (hHeader : f.scopesHeader ∉ standardHeaders)
    (hMade : c.IsMade fun m => m.features.Forall Value.IsKept) (r : Request) :
    IsAnswer f c r (f.respond c r) := by
  have hNe : ∀ name ∈ standardHeaders, name ≠ f.scopesHeader :=
    fun name hName hSame => hHeader (hSame ▸ hName)
  constructor
  case uncached =>
    unfold respond
    rw [getAll_withHeader?_of_ne _ _ (hNe "cache-control" (by decide)),
      getAll_withHeader?_of_ne _ _ (hNe "pragma" (by decide)),
      getAll_withHeader?_of_ne _ _ (hNe "expires" (by decide))]
    exact getAll_uncached_self _
  case echoed =>
    have hFresh : ∀ names ⊆ standardHeaders, f.scopesHeader ∉ names :=
      fun names hNames hMem => hHeader (hNames hMem)
    apply getAll_withHeader?_self
    rw [getAll_uncached _ (hFresh _ (by decide)),
      getAll_answer_of_not_mem f c r (hFresh _ (by decide))]
  -- what else is said is said by the answer
  all_goals rw [status_respond]
  case notFound_iff => exact status_answer_eq_notFound_iff f c r
  case methodNotAllowed_iff => exact status_answer_eq_methodNotAllowed_iff f c r
  case content =>
    intro hPath hMethod
    rw [body_respond, answer_eq_serve f c r hPath hMethod]
    exact serve_cases f r hMade.isCurrent hMade.forall_installed
  case tagged =>
    intro hStatus
    rw [getAll_respond f c r (hNe "etag" (by decide)) (by decide),
      answer_eq_serve_of_status f c r hStatus]
    exact getAll_etag_serve f c r
  case described =>
    intro hStatus
    have hServe := answer_eq_serve_of_status f c r (.inr hStatus)
    rw [getAll_respond f c r (hNe "content-type" (by decide)) (by decide),
      getAll_respond f c r (hNe "last-modified" (by decide)) (by decide), hServe]
    rw [hServe] at hStatus
    exact described_serve f c r hStatus

/-- A client whose map switches a feature on, but off in the scope `cc/de`. -/
def switchedClient : Client :=
  Client.new.install ((((FeatureMap.empty "dcdr").insert "default" "flag" (.bool true)).insert
    "cc/de" "flag" (.bool false)).setInfo ⟨"v1", 1757030409⟩)

/-- A request for the scope `cc/de` from somebody who has another version. -/
def scopedRequest : Request :=
  ⟨"HEAD", "/dcdr.json", [("x-dcdr-scopes", Bytes.ofString " cc/de, beta"),
    ("if-none-match", Bytes.ofString "W/\"v0\"")]⟩

theorem isAnswer_respond_scoped :
    dcdrServer.scopesHeader ∉ standardHeaders ∧
    switchedClient.IsMade (fun m => m.features.Forall Value.IsKept) ∧
    (dcdrServer.respond switchedClient scopedRequest).headers.getAll "etag" =
      [Bytes.ofString "v1"] ∧
    (dcdrServer.respond switchedClient scopedRequest).headers.getAll "x-dcdr-scopes" =
      [Bytes.ofString " cc/de, beta"] ∧
    ∃ m, FeatureMap.parse (dcdrServer.respond switchedClient scopedRequest).body = .ok m ∧
      m.root = "dcdr" ∧ m.lookup ["flag"] = some (.leaf (.bool false)) := by
  have hHeader : dcdrServer.scopesHeader ∉ standardHeaders := by decide
  have hMade : switchedClient.IsMade fun m => m.features.Forall Value.IsKept :=
    .install .new ⟨⟨⟨rfl, trivial⟩, trivial⟩, ⟨rfl, trivial⟩, trivial⟩
  have hAnswer := isAnswer_respond hHeader hMade scopedRequest
  have hUnknown : ¬ HasVersion scopedRequest.headers switchedClient.version := by
    rw [← isKnown_iff]
    decide +kernel
  have hFlag : (switchedClient.withScopes (askedIn dcdrServer.scopesHeader scopedRequest)).get?
      "flag" = some (.bool false) := by
    decide +kernel
  obtain ⟨-, -, hHas⟩ | ⟨hOk, -, m, hParse, hRoot, -, hLookup⟩ := hAnswer.content rfl (.inr rfl)
  · exact absurd hHas hUnknown
  · refine ⟨hHeader, hMade, ?_, hAnswer.echoed, m, hParse, hRoot, ?_⟩
    · exact (hAnswer.tagged (.inr hOk)).trans (by decide +kernel)
    · exact (hLookup _ _).2 ⟨"flag", _, rfl, rfl, hFlag⟩

end FeatureServer

end FeatureFlags
