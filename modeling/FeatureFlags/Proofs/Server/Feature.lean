import FeatureFlags.Proofs.Client.Basic
import FeatureFlags.Proofs.FeatureMap.Served
import FeatureFlags.Proofs.RequestedScopes
import FeatureFlags.Server.Feature

/-!
# What the feature server answers

A request with the headers of a poller gets what the client behind the server resolves for the
scopes that are asked for, or nothing if the request names the version that this client has.

* `requestedScopes_asking` — the server understands the scopes that are asked for.
* `isKnown_asking` — and the version that the request has.
* `document_eq` — the document is the view of the client with these scopes.
-/

namespace FeatureFlags

open Http

/-! ## Fingerprints as entity tags -/

/-- Whether a character is a hexadecimal digit as fingerprints have them. -/
def isHexDigit (c : Char) : Bool :=
  ('0' ≤ c && c ≤ '9') || ('a' ≤ c && c ≤ 'f')

/-- Whether a version is written in hexadecimal digits. -/
def IsFingerprint (version : String) : Prop :=
  ∀ c ∈ version.toList, isHexDigit c = true

theorem toNat_of_isHexDigit {c : Char} (h : isHexDigit c = true) :
    (0x30 ≤ c.toNat ∧ c.toNat ≤ 0x39) ∨ (0x61 ≤ c.toNat ∧ c.toNat ≤ 0x66) := by
  simp only [isHexDigit, Bool.or_eq_true, Bool.and_eq_true, decide_eq_true_eq] at h
  exact h

theorem isVisible_of_isHexDigit {c : Char} (h : isHexDigit c = true) : isVisible c = true := by
  have hNat := toNat_of_isHexDigit h
  simp only [isVisible, Bool.or_eq_true, Bool.and_eq_true, decide_eq_true_eq, beq_iff_eq]
  omega

theorem isBlank_of_isHexDigit {c : Char} (h : isHexDigit c = true) : Text.isBlank c = false := by
  have hNat := toNat_of_isHexDigit h
  simp only [Text.isBlank, Bool.or_eq_false_iff, Bool.and_eq_false_iff, decide_eq_false_iff_not,
    beq_eq_false_iff_ne]
  omega

theorem trimList_of_forall {p : Char → Bool} {cs : List Char} (h : ∀ c ∈ cs, p c = false) :
    Text.trimList p cs = cs := by
  have hKeep : ∀ l : List Char, (∀ c ∈ l, p c = false) → l.dropWhile p = l := by
    intro l hl
    cases l with
    | nil => rfl
    | cons c l => exact List.dropWhile_cons_of_neg (by rw [hl c List.mem_cons_self]; decide)
  rw [Text.trimList, hKeep cs h, hKeep _ fun c hc => h c (List.mem_reverse.1 hc),
    List.reverse_reverse]

namespace FeatureServer

/-- A fingerprint is the version that it names as an entity tag. -/
theorem tagVersion_of_isFingerprint {version : String} (h : IsFingerprint version) :
    tagVersion version = version := by
  have hTrim : Text.trim version = version := by
    rw [Text.trim, trimList_of_forall fun c hc => isBlank_of_isHexDigit (h c hc),
      String.ofList_toList]
  -- no digit is a `W`, so the tag is not taken for a weak one
  have hStrong : Path.after? "W/" version = none := by
    rw [Option.eq_none_iff_forall_ne_some]
    intro rest hRest
    have hMem : 'W' ∈ version.toList := by
      rw [Path.after?_eq_some_iff.1 hRest, String.toList_append]
      exact List.mem_append_left _ List.mem_cons_self
    exact absurd (h 'W' hMem) (by decide)
  -- nor is there a quote to be cut off
  have hQuotes : Text.trimList (· = '"') version.toList = version.toList := by
    refine trimList_of_forall fun c hc => decide_eq_false fun hQuote => ?_
    have hDigit := h c hc
    rw [hQuote] at hDigit
    exact absurd hDigit (by decide)
  rw [tagVersion, hTrim, hStrong]
  show String.ofList (Text.trimList (· = '"') version.toList) = version
  rw [hQuotes, String.ofList_toList]

/-! ## What is understood of a request -/

/-- The headers of a request for scopes from somebody who has a version already. -/
def asking (header version : String) (scopes : List String) : Headers :=
  (if version ≠ "" then [("if-none-match", Bytes.ofString version)] else []) ++
  (if scopes ≠ [] then [(header, Bytes.ofString (RequestedScopes.join scopes))] else [])

variable {f : FeatureServer} {version : String} {scopes : List String}

theorem getAll_asking (hHeader : f.scopesHeader ≠ "if-none-match") :
    (asking f.scopesHeader version scopes).getAll f.scopesHeader =
        (if scopes ≠ [] then [Bytes.ofString (RequestedScopes.join scopes)] else []) ∧
      (asking f.scopesHeader version scopes).getAll "if-none-match" =
        if version ≠ "" then [Bytes.ofString version] else [] := by
  unfold asking Headers.getAll
  by_cases hVersion : version = "" <;> by_cases hScopes : scopes = [] <;>
    simp [hVersion, hScopes, hHeader, hHeader.symm]

/-- The server understands the scopes that are asked for. -/
theorem requestedScopes_asking (hHeader : f.scopesHeader ≠ "if-none-match")
    (h : ∀ scope ∈ scopes, RequestedScopes.IsAskable scope)
    (hFew : scopes.eraseDups.length ≤ RequestedScopes.limit) :
    f.requestedScopes (asking f.scopesHeader version scopes) = scopes.eraseDups := by
  unfold requestedScopes
  rw [Headers.get?, (getAll_asking hHeader).1]
  by_cases hNil : scopes = []
  · subst hNil
    rfl
  · rw [if_pos hNil, List.head?_cons, Option.bind_some,
      headerText?_ofString (RequestedScopes.isVisible_join h)]
    exact RequestedScopes.parse_join h hFew

/-- The server understands which version a request has. -/
theorem isKnown_asking (hHeader : f.scopesHeader ≠ "if-none-match") (h : IsFingerprint version)
    (current : String) :
    isKnown (asking f.scopesHeader version scopes) current =
      (current ≠ "" && version = current) := by
  unfold isKnown knownVersions
  rw [(getAll_asking hHeader).2]
  by_cases hEmpty : version = ""
  · rw [if_neg (not_not.2 hEmpty), hEmpty]
    by_cases hCurrent : current = ""
    · simp [hCurrent]
    · simp [Ne.symm hCurrent]
  · -- no digit is a comma, so there is one tag
    have hComma : ',' ∉ version.toList := fun hMem => absurd (h ',' hMem) (by decide)
    rw [if_pos hEmpty, List.filterMap_cons,
      headerText?_ofString fun c hc => isVisible_of_isHexDigit (h c hc)]
    simp only [List.filterMap_nil, List.flatMap_cons, List.flatMap_nil, List.append_nil,
      Path.splitAt_of_not_mem hComma, List.map_cons, List.map_nil, tagVersion_of_isFingerprint h]
    rw [List.contains_cons, List.contains_nil, Bool.or_false]
    congr 1
    by_cases hSame : version = current
    · rw [hSame, decide_eq_true rfl]
      exact beq_self_eq_true current
    · rw [decide_eq_false hSame]
      exact beq_eq_false_iff_ne.2 (Ne.symm hSame)

/-! ## What is served -/

/-- The document is the view of the client with the scopes that are asked for. -/
theorem document_eq {c : Client} (h : c.IsCurrent) (root : String) (scopes : List String) :
    c.document root scopes = .served root (c.installed.bind FeatureMap.info)
      (c.withScopes scopes).features := by
  rw [Client.features_withScopes h]
  unfold Client.document
  -- without a map there is nothing to resolve
  cases hMap : c.installed with
  | none =>
    rw [h, hMap]
    rfl
  | some m =>
    show FeatureMap.served _ _ _ = FeatureMap.served _ _ _
    congr 1
    split
    · next hNil =>
      rw [hNil, List.append_nil, h, hMap]
    · rfl

/-- What holds of every value of the installed map holds of every value that is resolved. -/
theorem forall_features_withScopes {P : Value → Prop} {c : Client} (h : c.IsCurrent)
    (hMap : ∀ m, c.installed = some m → m.features.Forall P) (scopes : List String) :
    ∀ e ∈ (c.withScopes scopes).features.toList, P e.2 := by
  rw [Client.features_withScopes h]
  cases hInstalled : c.installed with
  | none =>
    intro e he
    cases he
  | some m => exact FeatureMap.forall_merged (hMap m hInstalled) _

/-- A document is read back, if the numbers of the installed map survive. -/
theorem parse_document {c : Client} (h : c.IsCurrent)
    (hKept : ∀ m, c.installed = some m → m.features.Forall Value.IsKept) (root : String)
    (scopes : List String) :
    FeatureMap.parse (c.document root scopes).write = .ok (c.document root scopes) := by
  rw [document_eq h]
  exact FeatureMap.parse_served _ _ (forall_features_withScopes h hKept scopes)

theorem version_document (c : Client) (root : String) (scopes : List String) :
    (c.document root scopes).version = c.version := by
  unfold Client.document Client.version
  cases c.installed with
  | none => rfl
  | some m => rfl

theorem status_withHeader? (r : Response) (name : String) (value : Option Bytes) :
    (withHeader? r name value).status = r.status := by
  cases value <;> rfl

theorem body_withHeader? (r : Response) (name : String) (value : Option Bytes) :
    (withHeader? r name value).body = r.body := by
  cases value <;> rfl

/-- What the server answers to whoever asks for its document. -/
theorem respond_eq (f : FeatureServer) (c : Client) (headers : Headers) :
    let document := c.document f.jsonRoot (f.requestedScopes headers)
    let response := f.respond c ⟨"GET", f.endpoint, headers⟩
    if isKnown headers c.version then response.status = Status.notModified
    else response.status = Status.ok ∧ response.body = document.write := by
  intro document response
  -- what the server puts around a response leaves its status and its body alone
  have hStatus : response.status = (f.serve c headers).status := by
    show (withHeader? _ _ _).status = _
    rw [status_withHeader?]
    show (f.answer c _).status = _
    rw [answer, if_neg (not_not.2 rfl)]
    rfl
  have hBody : response.body = (f.serve c headers).body := by
    show (withHeader? _ _ _).body = _
    rw [body_withHeader?]
    show (f.answer c _).body = _
    rw [answer, if_neg (not_not.2 rfl)]
    rfl
  rw [hStatus, hBody, serve]
  have hVersion : (c.document f.jsonRoot (f.requestedScopes headers)).version = c.version :=
    version_document c f.jsonRoot _
  simp only [hVersion]
  split
  · exact status_withHeader? _ _ _
  · exact ⟨(status_withHeader? _ _ _).trans (status_withHeader? _ _ _),
      (body_withHeader? _ _ _).trans (body_withHeader? _ _ _)⟩

end FeatureServer

end FeatureFlags
