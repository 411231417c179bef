import FeatureFlags.Proofs.Server.Feature
import FeatureFlags.Proofs.Text.Trim

/-!
# Versions in entity tags

A request lists the versions that it has as entity tags with commas in between. A tag may put a
version in quotes, which may be missing or be more than one, and may be marked as weak; neither of
this counts. So a version may be listed although the header is another text than the version, and a
version that itself looks like a list, a marked tag or a quoted one cannot be listed by writing it
down.

* `tagVersion_eq_iff` — which version a tag names.
* `isKnown_iff` — which versions a request has.
* `status_respond_validator` — when a request with one such header is told that nothing is new.
-/

namespace FeatureFlags.FeatureServer

open Http
open Text (Encloses IsTrimmed isBlank)

/-! ## Tags -/

/-- Whether an entity tag names a version: the version stands in any number of quotes, behind the
mark of a weak tag if there is one, and with blanks around all of it. -/
inductive Names (tag version : String) : Prop
  | strong {core : List Char} (blanks : Encloses isBlank tag.toList core)
      (unmarked : ¬ ['W', '/'] <+: core) (quotes : Encloses (· = '"') core version.toList)
  | weak {core : List Char} (blanks : Encloses isBlank tag.toList (['W', '/'] ++ core))
      (quotes : Encloses (· = '"') core version.toList)

/-- Whether a list of entity tags names a version. -/
def Lists (text version : String) : Prop :=
  ∃ tag ∈ Path.splitAt ',' text, Names tag version

variable {tag version : String}

theorem ofList_trimList_eq_iff {p : Char → Bool} {cs : List Char} :
    String.ofList (Text.trimList p cs) = version ↔ Encloses p cs version.toList := by
  rw [← Text.trimList_eq_iff]
  constructor
  · rintro rfl
    rw [String.toList_ofList]
  · intro h
    rw [h, String.ofList_toList]

/-- The version that is made of a tag is the one that it names. -/
theorem tagVersion_eq_iff : tagVersion tag = version ↔ Names tag version := by
  have hTrim : Encloses isBlank tag.toList (Text.trim tag).toList :=
    ofList_trimList_eq_iff.1 rfl
  unfold tagVersion
  cases hMark : Path.after? "W/" (Text.trim tag) with
  | none =>
    -- no mark is cut off, so the quotes are around all that is not blank
    have hUnmarked : ¬ ['W', '/'] <+: (Text.trim tag).toList := Path.after?_eq_none_iff.1 hMark
    simp only [hMark, Option.getD_none, ofList_trimList_eq_iff]
    constructor
    · exact .strong hTrim hUnmarked
    · rintro (⟨hBlanks, -, hQuotes⟩ | ⟨hBlanks, -⟩)
      · rwa [hBlanks.unique hTrim] at hQuotes
      · exact absurd ⟨_, hBlanks.unique hTrim⟩ hUnmarked
  | some rest =>
    have hMarked : (Text.trim tag).toList = ['W', '/'] ++ rest.toList := by
      rw [Path.after?_eq_some_iff.1 hMark, String.toList_append]
      rfl
    rw [hMarked] at hTrim
    simp only [hMark, Option.getD_some, ofList_trimList_eq_iff]
    constructor
    · exact .weak hTrim
    · rintro (⟨hBlanks, hUnmarked, -⟩ | ⟨hBlanks, hQuotes⟩)
      · rw [hBlanks.unique hTrim] at hUnmarked
        exact absurd (List.prefix_append _ _) hUnmarked
      · rwa [List.append_cancel_left (hBlanks.unique hTrim)] at hQuotes

/-! ## Lists of tags -/

/-- Whether a request has a version: it is not empty, and one of the readable headers lists it. -/
def HasVersion (headers : Headers) (version : String) : Prop :=
  version ≠ "" ∧ ∃ value ∈ headers.getAll "if-none-match", ∃ text, headerText? value = some text ∧
    Lists text version

/-- The versions that are known to a request are those that it has. -/
theorem isKnown_iff {headers : Headers} :
    isKnown headers version = true ↔ HasVersion headers version := by
  unfold isKnown knownVersions HasVersion Lists
  simp only [Bool.and_eq_true, decide_eq_true_eq, List.contains_iff_mem, List.mem_flatMap,
    List.mem_filterMap, List.mem_map, tagVersion_eq_iff]
  constructor
  · rintro ⟨hNe, text, ⟨value, hValue, hText⟩, hLists⟩
    exact ⟨hNe, value, hValue, text, hText, hLists⟩
  · rintro ⟨hNe, value, hValue, text, hText, hLists⟩
    exact ⟨hNe, text, ⟨value, hValue, hText⟩, hLists⟩

/-- Whether a version is listed by writing it down. -/
structure IsPlain (version : String) : Prop where
  no_comma : ',' ∉ version.toList
  unmarked : ¬ ['W', '/'] <+: version.toList
  unquoted : IsTrimmed (· = '"') version.toList

instance (version : String) : Decidable (IsPlain version) :=
  decidable_of_iff (',' ∉ version.toList ∧ ¬ ['W', '/'] <+: version.toList ∧
      IsTrimmed (· = '"') version.toList)
    ⟨fun h => ⟨h.1, h.2.1, h.2.2⟩, fun h => ⟨h.no_comma, h.unmarked, h.unquoted⟩⟩

theorem IsPlain.lists_self (h : IsPlain version) (hTrimmed : IsTrimmed isBlank version.toList) :
    Lists version version := by
  refine ⟨version, ?_, .strong hTrimmed.encloses_self h.unmarked h.unquoted.encloses_self⟩
  rw [Path.splitAt_of_not_mem h.no_comma]
  exact List.mem_singleton_self version

/-! ## Answers to lists -/

/-- Whether a text comes through a header as it is: it is not empty, every character of it is
visible, and there are no blanks at its ends. -/
structure IsHeaderText (s : String) : Prop where
  ne : s ≠ ""
  visible : ∀ c ∈ s.toList, isVisible c = true
  trimmed : IsTrimmed isBlank s.toList

instance (s : String) : Decidable (IsHeaderText s) :=
  decidable_of_iff (s ≠ "" ∧ s.toList.all isVisible = true ∧ IsTrimmed isBlank s.toList)
    ⟨fun h => ⟨h.1, List.all_eq_true.1 h.2.1, h.2.2⟩,
      fun h => ⟨h.ne, List.all_eq_true.2 h.visible, h.trimmed⟩⟩

theorem status_respond_eq_notModified_iff (f : FeatureServer) (c : Client) (headers : Headers) :
    (f.respond c ⟨"GET", f.endpoint, headers⟩).status = Status.notModified ↔
      isKnown headers c.version = true := by
  have hRespond := respond_eq f c headers
  simp only at hRespond
  split at hRespond
  · next hKnown => exact ⟨fun _ => hKnown, fun _ => hRespond⟩
  · next hUnknown =>
    rw [hRespond.1]
    exact ⟨fun h => absurd h (by decide), fun h => absurd h hUnknown⟩

/-- With one readable header a request has what that header lists. -/
theorem isKnown_singleton_iff {headers : Headers} {text : String} (hVersion : version ≠ "")
    (hText : ∀ c ∈ text.toList, isVisible c = true)
    (hHeaders : headers.getAll "if-none-match" = [Bytes.ofString text]) :
    isKnown headers version = true ↔ Lists text version := by
  rw [isKnown_iff, HasVersion, hHeaders]
  constructor
  · rintro ⟨-, value, hValue, text', hText', hLists⟩
    rw [List.mem_singleton.1 hValue, headerText?_ofString hText] at hText'
    cases hText'
    exact hLists
  · intro hLists
    exact ⟨hVersion, _, List.mem_singleton_self _, text, headerText?_ofString hText, hLists⟩

/-- What is answered to a request with one version header, which is the text `w`, when the version
of the server's client is `v`. Another text than the version itself counts as the version just when
it lists it, and the version itself counts if writing it down lists it. -/
theorem status_respond_validator (f : FeatureServer) {c : Client} {headers : Headers}
    {v w : String} (hv : IsHeaderText v) (hw : IsHeaderText w) (hVersion : c.version = v)
    (hHeaders : headers.getAll "if-none-match" = [Bytes.ofString w]) :
    (w ≠ v →
      ((f.respond c ⟨"GET", f.endpoint, headers⟩).status = Status.notModified ↔ Lists w v)) ∧
    (w = v → IsPlain v →
      (f.respond c ⟨"GET", f.endpoint, headers⟩).status = Status.notModified) := by
  have hStatus : (f.respond c ⟨"GET", f.endpoint, headers⟩).status = Status.notModified ↔
      Lists w v := by
    rw [status_respond_eq_notModified_iff, hVersion,
      isKnown_singleton_iff hv.ne hw.visible hHeaders]
  refine ⟨fun _ => hStatus, fun hSame hPlain => hStatus.2 ?_⟩
  rw [hSame]
  exact hPlain.lists_self hv.trimmed

/-- A client whose map has a version and no features. -/
def versioned (version : String) : Client :=
  Client.new.install ((FeatureMap.empty "dcdr").setInfo ⟨version, 1757030409⟩)

/-- The server of the default settings in the namespace `dcdr`. -/
def dcdrServer : FeatureServer := ⟨"/dcdr.json", "dcdr", defaultScopesHeader⟩

/-- It is not only the version itself that counts as the version: so does the version in quotes. -/
theorem not_forall_status_respond_iff :
    ¬ ∀ (f : FeatureServer) (c : Client) (headers : Headers) (v w : String),
      IsHeaderText v → IsHeaderText w → c.version = v →
      headers.getAll "if-none-match" = [Bytes.ofString w] →
      ((f.respond c ⟨"GET", f.endpoint, headers⟩).status = Status.notModified ↔ w = v) := by
  intro h
  have hStatus := h dcdrServer (versioned "abcde")
    [("if-none-match", Bytes.ofString "\"abcde\"")] "abcde" "\"abcde\"" (by decide) (by decide)
    rfl rfl
  have hKnown : (dcdrServer.respond (versioned "abcde") ⟨"GET", dcdrServer.endpoint,
      [("if-none-match", Bytes.ofString "\"abcde\"")]⟩).status = Status.notModified := by
    decide +kernel
  exact absurd (hStatus.1 hKnown) (by decide)

theorem status_respond_validator_weak :
    (dcdrServer.respond (versioned "abcde") ⟨"GET", dcdrServer.endpoint,
      [("if-none-match", Bytes.ofString "other, W/\"abcde\"")]⟩).status = Status.notModified ∧
    (dcdrServer.respond (versioned "abcde") ⟨"GET", dcdrServer.endpoint,
      [("if-none-match", Bytes.ofString "abcde")]⟩).status = Status.notModified := by
  have hVersion : IsHeaderText "abcde" := by decide
  have hLists : Lists "other, W/\"abcde\"" "abcde" :=
    ⟨" W/\"abcde\"", by decide, tagVersion_eq_iff.1 (by decide)⟩
  constructor
  · exact ((status_respond_validator dcdrServer hVersion (by decide) rfl rfl).1 (by decide)).2
      hLists
  · exact (status_respond_validator dcdrServer hVersion hVersion rfl rfl).2 rfl (by decide)

end FeatureFlags.FeatureServer
