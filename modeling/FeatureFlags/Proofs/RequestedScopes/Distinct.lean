import FeatureFlags.Proofs.FeatureMap.Merged
import FeatureFlags.Proofs.RequestedScopes
import FeatureFlags.Proofs.Text.Trim
import Mathlib.Data.List.Forall2

/-!
# The scopes that a list asks for

A written list asks for the first few different names in it. Writing these down and reading them
again changes nothing. Nor does it matter for what is resolved that empty entries and repetitions
are dropped: of two mentions of a scope the first one ranks higher, and that is the one kept.

* `Lists` — which entries a text lists.
* `AreFirst` — the different names among entries, in the order in which they come up.
* `isEntry_of_mem_parse` — what is understood can be written down again.
* `parse_reads` — what a written list asks for, and what is resolved for it.
-/

namespace FeatureFlags.RequestedScopes

/-! ## Different members of a list -/

section

variable {α : Type} [DecidableEq α] {l : List α} {a b : α}

theorem idxOf_lt_of_filter {p : α → Bool} (ha : p a = true) (hb : p b = true)
    (h : (l.filter p).idxOf a < (l.filter p).idxOf b) : l.idxOf a < l.idxOf b := by
  induction l with
  | nil => exact h
  | cons c l ih =>
    by_cases hc : p c = true
    · rw [List.filter_cons_of_pos hc] at h
      simp only [List.idxOf_cons] at h ⊢
      grind
    · rw [List.filter_cons_of_neg hc] at h
      have hNe : c ≠ a ∧ c ≠ b := ⟨fun hEq => hc (hEq ▸ ha), fun hEq => hc (hEq ▸ hb)⟩
      rw [List.idxOf_cons_ne _ hNe.1, List.idxOf_cons_ne _ hNe.2]
      exact Nat.succ_lt_succ (ih h)

/-- Without repetitions the members stand in the order in which they come up first. -/
theorem pairwise_eraseDups (l : List α) :
    l.eraseDups.Pairwise fun a b => l.idxOf a < l.idxOf b := by
  induction hn : l.length using Nat.strongRecOn generalizing l with
  | _ n ih =>
    cases l with
    | nil => exact .nil
    | cons a l =>
      -- by induction on the length, since the first member is filtered out of the rest
      have hLt : (l.filter fun b => !b == a).length < n := by
        rw [← hn, List.length_cons]
        exact Nat.lt_succ_of_le (List.length_filter_le _ _)
      have hOther : ∀ b ∈ (l.filter fun b => !b == a).eraseDups, (!b == a) = true := by
        intro b hb
        exact (List.mem_filter.1 (List.mem_eraseDups.1 hb)).2
      rw [List.eraseDups_cons, List.pairwise_cons]
      constructor
      · intro b hb
        have hNe : a ≠ b := by
          rintro rfl
          simpa using hOther a hb
        rw [List.idxOf_cons_self, List.idxOf_cons_ne _ hNe]
        exact Nat.succ_pos _
      · refine (ih _ hLt _ rfl).imp_of_mem fun {b c} hb hc hOrder => ?_
        have hNe : a ≠ b ∧ a ≠ c := by
          constructor
          · rintro rfl
            simpa using hOther a hb
          · rintro rfl
            simpa using hOther a hc
        rw [List.idxOf_cons_ne _ hNe.1, List.idxOf_cons_ne _ hNe.2]
        exact Nat.succ_lt_succ (idxOf_lt_of_filter (hOther b hb) (hOther c hc) hOrder)

theorem eraseDups_of_nodup (h : l.Nodup) : l.eraseDups = l := by
  induction l with
  | nil => rfl
  | cons a l ih =>
    obtain ⟨ha, hl⟩ := List.nodup_cons.1 h
    have hSelf : l.filter (fun b => !b == a) = l := by
      rw [List.filter_eq_self]
      intro b hb
      have hNe : b ≠ a := fun hEq => ha (hEq ▸ hb)
      simpa using hNe
    rw [List.eraseDups_cons, hSelf, ih hl]

end

/-! ## Entries -/

/-- Whether a text lists entries: there are commas between them, and each may have blanks around
it that do not belong to it. -/
def Lists (text : String) (listed : List String) : Prop :=
  ∃ pieces, pieces ≠ [] ∧ join pieces = text ∧ (∀ piece ∈ pieces, ',' ∉ piece.toList) ∧
    List.Forall₂ (fun piece entry => Text.Encloses Text.isBlank piece.toList entry.toList)
      pieces listed

/-- Whether names are those among entries, each of them once, in the order in which they come up.
An empty entry is no name. -/
structure AreFirst (listed names : List String) : Prop where
  mem_iff : ∀ name, name ∈ names ↔ name ∈ listed ∧ name ≠ ""
  ordered : names.Pairwise fun name later => listed.idxOf name < listed.idxOf later

variable {text entry : String}

theorem encloses_trim (piece : String) :
    Text.Encloses Text.isBlank piece.toList (Text.trim piece).toList := by
  rw [← Text.trimList_eq_iff, Text.trim, String.toList_ofList]

theorem lists_entries (text : String) : Lists text (entries text) := by
  refine ⟨Path.splitAt ',' text, ?_, Path.intercalate_splitAt rfl text,
    fun piece => Path.not_mem_of_mem_splitAt, ?_⟩
  · rw [Path.splitAt, Ne, List.map_eq_nil_iff]
    exact List.splitOn_ne_nil _ _
  · rw [entries, List.forall₂_map_right_iff, List.forall₂_same]
    exact fun piece _ => encloses_trim piece

/-- The names among the entries of a text. -/
def names (text : String) : List String :=
  ((entries text).filter (· ≠ "")).eraseDups

theorem areFirst_names (text : String) : AreFirst (entries text) (names text) where
  mem_iff name := by simp [names]
  ordered := by
    refine (pairwise_eraseDups _).imp_of_mem fun {name later} hName hLater hOrder => ?_
    exact idxOf_lt_of_filter (List.mem_filter.1 (List.mem_eraseDups.1 hName)).2
      (List.mem_filter.1 (List.mem_eraseDups.1 hLater)).2 hOrder

theorem AreFirst.nodup {listed names : List String} (h : AreFirst listed names) :
    names.Nodup := by
  refine h.ordered.imp ?_
  rintro name later hLt rfl
  exact Nat.lt_irrefl _ hLt

/-! ## What is understood -/

/-- Whatever is understood can be written down again. -/
theorem isEntry_of_mem_parse (h : entry ∈ parse text) : IsEntry entry := by
  have hName := (areFirst_names text).mem_iff entry |>.1 (List.mem_of_mem_take h)
  obtain ⟨piece, hPiece, rfl⟩ := List.mem_map.1 hName.1
  obtain ⟨hTrimmed, before, after, hAround, -, -⟩ := encloses_trim piece
  refine ⟨hName.2, fun hComma => ?_, ?_⟩
  · -- what is left of a piece has no characters but those of the piece
    refine Path.not_mem_of_mem_splitAt hPiece ?_
    rw [hAround]
    exact List.mem_append_left _ (List.mem_append_right _ hComma)
  · -- there are no blanks left to cut off
    have hSelf := Text.trimList_eq_iff.2 hTrimmed.encloses_self
    rw [Text.trim, hSelf, String.ofList_toList]

theorem parse_join_parse (text : String) : parse (join (parse text)) = parse text := by
  have hNodup : (parse text).Nodup := (areFirst_names text).nodup.sublist (List.take_sublist _ _)
  have hLength : (parse text).length ≤ limit := List.length_take_le _ _
  rw [parse_join_eq_take fun scope hScope => isEntry_of_mem_parse hScope,
    eraseDups_of_nodup hNodup, List.take_of_length_le hLength]

/-- If no name is too much, what is resolved is the same as for all entries as they are listed. -/
theorem merged_parse (hFew : (names text).length ≤ limit) (m : FeatureMap) :
    m.merged (parse text) = m.merged (entries text) := by
  have hAll : parse text = names text := List.take_of_length_le hFew
  have hRepeated := m.merged_eraseDups [] ((entries text).filter (· ≠ ""))
  rw [List.nil_append, List.nil_append] at hRepeated
  rw [hAll, names, hRepeated, m.merged_filter]

/-- Every text lists entries, and of the different names among these the first eight are understood.
Written down and read again they stay what they are. If there are no more than eight, every map
resolves the same for them as for all entries, with the repetitions and the empty ones among
them. -/
theorem parse_reads (text : String) :
    Lists text (entries text) ∧
    AreFirst (entries text) (names text) ∧
    parse text = (names text).take 8 ∧
    parse (join (parse text)) = parse text ∧
    ((names text).length ≤ 8 →
      ∀ m : FeatureMap, m.merged (parse text) = m.merged (entries text)) :=
  ⟨lists_entries text, areFirst_names text, rfl, parse_join_parse text, merged_parse⟩

/-- A scope that is mentioned again keeps its rank. -/
theorem parse_reads_mentionedAgain :
    (names " b,a,,\u2003b\u0085").length ≤ 8 ∧
      ∀ m : FeatureMap, m.merged ["b", "a"] = m.merged ["b", "a", "", "b"] := by
  have hFew : (names " b,a,,\u2003b\u0085").length ≤ 8 := by decide +kernel
  have hParse : parse " b,a,,\u2003b\u0085" = ["b", "a"] := by decide +kernel
  have hEntries : entries " b,a,,\u2003b\u0085" = ["b", "a", "", "b"] := by decide +kernel
  obtain ⟨-, -, -, -, hMerged⟩ := parse_reads " b,a,,\u2003b\u0085"
  rw [hParse, hEntries] at hMerged
  exact ⟨hFew, hMerged hFew⟩

end FeatureFlags.RequestedScopes
