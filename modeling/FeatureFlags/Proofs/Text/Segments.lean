import FeatureFlags.Text.Path
import Mathlib.Data.List.Basic

/-!
# Segments of paths

Cutting a path at its slashes and joining segments with slashes are inverse to one another, as long
as there is a segment and no segment has a slash in it. What a text begins with is said by an
equation, so that the rest of it is at hand.

* `join_segments`, `segments_join` — the two ways back.
* `segments_append` — a slash between two texts separates their segments.
* `after?_eq_some_iff` — a text begins with another one and goes on with the rest.
* `startsWith_append_slash_iff` — what begins with a folder and the beginning of a name.
-/

namespace FeatureFlags.Path

/-! ## Cutting and joining -/

theorem segments_ne_nil (s : String) : segments s ≠ [] := by
  unfold segments splitAt
  rw [Ne, List.map_eq_nil_iff]
  exact List.splitOn_ne_nil _ _

/-- A path has a last segment. -/
theorem exists_segments_eq (s : String) :
    ∃ folders name, segments s = folders ++ [name] := by
  rcases List.eq_nil_or_concat' (segments s) with hNil | hLast
  · exact absurd hNil (segments_ne_nil s)
  · exact hLast

/-- No piece of a list has the separator in it. -/
theorem not_mem_of_mem_splitOn {α : Type} [DecidableEq α] {sep : α} {l piece : List α}
    (h : piece ∈ l.splitOn sep) : sep ∉ piece := by
  induction l generalizing piece with
  | nil =>
    rw [List.splitOn_nil, List.mem_singleton] at h
    simp [h]
  | cons c rest ih =>
    rw [List.splitOn_cons_eq_if_modifyHead] at h
    split at h
    · rcases List.mem_cons.1 h with rfl | h
      · simp
      · exact ih h
    · next hc =>
      -- the character goes in front of the first piece of the rest
      obtain ⟨first, others, hRest⟩ := List.exists_cons_of_ne_nil (List.splitOn_ne_nil sep rest)
      rw [hRest] at h ih
      rcases List.mem_cons.1 h with rfl | h
      · have hFirst := ih List.mem_cons_self
        intro hMem
        rcases List.mem_cons.1 hMem with rfl | hMem
        · simp at hc
        · exact hFirst hMem
      · exact ih (List.mem_cons_of_mem _ h)

theorem not_mem_of_mem_splitAt {sep : Char} {s piece : String} (h : piece ∈ splitAt sep s) :
    sep ∉ piece.toList := by
  obtain ⟨l, hl, rfl⟩ := List.mem_map.1 h
  rw [String.toList_ofList]
  exact not_mem_of_mem_splitOn hl

theorem slash_not_mem_of_mem_segments {s segment : String} (h : segment ∈ segments s) :
    '/' ∉ segment.toList :=
  not_mem_of_mem_splitAt h

/-- The pieces of a text with the mark put between them again are the text. -/
theorem intercalate_splitAt {sep : Char} {mark : String} (hMark : mark.toList = [sep])
    (s : String) : mark.intercalate (splitAt sep s) = s := by
  apply String.toList_injective
  rw [String.toList_intercalate, hMark, splitAt, List.map_map]
  have hId : String.toList ∘ String.ofList = id := by
    funext l
    exact String.toList_ofList
  rw [hId, List.map_id, List.intercalate_splitOn]

/-- Joining the segments of a path gives the path back. -/
@[simp]
theorem join_segments (s : String) : join (segments s) = s :=
  intercalate_splitAt rfl s

/-- Pieces without the mark that stands between them are found again. -/
theorem splitAt_intercalate {sep : Char} {mark : String} (hMark : mark.toList = [sep])
    {l : List String} (hNe : l ≠ []) (h : ∀ s ∈ l, sep ∉ s.toList) :
    splitAt sep (mark.intercalate l) = l := by
  rw [splitAt, String.toList_intercalate, hMark, List.splitOn_intercalate]
  · rw [List.map_map]
    have hId : String.ofList ∘ String.toList = id := by
      funext s
      exact String.ofList_toList
    rw [hId, List.map_id]
  · intro piece hPiece
    obtain ⟨s, hs, rfl⟩ := List.mem_map.1 hPiece
    exact h s hs
  · rwa [Ne, List.map_eq_nil_iff]

theorem splitAt_of_not_mem {sep : Char} {s : String} (h : sep ∉ s.toList) :
    splitAt sep s = [s] := by
  have hMark : (String.singleton sep).toList = [sep] := String.toList_singleton sep
  have hSplit := splitAt_intercalate hMark (List.cons_ne_nil s []) (by simpa using h)
  rwa [String.intercalate_singleton] at hSplit

/-- Joined segments without slashes are the segments of what they make. -/
theorem segments_join {l : List String} (hNe : l ≠ []) (h : ∀ s ∈ l, '/' ∉ s.toList) :
    segments (join l) = l :=
  splitAt_intercalate rfl hNe h

theorem join_append {l m : List String} (hl : l ≠ []) (hm : m ≠ []) :
    join (l ++ m) = join l ++ "/" ++ join m :=
  String.intercalate_append_of_ne_nil hl hm

@[simp]
theorem join_singleton (a : String) : join [a] = a :=
  String.intercalate_singleton

theorem join_cons (a : String) {l : List String} (h : l ≠ []) :
    join (a :: l) = a ++ "/" ++ join l := by
  have hAppend := join_append (l := [a]) (by simp) h
  rwa [join_singleton] at hAppend

theorem join_pair (a b : String) : join [a, b] = a ++ "/" ++ b := by
  rw [join_cons a (List.cons_ne_nil b []), join_singleton]

theorem join_triple (a b c : String) : join [a, b, c] = a ++ "/" ++ (b ++ "/" ++ c) := by
  rw [join_cons a (List.cons_ne_nil b [c]), join_pair]

/-- A slash between two texts separates their segments. -/
theorem segments_append (a b : String) :
    segments (a ++ "/" ++ b) = segments a ++ segments b := by
  -- both sides are what the segments of the two texts make together
  have hJoin : a ++ "/" ++ b = join (segments a ++ segments b) := by
    rw [join_append (segments_ne_nil a) (segments_ne_nil b), join_segments, join_segments]
  rw [hJoin, segments_join (by simp [segments_ne_nil])]
  intro s hs
  rcases List.mem_append.1 hs with hs | hs
  · exact slash_not_mem_of_mem_segments hs
  · exact slash_not_mem_of_mem_segments hs

/-- A text without a slash is its own only segment. -/
theorem segments_of_not_mem {s : String} (h : '/' ∉ s.toList) : segments s = [s] :=
  splitAt_of_not_mem h

theorem segments_injective {a b : String} (h : segments a = segments b) : a = b := by
  rw [← join_segments a, h, join_segments]

/-- Of joined segments those that are not empty are found again. -/
theorem solidSegments_join {l : List String} (h : ∀ s ∈ l, '/' ∉ s.toList) :
    solidSegments (join l) = l.filter (· ≠ "") := by
  by_cases hNil : l = []
  · rw [hNil]
    rfl
  · rw [solidSegments, segments_join hNil h]

/-- Passing over empty segments changes nothing just when there is none. -/
theorem solidSegments_eq_iff {s : String} : solidSegments s = segments s ↔ "" ∉ segments s := by
  rw [solidSegments, List.filter_eq_self]
  constructor
  · intro hAll hMem
    simpa using hAll "" hMem
  · intro hNone segment hSegment
    have hNe : segment ≠ "" := fun hEmpty => hNone (hEmpty ▸ hSegment)
    simpa using hNe

/-- An empty segment that is passed over makes the path shorter. -/
theorem length_solidSegments_lt {s : String} (h : "" ∈ segments s) :
    (solidSegments s).length < (segments s).length :=
  List.length_filter_lt_length_iff_exists.2 ⟨"", h, by simp⟩

/-- The last segment is cut off at the last slash. -/
theorem splitLast_append {a b : String} (h : '/' ∉ b.toList) :
    splitLast (a ++ "/" ++ b) = (a, b) := by
  unfold splitLast
  rw [segments_append, segments_of_not_mem h]
  simp

/-- Only the last slash of a text has no slash behind it. -/
theorem append_slash_inj {a a' b b' : String} (hb : '/' ∉ b.toList) (hb' : '/' ∉ b'.toList)
    (h : a ++ "/" ++ b = a' ++ "/" ++ b') : a = a' ∧ b = b' := by
  have hSplit := splitLast_append (a := a) hb
  rw [h, splitLast_append hb'] at hSplit
  exact ⟨(congrArg Prod.fst hSplit).symm, (congrArg Prod.snd hSplit).symm⟩

/-- A text has no slash, or it has a last one. -/
theorem eq_append_slash (s : String) :
    '/' ∉ s.toList ∨ ∃ a b, s = a ++ "/" ++ b ∧ '/' ∉ b.toList := by
  obtain ⟨folders, name, hSegments⟩ := exists_segments_eq s
  have hName : '/' ∉ name.toList :=
    slash_not_mem_of_mem_segments (s := s) (by rw [hSegments]; simp)
  rw [← join_segments s, hSegments]
  by_cases hNil : folders = []
  · left
    rw [hNil, List.nil_append, join_singleton]
    exact hName
  · right
    refine ⟨join folders, name, ?_, hName⟩
    rw [join_append hNil (by simp), join_singleton]

/-! ## Beginnings -/

theorem after?_eq_some_iff {start s rest : String} :
    after? start s = some rest ↔ s = start ++ rest := by
  unfold after?
  rw [Option.map_eq_some_iff]
  constructor
  · rintro ⟨l, hl, rfl⟩
    rw [List.isPrefixOf?_eq_some_iff_append_eq] at hl
    apply String.toList_injective
    rw [String.toList_append, String.toList_ofList, hl]
  · intro h
    refine ⟨rest.toList, ?_, String.ofList_toList⟩
    rw [List.isPrefixOf?_eq_some_iff_append_eq, h, String.toList_append]

theorem after?_eq_none_iff {start s : String} :
    after? start s = none ↔ ¬ start.toList <+: s.toList := by
  unfold after?
  rw [Option.map_eq_none_iff, ← List.isPrefixOf_iff_prefix, ← List.isSome_isPrefixOf?_eq_isPrefixOf,
    Option.not_isSome_iff_eq_none]

theorem startsWith_iff {s start : String} :
    startsWith s start = true ↔ ∃ rest, s = start ++ rest := by
  unfold startsWith
  rw [List.isPrefixOf_iff_prefix]
  constructor
  · rintro ⟨l, hl⟩
    refine ⟨String.ofList l, String.toList_injective ?_⟩
    rw [String.toList_append, String.toList_ofList, hl]
  · rintro ⟨rest, rfl⟩
    rw [String.toList_append]
    exact List.prefix_append _ _

theorem startsWith_append_append {a b start : String} :
    startsWith (start ++ a) (start ++ b) = startsWith a b := by
  rw [Bool.eq_iff_iff, startsWith, startsWith, List.isPrefixOf_iff_prefix,
    List.isPrefixOf_iff_prefix, String.toList_append, String.toList_append,
    List.prefix_append_right_inj]

/-- A path begins with a folder and the beginning of a name, if it lies in the folder and its name
begins so, or if it lies in a folder that itself begins so. -/
theorem startsWith_append_slash_iff {a b folder start : String} (hb : '/' ∉ b.toList)
    (hStart : '/' ∉ start.toList) :
    startsWith (a ++ "/" ++ b) (folder ++ "/" ++ start) = true ↔
      (a = folder ∧ startsWith b start = true) ∨
        startsWith a (folder ++ "/" ++ start) = true := by
  constructor
  · intro h
    obtain ⟨rest, hRest⟩ := startsWith_iff.1 h
    -- the last slash is the one behind the folder, or it comes later
    rcases eq_append_slash rest with hLast | ⟨more, name, rfl, hName⟩
    · left
      have hSplit : a ++ "/" ++ b = folder ++ "/" ++ (start ++ rest) := by
        rw [hRest, String.append_assoc]
      have hNo : '/' ∉ (start ++ rest).toList := by
        rw [String.toList_append, List.mem_append]
        exact not_or.2 ⟨hStart, hLast⟩
      obtain ⟨rfl, rfl⟩ := append_slash_inj hb hNo hSplit
      exact ⟨rfl, startsWith_iff.2 ⟨rest, rfl⟩⟩
    · right
      have hSplit : a ++ "/" ++ b = (folder ++ "/" ++ start ++ more) ++ "/" ++ name := by
        rw [hRest]
        simp only [String.append_assoc]
      obtain ⟨rfl, -⟩ := append_slash_inj hb hName hSplit
      exact startsWith_iff.2 ⟨more, rfl⟩
  · rintro (⟨rfl, h⟩ | h)
    · rwa [startsWith_append_append]
    · obtain ⟨rest, rfl⟩ := startsWith_iff.1 h
      exact startsWith_iff.2 ⟨rest ++ "/" ++ b, by simp only [String.append_assoc]⟩

/-- A path that leads past another one begins with it. -/
theorem startsWith_of_segments_isPrefix {a b : String} (h : segments a <+: segments b) :
    startsWith b a = true := by
  obtain ⟨rest, hRest⟩ := h
  rw [startsWith_iff, ← join_segments a, ← join_segments b, ← hRest]
  -- the longer path goes on behind a slash
  by_cases hNil : rest = []
  · exact ⟨"", by rw [hNil, List.append_nil, String.append_empty]⟩
  · refine ⟨"/" ++ join rest, ?_⟩
    rw [join_append (segments_ne_nil a) hNil, String.append_assoc]

end FeatureFlags.Path
