import FeatureFlags.Text.Blank
import Mathlib.Data.List.TakeWhile

/-!
# Texts cut off at both ends

Cutting characters off both ends of a text leaves the one part of it that begins and ends with other
characters and has nothing but such characters around it.

* `trimList_eq_iff` — what is left.
-/

namespace FeatureFlags.Text

/-- Whether nothing can be cut off: neither end of a text satisfies `p`. -/
structure IsTrimmed (p : Char → Bool) (cs : List Char) : Prop where
  first : ∀ c ∈ cs.head?, p c = false
  last : ∀ c ∈ cs.getLast?, p c = false

theorem isTrimmed_iff_all {p : Char → Bool} {cs : List Char} :
    IsTrimmed p cs ↔ (cs.head?.all (!p ·) && cs.getLast?.all (!p ·)) = true := by
  simp only [Bool.and_eq_true, Option.all_eq_true, Bool.not_eq_eq_eq_not, Bool.not_true]
  exact ⟨fun h => ⟨h.first, h.last⟩, fun h => ⟨h.1, h.2⟩⟩

instance (p : Char → Bool) (cs : List Char) : Decidable (IsTrimmed p cs) :=
  decidable_of_iff _ isTrimmed_iff_all.symm

/-- Whether a text is `core` with characters satisfying `p` around it. -/
structure Encloses (p : Char → Bool) (text core : List Char) : Prop where
  isTrimmed : IsTrimmed p core
  around : ∃ before after, text = before ++ core ++ after ∧ (∀ c ∈ before, p c = true) ∧
    ∀ c ∈ after, p c = true

variable {p : Char → Bool} {text core : List Char}

theorem first_dropWhile {c : Char} (h : c ∈ (text.dropWhile p).head?) : p c = false := by
  have hFirst := List.head?_dropWhile_not p text
  rw [Option.mem_def.1 h] at hFirst
  exact hFirst

theorem dropWhile_eq_self (h : ∀ c ∈ text.head?, p c = false) :
    text.dropWhile p = text := by
  cases text with
  | nil => rfl
  | cons c rest => exact List.dropWhile_cons_of_neg (by simp [h c rfl])

/-- What is left when the characters satisfying `p` are cut off both ends. -/
theorem trimList_eq_iff : trimList p text = core ↔ Encloses p text core := by
  constructor
  · rintro rfl
    -- what is cut off in front, what is left, and what is cut off behind
    have hFront : text.takeWhile p ++ text.dropWhile p = text := List.takeWhile_append_dropWhile
    have hBack := congrArg List.reverse
      (List.takeWhile_append_dropWhile (p := p) (l := (text.dropWhile p).reverse))
    rw [List.reverse_append, List.reverse_reverse] at hBack
    refine ⟨⟨fun c hc => ?_, fun c hc => ?_⟩, text.takeWhile p,
      ((text.dropWhile p).reverse.takeWhile p).reverse, ?_, fun c hc => List.mem_takeWhile_imp hc,
      fun c hc => List.mem_takeWhile_imp (List.mem_reverse.1 hc)⟩
    · have hFirst : c ∈ (text.dropWhile p).head? := by
        rw [← hBack, List.head?_append]
        exact congrArg (Option.or · _) hc
      exact first_dropWhile hFirst
    · rw [trimList, List.getLast?_reverse] at hc
      exact first_dropWhile hc
    · rw [List.append_assoc]
      show text = _ ++ (trimList p text ++ _)
      rw [trimList, hBack, hFront]
  · rintro ⟨⟨hFirst, hLast⟩, before, after, rfl, hBefore, hAfter⟩
    have hFront : (before ++ core ++ after).dropWhile p = (core ++ after).dropWhile p := by
      rw [List.append_assoc, List.dropWhile_append_of_pos hBefore]
    unfold trimList
    rw [hFront]
    cases core with
    | nil =>
      have hNil : ([] ++ after).dropWhile p = [] := List.dropWhile_eq_nil_iff.2 hAfter
      rw [hNil]
      rfl
    | cons c rest =>
      have hSelf : (c :: rest ++ after).dropWhile p = c :: rest ++ after :=
        dropWhile_eq_self fun d hd => hFirst d (by simpa using hd)
      rw [hSelf, List.reverse_append,
        List.dropWhile_append_of_pos fun d hd => hAfter d (List.mem_reverse.1 hd),
        dropWhile_eq_self fun d hd => hLast d (by rwa [List.head?_reverse] at hd),
        List.reverse_reverse]

/-- There is only one such part. -/
theorem Encloses.unique {core' : List Char} (h : Encloses p text core)
    (h' : Encloses p text core') : core = core' :=
  (trimList_eq_iff.2 h).symm.trans (trimList_eq_iff.2 h')

theorem IsTrimmed.encloses_self (h : IsTrimmed p text) : Encloses p text text :=
  ⟨h, [], [], (List.append_nil text).symm, nofun, nofun⟩

end FeatureFlags.Text
