import Mathlib.Data.List.Infix
import Mathlib.Data.Nat.Notation

/-!
# Replacing a pattern in a text

All occurrences of a pattern that do not overlap, from the left to the right. The pattern does not
reach across a character that it does not have.
-/

namespace RandomArt

variable {α : Type}

theorem isPrefix_append_cons_iff {pattern : List α} {c : α} (hc : c ∉ pattern)
    (front back : List α) : pattern <+: front ++ c :: back ↔ pattern <+: front := by
  refine ⟨fun h => ?_, fun h => h.trans (List.prefix_append _ _)⟩
  by_cases hlength : pattern.length ≤ front.length
  · exact List.prefix_of_prefix_length_le h (List.prefix_append _ _) hlength
  · have hfront : front ++ [c] <+: front ++ c :: back := by simp
    have hinit := List.prefix_of_prefix_length_le hfront h (by
      rw [List.length_append, List.length_singleton]
      omega)
    exact absurd (hinit.subset (by simp)) hc

variable [DecidableEq α] (pattern replacement : List α)

/-- Replace in a text, of which so many characters belong to an occurrence that was replaced. -/
def replaceFrom : ℕ → List α → List α
  | _, [] => []
  | skip + 1, _ :: cs => replaceFrom skip cs
  | 0, c :: cs =>
    if pattern <+: c :: cs then replacement ++ replaceFrom (pattern.length - 1) cs
    else c :: replaceFrom 0 cs

def replaceAll (text : List α) : List α := replaceFrom pattern replacement 0 text

variable {pattern} {c : α}

theorem replaceFrom_append_cons (hc : c ∉ pattern) (hne : pattern ≠ []) {front back : List α}
    {skip : ℕ} (hskip : skip ≤ front.length) :
    replaceFrom pattern replacement skip (front ++ c :: back) =
      replaceFrom pattern replacement skip front ++ c :: replaceAll pattern replacement back := by
  induction front generalizing skip with
  | nil =>
    obtain rfl : skip = 0 := by simpa using hskip
    have hprefix := (isPrefix_append_cons_iff hc [] back).not.mpr
      (by simpa using hne)
    have hnil : replaceFrom pattern replacement 0 [] = [] := rfl
    rw [List.nil_append] at hprefix
    rw [hnil, List.nil_append, List.nil_append, replaceFrom, if_neg hprefix, replaceAll]
  | cons d front ih =>
    rw [List.length_cons] at hskip
    cases skip with
    | succ skip => rw [List.cons_append, replaceFrom, replaceFrom, ih (by omega)]
    | zero =>
      have hiff := isPrefix_append_cons_iff hc (d :: front) back
      rw [List.cons_append] at hiff ⊢
      rw [replaceFrom, replaceFrom]
      simp only [hiff]
      split_ifs with hprefix
      · have hlength := hprefix.length_le
        rw [List.length_cons] at hlength
        rw [ih (by omega), List.append_assoc]
      · rw [ih (by omega), List.cons_append]

/-- A character that the pattern does not have separates what is replaced. -/
theorem replaceAll_append_cons (hc : c ∉ pattern) (hne : pattern ≠ []) (front back : List α) :
    replaceAll pattern replacement (front ++ c :: back) =
      replaceAll pattern replacement front ++ c :: replaceAll pattern replacement back :=
  replaceFrom_append_cons replacement hc hne (Nat.zero_le _)

/-- A text without the first character of the pattern stays as it is. -/
theorem replaceAll_of_notMem {text : List α} {cs : List α} (h : c ∉ text) :
    replaceAll (c :: cs) replacement text = text := by
  induction text with
  | nil => rfl
  | cons d text ih =>
    rw [List.mem_cons, not_or] at h
    have hprefix : ¬c :: cs <+: d :: text := fun hp => h.1 (List.cons_prefix_cons.mp hp).1
    rw [replaceAll, replaceFrom, if_neg hprefix, ← replaceAll, ih h.2]

end RandomArt
