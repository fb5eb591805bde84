import Mathlib.Data.List.Basic
import Mathlib.Tactic.Linarith

/-!
# Assembling a list from slices

Slices of a target list are written over a destination of the same length at
their own offsets. Whatever the order of the writes, and even where slices
overlap, each position that some slice reaches ends up as in the target.
-/

namespace RandomArt.SliceWrites

variable {α : Type*}

/-- Overwrite the elements of `dest` from `offset` on; none where `src` does not fit. -/
def writeSlice (dest : List α) (offset : ℕ) (src : List α) : Option (List α) :=
  if offset + src.length ≤ dest.length then
    some (dest.take offset ++ src ++ dest.drop (offset + src.length))
  else none

theorem writeSlice_of_le {dest src : List α} {offset : ℕ}
    (h : offset + src.length ≤ dest.length) :
    writeSlice dest offset src =
      some (dest.take offset ++ src ++ dest.drop (offset + src.length)) := if_pos h

theorem length_of_writeSlice {dest src out : List α} {offset : ℕ}
    (h : writeSlice dest offset src = some out) : out.length = dest.length := by
  rw [writeSlice] at h
  split at h
  · next hle =>
    cases h
    simp only [List.length_append, List.length_take, List.length_drop]
    omega
  · cases h

/-- After a write, the slice is in place and everything else is as before. -/
theorem getElem?_of_writeSlice {dest src out : List α} {offset : ℕ}
    (h : writeSlice dest offset src = some out) (i : ℕ) :
    out[i]? = if offset ≤ i ∧ i < offset + src.length then src[i - offset]? else dest[i]? := by
  rw [writeSlice] at h
  split at h
  · next hle =>
    cases h
    have hoff : (dest.take offset).length = offset := by rw [List.length_take]; omega
    rcases lt_or_ge i offset with hlt | hge
    · rw [if_neg (by omega), List.append_assoc, List.getElem?_append_left (by omega),
        List.getElem?_take_of_lt hlt]
    · rcases lt_or_ge i (offset + src.length) with hin | hout
      · rw [if_pos ⟨hge, hin⟩, List.append_assoc, List.getElem?_append_right (by omega), hoff,
          List.getElem?_append_left (by omega)]
      · rw [if_neg (by omega), List.getElem?_append_right (by simp; omega), List.getElem?_drop]
        congr 1
        simp only [List.length_append, hoff]
        omega
  · cases h

abbrev Slice (α : Type*) := ℕ × List α

/-- The slice holds the elements of the target at its offset. -/
def SliceOf (target : List α) (s : Slice α) : Prop :=
  s.1 + s.2.length ≤ target.length ∧ ∀ i < s.2.length, s.2[i]? = target[s.1 + i]?

def reaches (s : Slice α) (i : ℕ) : Prop := s.1 ≤ i ∧ i < s.1 + s.2.length

/-- Writing slices of a target, one after another, agrees with the target wherever one
of them reaches. -/
theorem foldlM_writeSlice {target : List α} (slices : List (Slice α)) (dest : List α)
    (hlen : dest.length = target.length) (hs : ∀ s ∈ slices, SliceOf target s) :
    ∃ out, slices.foldlM (fun d s => writeSlice d s.1 s.2) dest = some out ∧
      out.length = target.length ∧
      ∀ i, (dest[i]? = target[i]? ∨ ∃ s ∈ slices, reaches s i) → out[i]? = target[i]? := by
  induction slices generalizing dest with
  | nil => exact ⟨dest, rfl, hlen, fun i hi => by simpa using hi⟩
  | cons s ss ih =>
    have hslice := hs s List.mem_cons_self
    have hfit : s.1 + s.2.length ≤ dest.length := by rw [hlen]; exact hslice.1
    have hwrite := writeSlice_of_le hfit
    generalize dest.take s.1 ++ s.2 ++ dest.drop (s.1 + s.2.length) = mid at hwrite
    have hmid : mid.length = target.length := (length_of_writeSlice hwrite).trans hlen
    obtain ⟨out, hout, houtlen, hagree⟩ :=
      ih mid hmid (fun t ht => hs t (List.mem_cons_of_mem _ ht))
    refine ⟨out, by simpa [hwrite] using hout, houtlen, ?_⟩
    intro i hi
    apply hagree
    have hread := getElem?_of_writeSlice hwrite i
    by_cases hreach : s.1 ≤ i ∧ i < s.1 + s.2.length
    · left
      rw [hread, if_pos hreach, hslice.2 _ (by have := hreach.2; omega),
        Nat.add_sub_cancel' hreach.1]
    · rw [hread, if_neg hreach]
      rcases hi with hi | ⟨t, ht, hti⟩
      · exact Or.inl hi
      · rcases List.mem_cons.mp ht with rfl | ht
        · exact absurd hti hreach
        · exact Or.inr ⟨t, ht, hti⟩

/-- Slices that reach every position rebuild the target in any order. -/
theorem foldlM_writeSlice_eq {target : List α} {slices : List (Slice α)} {dest : List α}
    (hlen : dest.length = target.length) (hs : ∀ s ∈ slices, SliceOf target s)
    (hcover : ∀ i < target.length, ∃ s ∈ slices, reaches s i) :
    slices.foldlM (fun d s => writeSlice d s.1 s.2) dest = some target := by
  obtain ⟨out, hout, houtlen, hagree⟩ := foldlM_writeSlice slices dest hlen hs
  rw [hout]
  congr 1
  apply List.ext_getElem?
  intro i
  rcases lt_or_ge i target.length with hi | hi
  · exact hagree i (Or.inr (hcover i hi))
  · rw [List.getElem?_eq_none hi, List.getElem?_eq_none (houtlen ▸ hi)]

end RandomArt.SliceWrites
