import Mathlib.Data.List.Count
import Mathlib.Data.List.Range
import Mathlib.Tactic.Linarith

/-!
# Partitions of an initial segment into spans

A span is a half-open range of positions. Spans that start where their
predecessor stops, from zero to `h`, partition the positions below `h`. Cutting
`h` positions into `c` spans of a common length `r` gives such a chain exactly
when the last span still starts below `h`.
-/

namespace RandomArt.SpanPartition

/-- The positions from `first` up to, but not including, `stop`. -/
structure Span where
  first : ℕ
  stop : ℕ
  deriving DecidableEq, Repr

def Span.covers (s : Span) (y : ℕ) : Bool := decide (s.first ≤ y) && decide (y < s.stop)

@[simp] theorem Span.covers_iff (s : Span) (y : ℕ) :
    s.covers y = true ↔ s.first ≤ y ∧ y < s.stop := by
  simp [Span.covers]

/-- Non-empty spans inside `[0, h)` that together cover each position once. -/
structure IsPartition (h : ℕ) (spans : List Span) : Prop where
  nonempty : ∀ s ∈ spans, s.first < s.stop
  inside : ∀ s ∈ spans, s.stop ≤ h
  exactlyOnce : ∀ y < h, spans.countP (·.covers y) = 1

theorem IsPartition.exists_covers {h : ℕ} {spans : List Span} (hp : IsPartition h spans)
    {y : ℕ} (hy : y < h) : ∃ s ∈ spans, s.first ≤ y ∧ y < s.stop := by
  have hpos : 0 < spans.countP (·.covers y) := by rw [hp.exactlyOnce y hy]; exact Nat.one_pos
  obtain ⟨s, hs, hc⟩ := List.countP_pos_iff.mp hpos
  exact ⟨s, hs, (s.covers_iff y).mp hc⟩

theorem IsPartition.perm {h : ℕ} {spans spans' : List Span} (hp : IsPartition h spans)
    (hperm : spans'.Perm spans) : IsPartition h spans' where
  nonempty s hs := hp.nonempty s (hperm.mem_iff.mp hs)
  inside s hs := hp.inside s (hperm.mem_iff.mp hs)
  exactlyOnce y hy := by rw [hperm.countP_eq, hp.exactlyOnce y hy]

/-- Non-empty spans, each starting where the one before stops, from `a` to `h`. -/
def Chained : ℕ → ℕ → List Span → Prop
  | a, h, [] => a = h
  | a, h, s :: ss => s.first = a ∧ s.first < s.stop ∧ Chained s.stop h ss

theorem Chained.le {a h : ℕ} {spans : List Span} (hc : Chained a h spans) : a ≤ h := by
  induction spans generalizing a with
  | nil => exact le_of_eq hc
  | cons s ss ih =>
    obtain ⟨rfl, hlt, htail⟩ := hc
    exact hlt.le.trans (ih htail)

theorem Chained.bounds {a h : ℕ} {spans : List Span} (hc : Chained a h spans) :
    ∀ s ∈ spans, a ≤ s.first ∧ s.first < s.stop ∧ s.stop ≤ h := by
  induction spans generalizing a with
  | nil => simp
  | cons s ss ih =>
    obtain ⟨rfl, hlt, htail⟩ := hc
    intro t ht
    rcases List.mem_cons.mp ht with rfl | ht
    · exact ⟨le_rfl, hlt, htail.le⟩
    · obtain ⟨hfirst, hrest⟩ := ih htail t ht
      exact ⟨hlt.le.trans hfirst, hrest⟩

theorem Chained.pairwise {a h : ℕ} {spans : List Span} (hc : Chained a h spans) :
    spans.Pairwise fun s t => s.stop ≤ t.first := by
  induction spans generalizing a with
  | nil => exact List.Pairwise.nil
  | cons s ss ih =>
    obtain ⟨rfl, -, htail⟩ := hc
    exact List.pairwise_cons.mpr ⟨fun t ht => (htail.bounds t ht).1, ih htail⟩

private theorem Chained.countP_covers {a h : ℕ} {spans : List Span} (hc : Chained a h spans)
    (y : ℕ) : spans.countP (·.covers y) = if a ≤ y ∧ y < h then 1 else 0 := by
  induction spans generalizing a with
  | nil =>
    have hah : a = h := hc
    have : ¬(a ≤ y ∧ y < h) := by omega
    simp [this]
  | cons s ss ih =>
    obtain ⟨rfl, hlt, htail⟩ := hc
    have hle := htail.le
    rw [List.countP_cons, ih htail]
    simp only [Span.covers_iff]
    split_ifs <;> omega

/-- A chain from zero partitions the segment it spans. -/
theorem Chained.isPartition {h : ℕ} {spans : List Span} (hc : Chained 0 h spans) :
    IsPartition h spans where
  nonempty s hs := (hc.bounds s hs).2.1
  inside s hs := (hc.bounds s hs).2.2
  exactlyOnce y hy := by simp [hc.countP_covers y, hy]

/-- The `i`-th span of `r` positions, cut off at `h`. -/
def cut (r h i : ℕ) : Span := ⟨i * r, min (i * r + r) h⟩

private theorem chained_cut_from {r h : ℕ} (hr : 0 < r) (i n : ℕ)
    (hlast : (i + n) * r < h) (hend : h ≤ (i + n + 1) * r) :
    Chained (i * r) h ((List.range' i (n + 1)).map (cut r h)) := by
  induction n generalizing i with
  | zero =>
    have hstop : min (i * r + r) h = h := by
      apply Nat.min_eq_right
      simpa [Nat.succ_mul] using hend
    simp only [Nat.add_zero] at hlast
    simp [List.range', cut, Chained, hstop, hlast]
  | succ n ih =>
    have hstep : (i + 1) * r < h := by
      refine lt_of_le_of_lt (Nat.mul_le_mul_right r (by omega)) hlast
    have hstop : min (i * r + r) h = (i + 1) * r := by
      rw [Nat.succ_mul] at hstep ⊢
      exact Nat.min_eq_left hstep.le
    rw [List.range'_succ, List.map_cons]
    refine ⟨rfl, ?_, ?_⟩
    · rw [cut, hstop, Nat.succ_mul]
      exact Nat.lt_add_of_pos_right hr
    · rw [cut, hstop]
      exact ih (i + 1) (by rw [show i + 1 + n = i + (n + 1) by omega]; exact hlast)
        (by rw [show i + 1 + n + 1 = i + (n + 1) + 1 by omega]; exact hend)

/-- Cuts of a common length form a chain as long as the last one is not empty. -/
theorem chained_cuts {r h c : ℕ} (hr : 0 < r) (hc : 0 < c) (hlast : (c - 1) * r < h)
    (hend : h ≤ c * r) : Chained 0 h ((List.range c).map (cut r h)) := by
  obtain ⟨n, rfl⟩ := Nat.exists_eq_add_of_lt hc
  have h0 := chained_cut_from hr 0 n (by simpa using hlast) (by simpa using hend)
  simpa [List.range_eq_range'] using h0

theorem cut_last_lt {r h c : ℕ} (hc : 0 < c)
    (hne : ∀ s ∈ (List.range c).map (cut r h), s.first < s.stop) : (c - 1) * r < h := by
  have hmem : cut r h (c - 1) ∈ (List.range c).map (cut r h) :=
    List.mem_map_of_mem (List.mem_range.mpr (by omega))
  exact (hne _ hmem).trans_le (Nat.min_le_right _ _)

end RandomArt.SpanPartition
