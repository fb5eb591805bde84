import Mathlib.Algebra.BigOperators.Group.List.Basic
import Mathlib.Data.List.GetD
import Mathlib.Data.List.Nodup

/-!
# Pairs of indices in row-major order

Two nested loops over two lists visit the pairs of their indices row by row. What the loops do
with the elements is a map over these pairs, whether or not elements repeat.
-/

namespace RandomArt.IndexPairs

variable {α β γ : Type}

/-- The pairs of an index below `m` and an index below `n`, row by row. -/
def indexPairs (m n : ℕ) : List (ℕ × ℕ) :=
  (List.range m).flatMap fun i => (List.range n).map fun j => (i, j)

@[simp] theorem mem_indexPairs {m n : ℕ} {ij : ℕ × ℕ} :
    ij ∈ indexPairs m n ↔ ij.1 < m ∧ ij.2 < n := by
  obtain ⟨i, j⟩ := ij
  simp [indexPairs]

theorem pairwise_indexPairs (m n : ℕ) :
    (indexPairs m n).Pairwise (Prod.Lex (· < ·) (· < ·)) := by
  rw [indexPairs, List.pairwise_flatMap]
  constructor
  · intro i _
    rw [List.pairwise_map]
    exact List.pairwise_lt_range.imp fun h => Prod.Lex.right i h
  · apply List.pairwise_lt_range.imp
    intro i i' hlt ij hij ij' hij'
    obtain ⟨j, -, rfl⟩ := List.mem_map.mp hij
    obtain ⟨j', -, rfl⟩ := List.mem_map.mp hij'
    exact Prod.Lex.left j j' hlt

@[simp] theorem length_indexPairs (m n : ℕ) : (indexPairs m n).length = m * n := by
  simp [indexPairs, List.length_flatMap]

/-- In each row one index is the index of the row. -/
theorem length_offDiagonal (n : ℕ) :
    ((indexPairs n n).filter fun ij => ij.1 ≠ ij.2).length = n * n - n := by
  have hrow : ∀ i ∈ List.range n,
      (((List.range n).map fun j => (i, j)).filter fun ij => ij.1 ≠ ij.2).length = n - 1 := by
    intro i hi
    have herase : ((List.range n).filter fun j => i ≠ j) = (List.range n).erase i := by
      rw [List.nodup_range.erase_eq_filter]
      apply List.filter_congr
      intro j _
      by_cases h : j = i
      · simp [h]
      · simp [h, Ne.symm h]
    rw [List.filter_map, List.length_map]
    change ((List.range n).filter fun j => i ≠ j).length = n - 1
    rw [herase, List.length_erase_of_mem hi, List.length_range]
  rw [indexPairs, List.filter_flatMap, List.length_flatMap, List.map_congr_left hrow,
    List.map_const', List.sum_const_nat, List.length_range, Nat.mul_sub, mul_one]

theorem eq_map_range (xs : List α) (a : α) :
    xs = (List.range xs.length).map fun i => xs.getD i a := by
  apply List.ext_getElem
  · rw [List.length_map, List.length_range]
  · intro i hi hi'
    rw [List.getElem_map, List.getElem_range, List.getD_eq_getElem _ _ hi]

theorem zipIdx_eq_map_range (xs : List α) (a : α) :
    xs.zipIdx = (List.range xs.length).map fun i => (xs.getD i a, i) := by
  apply List.ext_getElem
  · rw [List.length_map, List.length_range, List.length_zipIdx]
  · intro i hi hi'
    rw [List.length_zipIdx] at hi
    rw [List.getElem_map, List.getElem_range, List.getElem_zipIdx, zero_add,
      List.getD_eq_getElem _ _ hi]

variable (f : α → β → γ) (xs : List α) (ys : List β) (a : α) (b : β)

/-- Two nested loops over the elements. -/
theorem flatMap_map_eq : (xs.flatMap fun x => ys.map fun y => f x y) =
    (indexPairs xs.length ys.length).map fun ij => f (xs.getD ij.1 a) (ys.getD ij.2 b) := by
  conv_lhs => rw [eq_map_range xs a, eq_map_range ys b]
  rw [indexPairs, List.map_flatMap, List.flatMap_map]
  simp only [List.map_map]
  rfl

/-- Two nested loops over the elements and their indices, where the indices decide which pairs
are taken. -/
theorem flatMap_filterMap_eq (takes : ℕ → ℕ → Prop) [∀ i j, Decidable (takes i j)] :
    (xs.zipIdx.flatMap fun x => ys.zipIdx.filterMap fun y =>
      if takes x.2 y.2 then some (f x.1 y.1) else none) =
    ((indexPairs xs.length ys.length).filter fun ij => takes ij.1 ij.2).map fun ij =>
      f (xs.getD ij.1 a) (ys.getD ij.2 b) := by
  rw [zipIdx_eq_map_range xs a, zipIdx_eq_map_range ys b, indexPairs, List.filter_flatMap,
    List.map_flatMap, List.flatMap_map]
  congr 1
  funext i
  rw [List.filterMap_map, List.filter_map, List.map_map]
  induction List.range ys.length with
  | nil => rfl
  | cons j js ih =>
    rw [List.filterMap_cons, List.filter_cons]
    by_cases htakes : takes i j
    · simpa [htakes] using ih
    · simpa [htakes] using ih

end RandomArt.IndexPairs
