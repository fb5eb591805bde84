import RandomArt.SpanPartition
import Mathlib.Data.List.ProdSigma

/-!
# Partitions of a rectangle into rectangles

A rectangle is a span of rows and a span of columns. The rectangles made of each span
of one list with each span of another cover a position as often as the two lists
together do, so two partitions of the sides give a partition of the rectangle.
-/

namespace RandomArt.SpanPartition

structure Rect where
  rows : Span
  cols : Span
  deriving DecidableEq, Repr

namespace Rect

def covers (r : Rect) (row col : ℕ) : Bool := r.rows.covers row && r.cols.covers col

/-- The rectangle lies in the canvas of the given height and width. -/
def Within (r : Rect) (shape : ℕ × ℕ) : Prop := r.rows.stop ≤ shape.1 ∧ r.cols.stop ≤ shape.2

def Apart (r s : Rect) : Prop := ∀ row col, ¬(r.covers row col = true ∧ s.covers row col = true)

end Rect

theorem countP_product {α β : Type*} (p : α → Bool) (q : β → Bool) (as : List α) (bs : List β) :
    (as ×ˢ bs).countP (fun ab => p ab.1 && q ab.2) = as.countP p * bs.countP q := by
  induction as with
  | nil => simp
  | cons a as ih =>
    rw [List.product_cons, List.countP_append, ih, List.countP_map, List.countP_cons]
    cases hp : p a with
    | false => simp [Function.comp_def, hp]
    | true =>
      simp only [Function.comp_def, hp, Bool.true_and, if_true]
      rw [Nat.succ_mul, Nat.add_comm]

/-- When no test is passed by two elements, no two elements pass a common test. -/
theorem pairwise_of_countP_le_one {α ι : Type*} {p : ι → α → Bool} {as : List α}
    (h : ∀ i, as.countP (p i) ≤ 1) :
    as.Pairwise fun a b => ∀ i, ¬(p i a = true ∧ p i b = true) := by
  induction as with
  | nil => exact List.Pairwise.nil
  | cons a as ih =>
    refine List.pairwise_cons.mpr ⟨?_, ih fun i => ?_⟩
    · rintro b hb i ⟨ha, hpb⟩
      have hcount := h i
      have hpos : 0 < as.countP (p i) := List.countP_pos_iff.mpr ⟨b, hb, hpb⟩
      rw [List.countP_cons, if_pos ha] at hcount
      omega
    · exact ((List.sublist_cons_self a as).countP_le).trans (h i)

end RandomArt.SpanPartition
