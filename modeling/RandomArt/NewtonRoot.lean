import Mathlib.Data.Nat.Sqrt
import Mathlib.Tactic.Linarith

/-!
# Newton's iteration for whole square roots

A step of the iteration never falls below the root, goes down from everything above it, and from
the root itself stays or goes up by one.
-/

namespace RandomArt.NewtonRoot

def newton (value x : ℕ) : ℕ := (value / x + x) / 2

variable {value x : ℕ}

theorem sqrt_le_newton (hx : 0 < x) : Nat.sqrt value ≤ newton value x := by
  have hroot : 2 * Nat.sqrt value ≤ value / x + x := by
    by_cases hle : 2 * Nat.sqrt value ≤ x
    · exact le_trans hle (Nat.le_add_left _ _)
    · have hmul : (2 * Nat.sqrt value - x) * x ≤ value := by
        refine le_trans ?_ (Nat.sqrt_le value)
        zify [Nat.le_of_not_le hle]
        nlinarith [sq_nonneg ((Nat.sqrt value : ℤ) - x)]
      have hdiv := (Nat.le_div_iff_mul_le hx).mpr hmul
      omega
  rw [newton]
  omega

theorem newton_lt (hx : Nat.sqrt value < x) : newton value x < x := by
  have hlt : value / x < x := by
    rw [Nat.div_lt_iff_lt_mul (Nat.zero_lt_of_lt hx)]
    exact Nat.sqrt_lt.mp hx
  rw [newton]
  omega

theorem newton_sqrt (hvalue : 0 < value) :
    newton value (Nat.sqrt value) = Nat.sqrt value ∨
      newton value (Nat.sqrt value) = Nat.sqrt value + 1 := by
  have hpos : 0 < Nat.sqrt value := Nat.sqrt_pos.mpr hvalue
  have hlow : Nat.sqrt value ≤ value / Nat.sqrt value :=
    (Nat.le_div_iff_mul_le hpos).mpr (Nat.sqrt_le value)
  have hhigh : value / Nat.sqrt value < Nat.sqrt value + 3 := by
    rw [Nat.div_lt_iff_lt_mul hpos]
    have hle := Nat.sqrt_le_add value
    linarith
  rw [newton]
  omega

/-- From below the root a step jumps at least two, when it starts two or more below. -/
theorem lt_newton (hx : 0 < x) (hlt : x + 2 ≤ Nat.sqrt value) : x + 1 < newton value x := by
  have hdiv : x + 4 ≤ value / x := by
    rw [Nat.le_div_iff_mul_le hx]
    have hsq := Nat.mul_le_mul hlt hlt
    have hle := Nat.sqrt_le value
    nlinarith
  rw [newton]
  omega

end RandomArt.NewtonRoot
