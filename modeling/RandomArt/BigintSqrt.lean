import RandomArt.NewtonRoot
import RandomArt.RandomPrimeField

/-!
# Whole square roots of big integers

The iteration starts three below the root or somewhere above it. Either way it comes to the root:
one step leads from below to above, and from above it goes down until it stays.
-/

namespace RandomArt.RandomPrimeField

open Looping NewtonRoot

/-- A place from which the iteration comes to the root. -/
def Approaches (value x : ℕ) : Prop := 0 < x ∧ (x + 2 ≤ Nat.sqrt value ∨ Nat.sqrt value ≤ x)

theorem approaches_firstGuess {value : ℕ} (hvalue : 16 ≤ value) :
    Approaches value (firstGuess value) := by
  simp only [firstGuess]
  split_ifs with hsmall heven
  · have hroot : 4 ≤ Nat.sqrt value := Nat.le_sqrt.mpr hvalue
    exact ⟨by omega, Or.inl (by omega)⟩
  all_goals
    have hlength : 0 < (DecimalText.print value).length := Nat.length_toDigits_pos
    have hlt : value < 10 ^ (DecimalText.print value).length :=
      (Nat.length_toDigits_le_iff (by decide) hlength).mp le_rfl
    generalize (DecimalText.print value).length = vLen at heven hlt
    refine ⟨by positivity, Or.inr (Nat.sqrt_lt'.mpr ?_).le⟩
  · rwa [← pow_mul, Nat.div_mul_cancel (Nat.dvd_of_mod_eq_zero heven)]
  · have hhalf : vLen = vLen / 2 * 2 + 1 := by omega
    rw [hhalf, pow_succ, pow_mul] at hlt
    rw [mul_pow]
    omega

theorem sqrtRound_eq (value x : ℕ) : sqrtRound value x =
    pure (if x ≠ newton value x ∧ x + 1 ≠ newton value x then .next (newton value x)
      else .done x) := by
  rw [sqrtRound, newton, Nat.shiftRight_eq_div_pow, pow_one]

/-- The iteration ends at the root. -/
theorem returns_loop_sqrtRound {value x : ℕ} (hvalue : 0 < value) (hx : Approaches value x) :
    Returns (loop (sqrtRound value) x) (Nat.sqrt value) := by
  have hloop : ∃ root, Returns (loop (sqrtRound value) x) root ∧ root = Nat.sqrt value := by
    apply exists_returns_loop (Approaches value) _
      (fun x => if x < Nat.sqrt value then value + 1 else x) ?_ hx
    rintro x ⟨hpos, hplace⟩
    have hstays := @sqrt_le_newton value x hpos
    have hrises : 0 < newton value x := (Nat.sqrt_pos.mpr hvalue).trans_le hstays
    rw [sqrtRound_eq]
    rcases lt_trichotomy x (Nat.sqrt value) with hlt | rfl | hgt
    · -- below the root: one step leads above it, and not above the number itself
      have hup := lt_newton hpos (hplace.resolve_right (by omega))
      have hbound : newton value x ≤ value := by
        have hdiv := Nat.div_le_self value x
        have hroot := Nat.sqrt_le_self value
        rw [newton]
        omega
      refine Or.inr ⟨newton value x, ?_, ⟨hrises, Or.inr hstays⟩, ?_⟩
      · rw [if_pos ⟨by omega, by omega⟩]
        exact returns_pure _
      · rw [if_neg (not_lt.mpr hstays), if_pos hlt]
        exact Nat.lt_succ_of_le hbound
    · refine Or.inl ⟨_, ?_, rfl⟩
      have hstep := newton_sqrt hvalue
      rw [if_neg (by omega)]
      exact returns_pure _
    · have hdown := newton_lt hgt
      refine Or.inr ⟨newton value x, ?_, ⟨hrises, Or.inr hstays⟩, ?_⟩
      · rw [if_pos ⟨by omega, by omega⟩]
        exact returns_pure _
      · rw [if_neg (not_lt.mpr hstays), if_neg hgt.not_gt]
        exact hdown
  obtain ⟨root, hreturns, rfl⟩ := hloop
  exact hreturns

theorem returns_sqrt (value : ℕ) : Returns (sqrt value) (Nat.sqrt value) := by
  rw [sqrt]
  split_ifs with htiny hsmall
  · have hroot : Nat.sqrt value = value := by
      rcases Nat.lt_succ_iff_lt_or_eq.mp htiny with h | rfl
      · rw [Nat.lt_one_iff.mp h, Nat.sqrt_zero]
      · exact Nat.sqrt_one
    rw [hroot]
    exact returns_pure value
  · exact returns_pure _
  · exact returns_loop_sqrtRound (by omega) (approaches_firstGuess (by omega))

/-- The iteration ends, for every number, with the largest root whose square is not above it. -/
theorem sqrt_exact (value : ℕ) :
    ∃ root, Returns (sqrt value) root ∧ root ^ 2 ≤ value ∧ value < (root + 1) ^ 2 :=
  ⟨Nat.sqrt value, returns_sqrt value, Nat.sqrt_le' value, Nat.lt_succ_sqrt' value⟩

end RandomArt.RandomPrimeField
