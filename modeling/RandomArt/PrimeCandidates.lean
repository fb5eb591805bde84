import RandomArt.MillerRabin
import RandomArt.PrimitiveRoot
import Mathlib.Data.Nat.Size

/-!
# Candidates for a large prime

A draw stays below its bound, whatever the two outcomes are. A candidate is therefore an odd number
that has exactly the bits that were asked for.
-/

namespace RandomArt.RandomPrimeField

open Looping

theorem or_one_div_two (n : ℕ) : (n ||| 1) / 2 = n / 2 := by
  rw [Nat.or_div_two]
  exact Nat.or_zero _

theorem or_one_mod_two (n : ℕ) : (n ||| 1) % 2 = 1 :=
  Nat.or_mod_two_eq_one.mpr (Or.inr rfl)

theorem candidate_odd (bitLength : ℕ) (first second : Random) :
    candidate bitLength first second % 2 = 1 := or_one_mod_two _

theorem candidate_bounds {bitLength : ℕ} (h : 2 ≤ bitLength) (first second : Random) :
    2 ^ (bitLength - 1) ≤ candidate bitLength first second ∧
      candidate bitLength first second < 2 ^ bitLength := by
  have hdouble : 2 ^ bitLength = 2 * 2 ^ (bitLength - 1) := by
    rw [← pow_succ', Nat.sub_add_cancel (by omega)]
  have hmin : 2 ≤ 2 ^ (bitLength - 1) := Nat.le_self_pow (by omega) 2
  have hspread : 0 < 2 ^ bitLength - 1 - 2 ^ (bitLength - 1) := by omega
  have hdraw := randBelow_lt hspread first second
  have hhalf := or_one_div_two
    (randBelow (2 ^ bitLength - 1 - 2 ^ (bitLength - 1)) first second + 2 ^ (bitLength - 1))
  have hodd := candidate_odd bitLength first second
  simp only [candidate, Nat.one_shiftLeft] at hodd ⊢
  omega

theorem size_candidate {bitLength : ℕ} (h : 2 ≤ bitLength) (first second : Random) :
    Nat.size (candidate bitLength first second) = bitLength := by
  obtain ⟨hlow, hhigh⟩ := candidate_bounds h first second
  have hle : Nat.size (candidate bitLength first second) ≤ bitLength := Nat.size_le.mpr hhigh
  have hlt : bitLength - 1 < Nat.size (candidate bitLength first second) := Nat.lt_size.mpr hlow
  omega

section Rounds

variable (modPow : ℕ → ℕ → ℕ → ℕ)

/-- The test comes to an end for every odd number. -/
theorem exists_returns_isMillerRabinPassed {n : ℕ} (hodd : n % 2 = 1) (draws : List ℕ) :
    ∃ passed, Returns (isMillerRabinPassed modPow n draws) passed := by
  rcases Nat.lt_or_ge 3 n with hlarge | hsmall
  · exact ⟨_, returns_of_odd modPow hlarge hodd draws⟩
  · by_cases hthree : n = 3
    · exact ⟨true, returns_of_small modPow (Or.inr hthree) draws⟩
    · refine ⟨false, ?_⟩
      rw [isMillerRabinPassed, if_pos (by omega)]
      exact returns_pure false

/-- The rounds come to an end, and test no other numbers than the candidates. -/
theorem exists_returns_generateLargePrime (checkPrimeSync : ℕ → Bool) (bitLength : ℕ)
    (rounds : List Draws) :
    ∃ result tested,
      Returns (generateLargePrime modPow checkPrimeSync bitLength rounds) (result, tested) ∧
      (∀ p ∈ tested, ∃ first second, p = candidate bitLength first second) ∧
      ∀ p, result = some p → p ∈ tested := by
  induction rounds with
  | nil => exact ⟨none, [], returns_pure _, by simp, by simp⟩
  | cons draws rest ih =>
    obtain ⟨result, tested, hrest, htested, hresult⟩ := ih
    have hodd := candidate_odd bitLength draws.first draws.second
    rw [generateLargePrime]
    generalize hp : candidate bitLength draws.first draws.second = p at hodd
    obtain ⟨passed, hpassed⟩ := exists_returns_isMillerRabinPassed modPow hodd
      (draws.bases.map fun base => randBelow (p - 4) base.1 base.2)
    by_cases hboth : (passed && checkPrimeSync p) = true
    · refine ⟨some p, [p], hpassed.bind ?_, ?_, ?_⟩
      · rw [if_pos hboth]
        exact returns_pure _
      · intro q hq
        rw [List.mem_singleton.mp hq]
        exact ⟨_, _, hp.symm⟩
      · intro q hq
        rw [Option.some.inj hq]
        exact List.mem_singleton_self _
    · refine ⟨result, p :: tested, hpassed.bind ?_, ?_, ?_⟩
      · rw [if_neg hboth]
        exact hrest.bind (returns_pure _)
      · intro q hq
        rcases List.mem_cons.mp hq with rfl | hq
        · exact ⟨_, _, hp.symm⟩
        · exact htested q hq
      · intro q hq
        exact List.mem_cons_of_mem _ (hresult q hq)

/-- Every draw is below its bound, and every candidate that is tested is odd and has as many bits
as were asked for. -/
theorem candidate_ranges :
    (∀ n > 0, ∀ first second, 0 ≤ randBelow n first second ∧ randBelow n first second < n) ∧
    ∀ bitLength ≥ 2, ∀ checkPrimeSync rounds, ∃ result tested,
      Returns (generateLargePrime modPow checkPrimeSync bitLength rounds) (result, tested) ∧
      (∀ p, result = some p → p ∈ tested) ∧
      ∀ p ∈ tested, p % 2 = 1 ∧ Nat.size p = bitLength := by
  constructor
  · intro n hn first second
    exact ⟨Nat.zero_le _, randBelow_lt hn first second⟩
  · intro bitLength hbits checkPrimeSync rounds
    obtain ⟨result, tested, hreturns, htested, hresult⟩ :=
      exists_returns_generateLargePrime modPow checkPrimeSync bitLength rounds
    refine ⟨result, tested, hreturns, hresult, fun p hp => ?_⟩
    obtain ⟨first, second, rfl⟩ := htested p hp
    exact ⟨candidate_odd _ _ _, size_candidate hbits _ _⟩

/-- An outcome of a half, and one of two thirds. -/
def halfRandom : Random := ⟨1 / 2, by norm_num, by norm_num⟩

def twoThirdsRandom : Random := ⟨2 / 3, by norm_num, by norm_num⟩

/-- A draw far above the safe integers, and two rounds with a base for each. -/
theorem candidate_ranges_half : randBelow (10 ^ 20) halfRandom twoThirdsRandom < 10 ^ 20 ∧
    ∃ result tested, Returns (generateLargePrime powMod (fun n => n % 7 ≠ 0) 40
      [⟨halfRandom, twoThirdsRandom, [(twoThirdsRandom, halfRandom)]⟩,
        ⟨twoThirdsRandom, halfRandom, [(halfRandom, halfRandom)]⟩]) (result, tested) ∧
      (∀ p, result = some p → p ∈ tested) ∧ ∀ p ∈ tested, p % 2 = 1 ∧ Nat.size p = 40 :=
  ⟨((candidate_ranges powMod).1 (10 ^ 20) (by decide) halfRandom twoThirdsRandom).2,
    (candidate_ranges powMod).2 40 (by decide) (fun n => n % 7 ≠ 0)
      [⟨halfRandom, twoThirdsRandom, [(twoThirdsRandom, halfRandom)]⟩,
        ⟨twoThirdsRandom, halfRandom, [(halfRandom, halfRandom)]⟩]⟩

end Rounds

end RandomArt.RandomPrimeField
