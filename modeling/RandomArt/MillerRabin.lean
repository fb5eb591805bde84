import RandomArt.RandomPrimeField
import RandomArt.StrongProbablePrimes

/-!
# The test of Miller and Rabin

A round of the test fails a number whose power meets minus one after a squaring, which is what a
strong probable prime does, and lets pass a number whose power never does. The test is right
where no round tells the two apart, or where it rejects for the wrong reason.
-/

namespace RandomArt.RandomPrimeField

open Looping StrongProbablePrimes

section Halving

theorem returns_halve {n : ℕ} (hn : 1 < n) : Returns (halve (n - 1)) (twos n, oddPart n) := by
  have hloop : ∃ result : ℕ × ℕ, Returns (loop halveRound (0, n - 1)) result ∧
      2 ^ result.1 * result.2 = n - 1 ∧ result.2 % 2 = 1 := by
    apply exists_returns_loop (fun state => 2 ^ state.1 * state.2 = n - 1 ∧ 0 < state.2) _ Prod.snd
    · rintro ⟨r, d⟩ ⟨hsplit, hpos⟩
      dsimp only at hsplit hpos ⊢
      by_cases heven : d % 2 = 0
      · refine Or.inr ⟨(r + 1, d / 2), ?_, ⟨?_, by omega⟩, by dsimp only; omega⟩
        · rw [halveRound, if_pos heven]
          exact returns_pure _
        · rw [← hsplit, pow_succ, mul_assoc, Nat.mul_div_cancel' (Nat.dvd_of_mod_eq_zero heven)]
      · refine Or.inl ⟨(r, d), ?_, hsplit, by dsimp only; omega⟩
        rw [halveRound, if_neg heven]
        exact returns_pure _
    · exact ⟨by rw [pow_zero, one_mul], by dsimp only; omega⟩
  obtain ⟨⟨r, d⟩, hreturns, hsplit, hodd⟩ := hloop
  rw [twos_of_eq hsplit hodd, oddPart_of_eq hsplit hodd]
  exact hreturns

end Halving

def Early (n a : ℕ) : Prop := a ^ oddPart n % n = 1 ∨ a ^ oddPart n % n = n - 1

def Late (n a : ℕ) : Prop :=
  ¬Early n a ∧ ∃ j, 0 < j ∧ j < twos n ∧ a ^ (2 ^ j * oddPart n) % n = n - 1

theorem isStrongProbablePrime_iff {n a : ℕ} (htwos : 0 < twos n) :
    IsStrongProbablePrime n a ↔ Early n a ∨ Late n a := by
  constructor
  · rintro (hone | ⟨j, hj, hneg⟩)
    · exact Or.inl (Or.inl hone)
    · by_cases hearly : Early n a
      · exact Or.inl hearly
      · rcases Nat.eq_zero_or_pos j with rfl | hpos
        · rw [pow_zero, one_mul] at hneg
          exact absurd (Or.inr hneg) hearly
        · exact Or.inr ⟨hearly, j, hpos, hj, hneg⟩
  · rintro ((hone | hneg) | ⟨-, j, -, hj, hneg⟩)
    · exact Or.inl hone
    · exact Or.inr ⟨0, htwos, by rwa [pow_zero, one_mul]⟩
    · exact Or.inr ⟨j, hj, hneg⟩

section Rounds

variable {modPow : ℕ → ℕ → ℕ → ℕ} (hmodPow : IsModPow modPow) {n : ℕ}
include hmodPow

theorem broken_iff (hn : 0 < n) {rounds x : ℕ} :
    broken modPow n rounds x = true ↔ ∃ j, 0 < j ∧ j ≤ rounds ∧ x ^ 2 ^ j % n = n - 1 := by
  induction rounds generalizing x with
  | zero =>
    rw [broken]
    simp only [Bool.false_eq_true, false_iff]
    rintro ⟨j, hpos, hle, -⟩
    omega
  | succ rounds ih =>
    have hsquare : ∀ j, (x ^ 2 % n) ^ 2 ^ j % n = x ^ 2 ^ (j + 1) % n := by
      intro j
      rw [← Nat.pow_mod, ← pow_mul, pow_succ, Nat.mul_comm (2 ^ j) 2]
    simp only [broken, hmodPow x 2 n hn]
    split_ifs with hneg
    · simp only [true_iff]
      exact ⟨1, one_pos, by omega, by rwa [pow_one]⟩
    · rw [ih]
      constructor
      · rintro ⟨j, hpos, hle, hj⟩
        exact ⟨j + 1, by omega, by omega, by rwa [← hsquare]⟩
      · rintro ⟨j, hpos, hle, hj⟩
        obtain ⟨j, rfl⟩ := Nat.exists_eq_add_of_le' hpos
        have hne : j ≠ 0 := by
          rintro rfl
          rw [zero_add, pow_one] at hj
          exact hneg hj
        exact ⟨j, by omega, by omega, by rwa [hsquare]⟩

/-- A round goes on unless minus one comes up after a squaring. -/
theorem passesRounds_iff (hn : 0 < n) {draws : List ℕ} :
    passesRounds modPow n (twos n) (oddPart n) draws = true ↔
      ∀ draw ∈ draws, ¬Late n (2 + draw) := by
  induction draws with
  | nil => simp [passesRounds]
  | cons draw draws ih =>
    have hlate : ¬Early n (2 + draw) → (broken modPow n (twos n - 1)
        ((2 + draw) ^ oddPart n % n) = true ↔ Late n (2 + draw)) := by
      intro hearly
      rw [broken_iff hmodPow hn, Late, and_iff_right hearly]
      apply exists_congr
      intro j
      rw [← Nat.pow_mod, ← pow_mul, Nat.mul_comm (oddPart n)]
      constructor
      · rintro ⟨hpos, hle, hj⟩
        exact ⟨hpos, by omega, hj⟩
      · rintro ⟨hpos, hlt, hj⟩
        exact ⟨hpos, by omega, hj⟩
    simp only [passesRounds, hmodPow _ _ n hn, List.forall_mem_cons]
    split_ifs with hearly hbroken
    · rw [ih, and_iff_right (fun h : Late n (2 + draw) => h.1 hearly)]
    · simp only [false_iff, not_and]
      exact fun h => absurd ((hlate hearly).mp hbroken) h
    · rw [ih, and_iff_right (fun h => hbroken ((hlate hearly).mpr h))]

end Rounds

section Test

variable (modPow : ℕ → ℕ → ℕ → ℕ)

theorem returns_of_small {n : ℕ} (h : n = 2 ∨ n = 3) (draws : List ℕ) :
    Returns (isMillerRabinPassed modPow n draws) true := by
  rw [isMillerRabinPassed, if_neg (by omega), if_pos h]
  exact returns_pure true

theorem returns_of_even {n : ℕ} (hn : 2 < n) (heven : n % 2 = 0) (draws : List ℕ) :
    Returns (isMillerRabinPassed modPow n draws) false := by
  rw [isMillerRabinPassed, if_neg (by omega), if_neg (by omega), if_pos heven]
  exact returns_pure false

theorem returns_of_odd {n : ℕ} (hn : 3 < n) (hodd : n % 2 = 1) (draws : List ℕ) :
    Returns (isMillerRabinPassed modPow n draws)
      (passesRounds modPow n (twos n) (oddPart n) draws) := by
  rw [isMillerRabinPassed, if_neg (by omega), if_neg (by omega), if_neg (by omega)]
  exact (returns_halve (by omega)).bind (returns_pure _)

/-- The test, for the bases that are drawn, is the test for strong probable primes: it passes
every prime, and no other number of which a base is a witness. -/
structure IsStrongTest (n : ℕ) (draws : List ℕ) : Prop where
  passes_iff : Returns (isMillerRabinPassed modPow n draws) true ↔
    n = 2 ∨ n = 3 ∨ (n % 2 = 1 ∧ 5 ≤ n ∧ ∀ draw ∈ draws, IsStrongProbablePrime n (2 + draw))
  decides : Returns (isMillerRabinPassed modPow n draws) true ∨
    Returns (isMillerRabinPassed modPow n draws) false
  passes_prime : n.Prime → Returns (isMillerRabinPassed modPow n draws) true
  rejects_composite : ¬n.Prime → (∃ draw ∈ draws, ¬IsStrongProbablePrime n (2 + draw)) →
    Returns (isMillerRabinPassed modPow n draws) false

variable {modPow} {n : ℕ} {draws : List ℕ}

theorem isStrongTest_of_small (hsmall : n = 2 ∨ n = 3) : IsStrongTest modPow n draws := by
  have htrue := returns_of_small modPow hsmall draws
  refine ⟨iff_of_true htrue ?_, Or.inl htrue, fun _ => htrue, ?_⟩
  · exact hsmall.elim Or.inl fun h => Or.inr (Or.inl h)
  · rintro hcomposite -
    rcases hsmall with rfl | rfl
    · exact absurd Nat.prime_two hcomposite
    · exact absurd Nat.prime_three hcomposite

theorem isStrongTest_of_even (hn : 2 < n) (heven : n % 2 = 0) : IsStrongTest modPow n draws := by
  have hfalse := returns_of_even modPow hn heven draws
  have hnot : ¬Returns (isMillerRabinPassed modPow n draws) true := by
    intro htrue
    cases hfalse.unique htrue
  refine ⟨iff_of_false hnot ?_, Or.inr hfalse, ?_, fun _ _ => hfalse⟩
  · rintro (h | h | ⟨h, -⟩) <;> omega
  · intro hprime
    have htwo : n = 2 := hprime.eq_two_or_odd.resolve_right (by omega)
    omega

/-- For odd numbers the test is right when it agrees with the test for strong probable primes. -/
theorem isStrongTest_of_odd_iff (hmodPow : IsModPow modPow) (hn : 5 ≤ n) (hodd : n % 2 = 1)
    (hdraws : ∀ draw ∈ draws, 2 + draw ≤ n - 2) :
    IsStrongTest modPow n draws ↔ ((∀ draw ∈ draws, ¬Late n (2 + draw)) ↔
      ∀ draw ∈ draws, IsStrongProbablePrime n (2 + draw)) := by
  have hreturns := returns_of_odd modPow (by omega) hodd draws
  have htrue : Returns (isMillerRabinPassed modPow n draws) true ↔
      ∀ draw ∈ draws, ¬Late n (2 + draw) := by
    rw [← passesRounds_iff hmodPow (by omega)]
    refine ⟨fun h => hreturns.unique h, fun h => ?_⟩
    rwa [h] at hreturns
  have hstrong : (n = 2 ∨ n = 3 ∨ (n % 2 = 1 ∧ 5 ≤ n ∧
      ∀ draw ∈ draws, IsStrongProbablePrime n (2 + draw))) ↔
      ∀ draw ∈ draws, IsStrongProbablePrime n (2 + draw) := by
    constructor
    · rintro (h | h | ⟨-, -, h⟩)
      · omega
      · omega
      · exact h
    · exact fun h => Or.inr (Or.inr ⟨hodd, hn, h⟩)
  constructor
  · intro h
    rw [← htrue, h.passes_iff, hstrong]
  · intro h
    have hfalse : ¬Returns (isMillerRabinPassed modPow n draws) true →
        Returns (isMillerRabinPassed modPow n draws) false := by
      intro hnot
      cases hpasses : passesRounds modPow n (twos n) (oddPart n) draws with
      | true => exact absurd (hpasses ▸ hreturns) hnot
      | false => exact hpasses ▸ hreturns
    refine ⟨by rw [htrue, h, hstrong], or_iff_not_imp_left.mpr hfalse, ?_, ?_⟩
    · intro hprime
      rw [htrue, h]
      intro draw hdraw
      apply isStrongProbablePrime_of_prime hprime
      have hle := hdraws draw hdraw
      exact Nat.not_dvd_of_pos_of_lt (by omega) (by omega)
    · rintro - ⟨draw, hdraw, hwitness⟩
      apply hfalse
      rw [htrue, h]
      exact fun hall => hwitness (hall draw hdraw)

/-- The test is right for two, three and the even numbers, and else when the power of every base
is one or minus one at once, or when one base meets minus one later and another is a witness. -/
theorem isStrongTest_iff (hmodPow : IsModPow modPow) (hn : 1 < n)
    (hdraws : ∀ draw ∈ draws, 2 + draw ≤ n - 2) :
    IsStrongTest modPow n draws ↔ n = 2 ∨ n = 3 ∨ n % 2 = 0 ∨
      (∀ draw ∈ draws, Early n (2 + draw)) ∨
      ((∃ draw ∈ draws, Late n (2 + draw)) ∧
        ∃ draw ∈ draws, ¬IsStrongProbablePrime n (2 + draw)) := by
  by_cases hsmall : n = 2 ∨ n = 3
  · exact iff_of_true (isStrongTest_of_small hsmall) (hsmall.elim Or.inl fun h => Or.inr (Or.inl h))
  obtain ⟨hne2, hne3⟩ := not_or.mp hsmall
  rw [or_iff_right hne2, or_iff_right hne3]
  by_cases heven : n % 2 = 0
  · exact iff_of_true (isStrongTest_of_even (by omega) heven) (Or.inl heven)
  · have htwos : 0 < twos n := twos_pos hn (by omega)
    rw [or_iff_right heven, isStrongTest_of_odd_iff hmodPow (by omega) (by omega) hdraws]
    simp only [isStrongProbablePrime_iff htwos]
    by_cases hlate : ∃ draw ∈ draws, Late n (2 + draw)
    · obtain ⟨late, hmem, h⟩ := hlate
      have hsome : ¬∀ draw ∈ draws, ¬Late n (2 + draw) := fun hnone => hnone late hmem h
      have hnotEarly : ¬∀ draw ∈ draws, Early n (2 + draw) := fun hall => h.1 (hall late hmem)
      rw [iff_false_left hsome, or_iff_right hnotEarly, and_iff_right ⟨late, hmem, h⟩]
      push Not
      rfl
    · have hnone : ∀ draw ∈ draws, ¬Late n (2 + draw) := by
        intro draw hmem h
        exact hlate ⟨draw, hmem, h⟩
      rw [iff_true_left hnone, or_iff_left fun h => hlate h.1]
      refine forall₂_congr fun draw hmem => ?_
      rw [or_iff_left (hnone draw hmem)]

def powMod (base exponent n : ℕ) : ℕ := base ^ exponent % n

/-- Modulo seven the powers of two are one at once, and those of five minus one. -/
theorem isStrongTest_iff_seven : IsStrongTest powMod 7 [0, 3] := by
  have hodd : oddPart 7 = 3 := oddPart_of_eq (r := 1) rfl rfl
  refine (isStrongTest_iff (fun _ _ _ _ => rfl) (by decide) (by decide)).mpr ?_
  refine Or.inr (Or.inr (Or.inr (Or.inl ?_)))
  simp only [Early, hodd]
  decide

/-- Five is prime, but a first draw of zero rejects it. -/
theorem five_rejected : Nat.Prime 5 ∧ ¬IsStrongTest powMod 5 (List.replicate 40 0) := by
  refine ⟨Nat.prime_five, fun h => ?_⟩
  have hfalse := returns_of_odd powMod (by decide : 3 < 5) rfl (List.replicate 40 0)
  rw [twos_of_eq (r := 2) (d := 1) rfl rfl, oddPart_of_eq (r := 2) (d := 1) rfl rfl] at hfalse
  have hrejected : passesRounds powMod 5 2 1 (List.replicate 40 0) = false := by decide
  rw [hrejected] at hfalse
  cases hfalse.unique (h.passes_prime Nat.prime_five)

end Test

end RandomArt.RandomPrimeField
