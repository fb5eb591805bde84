import RandomArt.ModularPowers
import Mathlib.FieldTheory.Finite.Basic
import Mathlib.NumberTheory.Padics.PadicVal.Basic

/-!
# Strong probable primes

A number `n` is a strong probable prime to a base when, among the powers of the base that lead
up to `n - 1` by squaring, the first is one or some power before the last is minus one. Primes are
strong probable primes to every base that they do not divide, because one has no other square
roots modulo a prime.
-/

namespace RandomArt.StrongProbablePrimes

open ModularPowers

/-- The number of factors of two in `n - 1`. -/
def twos (n : ℕ) : ℕ := padicValNat 2 (n - 1)

/-- What is left of `n - 1` without its factors of two. -/
def oddPart (n : ℕ) : ℕ := (n - 1) / 2 ^ twos n

def IsStrongProbablePrime (n a : ℕ) : Prop :=
  a ^ oddPart n % n = 1 ∨ ∃ j < twos n, a ^ (2 ^ j * oddPart n) % n = n - 1

theorem twos_of_eq {n r d : ℕ} (h : 2 ^ r * d = n - 1) (hd : d % 2 = 1) : twos n = r := by
  have hne : d ≠ 0 := by omega
  have hodd : padicValNat 2 d = 0 := padicValNat.eq_zero_of_not_dvd (by omega)
  rw [twos, ← h, padicValNat.mul (by positivity) hne, padicValNat.prime_pow, hodd, Nat.add_zero]

theorem oddPart_of_eq {n r d : ℕ} (h : 2 ^ r * d = n - 1) (hd : d % 2 = 1) : oddPart n = d := by
  rw [oddPart, twos_of_eq h hd, ← h, Nat.mul_div_cancel_left _ (by positivity)]

theorem two_pow_twos_mul_oddPart (n : ℕ) : 2 ^ twos n * oddPart n = n - 1 :=
  Nat.mul_div_cancel' pow_padicValNat_dvd

theorem twos_pos {n : ℕ} (hn : 1 < n) (hodd : n % 2 = 1) : 0 < twos n := by
  have hdvd : 2 ∣ n - 1 := by omega
  exact one_le_padicValNat_of_dvd (by omega) hdvd

section Prime

variable {n a : ℕ}

/-- A power that squares up to one starts at one or meets minus one on the way. -/
theorem eq_one_or_exists_eq_neg_one {F : Type*} [CommRing F] [NoZeroDivisors F] {x : F} {k : ℕ}
    (h : x ^ 2 ^ k = 1) : x = 1 ∨ ∃ j < k, x ^ 2 ^ j = -1 := by
  induction k with
  | zero =>
    rw [pow_zero, pow_one] at h
    exact Or.inl h
  | succ k ih =>
    rw [pow_succ, pow_mul, sq_eq_one_iff] at h
    rcases h with hone | hneg
    · rcases ih hone with hx | ⟨j, hj, hneg⟩
      · exact Or.inl hx
      · exact Or.inr ⟨j, hj.trans (Nat.lt_succ_self k), hneg⟩
    · exact Or.inr ⟨k, Nat.lt_succ_self k, hneg⟩

theorem isStrongProbablePrime_of_prime (hn : n.Prime) (ha : ¬n ∣ a) :
    IsStrongProbablePrime n a := by
  have hfact : Fact n.Prime := ⟨hn⟩
  have hne : (a : ZMod n) ≠ 0 := by rwa [Ne, ZMod.natCast_eq_zero_iff]
  have hpow : ((a : ZMod n) ^ oddPart n) ^ 2 ^ twos n = 1 := by
    rw [← pow_mul, Nat.mul_comm, two_pow_twos_mul_oddPart, ZMod.pow_card_sub_one_eq_one hne]
  rcases eq_one_or_exists_eq_neg_one hpow with hone | ⟨j, hj, hneg⟩
  · left
    rw [← natCast_eq_one_iff hn.one_lt, Nat.cast_pow, hone]
  · right
    refine ⟨j, hj, ?_⟩
    rw [← natCast_eq_neg_one_iff hn.one_lt, Nat.cast_pow, Nat.mul_comm, pow_mul, hneg]

end Prime

end RandomArt.StrongProbablePrimes
