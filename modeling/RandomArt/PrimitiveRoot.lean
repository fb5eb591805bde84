import RandomArt.ModularPowers
import RandomArt.RandomPrimeField
import Mathlib.FieldTheory.Finite.Basic

/-!
# Primitive roots and the sequences they roll

A candidate is drawn from the numbers between zero and `p`. When no quotient of `p - 1` by one of
its prime factors takes it to one, its order is `p - 1`; its powers modulo a power of `p` are then
different because they are different modulo `p`.
-/

namespace RandomArt.RandomPrimeField

open ModularPowers

section Draws

theorem Random.below_lt (random : Random) {n : ℕ} (hn : 0 < n) : random.below n < n := by
  have hpos : (0 : ℚ) < n := Nat.cast_pos.mpr hn
  rw [Random.below, Nat.floor_lt (mul_nonneg random.nonneg hpos.le)]
  exact mul_lt_of_lt_one_left hpos random.lt_one

@[simp] theorem Random.below_zero (random : Random) : random.below 0 = 0 := by
  rw [Random.below, Nat.cast_zero, mul_zero, Nat.floor_zero]

theorem randBelow_zero (first second : Random) : randBelow 0 first second = 0 := by
  simp [randBelow]

/-- The draw stays below its bound: the second outcome makes up for at most what the first falls
short of. -/
theorem randBelow_lt {n : ℕ} (hn : 0 < n) (first second : Random) :
    randBelow n first second < n := by
  have hscale : first.below BIG_MAX_SAFE < BIG_MAX_SAFE := first.below_lt (by decide)
  have hskew : second.below ((n - n % BIG_MAX_SAFE) / BIG_MAX_SAFE) = 0 ∨
      second.below ((n - n % BIG_MAX_SAFE) / BIG_MAX_SAFE) < n / BIG_MAX_SAFE := by
    rw [← Nat.div_eq_sub_mod_div]
    rcases Nat.eq_zero_or_pos (n / BIG_MAX_SAFE) with hzero | hpos
    · rw [hzero]
      exact Or.inl second.below_zero
    · exact Or.inr (second.below_lt hpos)
  have hslice : n / BIG_MAX_SAFE * BIG_MAX_SAFE ≤ n := Nat.div_mul_le_self n BIG_MAX_SAFE
  have hsmall : n * first.below BIG_MAX_SAFE / BIG_MAX_SAFE < n := by
    rw [Nat.div_lt_iff_lt_mul (by decide)]
    exact Nat.mul_lt_mul_of_pos_left hscale hn
  have hlarge : n * first.below BIG_MAX_SAFE / BIG_MAX_SAFE < n - n / BIG_MAX_SAFE + 1 := by
    have hbelow := Nat.mul_le_mul_left n (Nat.succ_le_of_lt hscale)
    rw [Nat.mul_succ] at hbelow
    rw [Nat.div_lt_iff_lt_mul (by decide), Nat.add_mul, Nat.sub_mul, one_mul]
    omega
  have hle := Nat.div_le_self n BIG_MAX_SAFE
  rw [randBelow]
  omega

end Draws

variable {modPow : ℕ → ℕ → ℕ → ℕ} {p g : ℕ} {factors : List ℕ} {draws : List (Random × Random)}

/-- A root that is found lies between one and `p` and has passed the test for every factor. -/
theorem of_findPrimitiveRoot (hp : 3 ≤ p)
    (h : findPrimitiveRoot modPow p factors draws = some g) :
    1 < g ∧ g < p ∧ ∀ q ∈ factors, modPow g ((p - 1 - (p - 1) % q) / q) p ≠ 1 := by
  induction draws with
  | nil => cases h
  | cons draw draws ih =>
    obtain ⟨first, second⟩ := draw
    rw [findPrimitiveRoot] at h
    split_ifs at h with hall
    · obtain rfl := Option.some.inj h
      refine ⟨by omega, ?_, by simpa using hall⟩
      rcases hp.lt_or_eq with hlt | rfl
      · have hdraw := randBelow_lt (show 0 < p - 3 by omega) first second
        omega
      · rw [Nat.sub_self, randBelow_zero]
        decide
    · exact ih h

theorem orderOf_of_passes (hmodPow : IsModPow modPow) (hp : p.Prime) (hgp : ¬p ∣ g)
    (hfactors : ∀ q, q ∈ factors ↔ q.Prime ∧ q ∣ p - 1)
    (hall : ∀ q ∈ factors, modPow g ((p - 1 - (p - 1) % q) / q) p ≠ 1) :
    orderOf (g : ZMod p) = p - 1 := by
  have hfact : Fact p.Prime := ⟨hp⟩
  have hne : (g : ZMod p) ≠ 0 := by rwa [Ne, ZMod.natCast_eq_zero_iff]
  apply orderOf_eq_of_pow_and_pow_div_prime (Nat.sub_pos_of_lt hp.one_lt)
    (ZMod.pow_card_sub_one_eq_one hne)
  intro q hq hdvd
  have hpow := hall q ((hfactors q).mpr ⟨hq, hdvd⟩)
  rw [hmodPow _ _ _ hp.pos, Nat.mod_eq_zero_of_dvd hdvd, Nat.sub_zero] at hpow
  rwa [← Nat.cast_pow, Ne, natCast_eq_one_iff hp.one_lt]

theorem rollState_eq {pToE : ℕ} (hg : g < pToE) (k : ℕ) :
    rollState g pToE k = g ^ (k + 1) % pToE := by
  induction k with
  | zero => rw [rollState, zero_add, pow_one, Nat.mod_eq_of_lt hg]
  | succ k ih => rw [rollState, ih, Nat.mod_mul_mod, ← pow_succ]

theorem rollExponent_pos (nBits : ℕ) {bitLength : ℕ} (hbits : 0 < bitLength) :
    0 < rollExponent nBits bitLength := by
  rw [rollExponent, BIAS_PADDING, Nat.ceil_pos]
  positivity

/-- Numbers of which none is zero, and of which any `count` in a row differ. -/
def RollsThrough (state : ℕ → ℕ) (count : ℕ) : Prop :=
  (∀ k, state k ≠ 0) ∧ ∀ start i j, i < count → j < count →
    state (start + i) = state (start + j) → i = j

/-- The sequence gives the low bits of the states modulo a power of `p`. -/
theorem exists_rollSequence_eq (p g nBits count : ℕ) {bitLength : ℕ} (hbits : 0 < bitLength) :
    ∃ e ≥ 1, rollSequence p g bitLength nBits count =
      (List.range count).map fun k => rollState g (p ^ e) (k + 1) % 2 ^ nBits :=
  ⟨rollExponent nBits bitLength, rollExponent_pos nBits hbits, rfl⟩

/-- A root that is found has order `p - 1`; what it rolls modulo a power of `p` never comes to zero,
and takes `p - 1` different values in a row, wherever one starts to count. Of such states the
sequence gives the low bits. -/
theorem primitiveRoot_rolls (hmodPow : IsModPow modPow) (hp : p.Prime) (hodd : 3 ≤ p)
    (hfactors : ∀ q, q ∈ factors ↔ q.Prime ∧ q ∣ p - 1)
    (h : findPrimitiveRoot modPow p factors draws = some g) :
    orderOf (g : ZMod p) = p - 1 ∧
    (∀ e ≥ 1, RollsThrough (rollState g (p ^ e)) (p - 1)) ∧
    ∀ nBits count, ∀ bitLength > 0, ∃ e ≥ 1, rollSequence p g bitLength nBits count =
      (List.range count).map fun k => rollState g (p ^ e) (k + 1) % 2 ^ nBits := by
  obtain ⟨hone, hgp, hall⟩ := of_findPrimitiveRoot hodd h
  have hndvd : ¬p ∣ g := Nat.not_dvd_of_pos_of_lt (by omega) hgp
  have horder := orderOf_of_passes hmodPow hp hndvd hfactors hall
  refine ⟨horder, fun e he => ?_,
    fun nBits count _ hbits => exists_rollSequence_eq p g nBits count hbits⟩
  have hdvd : p ∣ p ^ e := dvd_pow_self p (by omega)
  have hlt : g < p ^ e := hgp.trans_le (Nat.le_of_dvd (pow_pos hp.pos e) hdvd)
  constructor
  · intro k hzero
    rw [rollState_eq hlt] at hzero
    exact hndvd (hp.dvd_of_dvd_pow (hdvd.trans (Nat.dvd_of_mod_eq_zero hzero)))
  · intro start i j hi hj hsame
    rw [rollState_eq hlt, rollState_eq hlt] at hsame
    have hmod := congrArg (· % p) hsame
    simp only [Nat.mod_mod_of_dvd _ hdvd, Nat.add_right_comm start _ 1] at hmod
    rw [← horder] at hi hj
    exact eq_of_pow_mod_eq (start + 1) hi hj hmod

/-- What the source of random numbers gives at the least. -/
def leastRandom : Random := ⟨0, le_rfl, one_pos⟩

theorem primitiveRoot_rolls_five :
    orderOf ((2 : ℕ) : ZMod 5) = 4 ∧ (∀ e ≥ 1, RollsThrough (rollState 2 (5 ^ e)) 4) ∧
    ∀ nBits count, ∀ bitLength > 0, ∃ e ≥ 1, rollSequence 5 2 bitLength nBits count =
      (List.range count).map fun k => rollState 2 (5 ^ e) (k + 1) % 2 ^ nBits := by
  have hfound : findPrimitiveRoot (fun base exponent n => base ^ exponent % n) 5 [2]
      [(leastRandom, leastRandom)] = some 2 := by
    simp [findPrimitiveRoot, randBelow, Random.below, leastRandom, BIG_MAX_SAFE]
  refine primitiveRoot_rolls (fun _ _ _ _ => rfl) Nat.prime_five (by decide) ?_ hfound
  intro q
  rw [List.mem_singleton]
  constructor
  · rintro rfl
    exact ⟨Nat.prime_two, by decide⟩
  · rintro ⟨hq, hdvd⟩
    have hpow : q ∣ 2 ^ 2 := hdvd
    exact (Nat.prime_dvd_prime_iff_eq hq Nat.prime_two).mp (hq.dvd_of_dvd_pow hpow)

end RandomArt.RandomPrimeField
