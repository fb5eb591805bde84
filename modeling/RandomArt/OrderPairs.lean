import RandomArt.FindG
import RandomArt.ModularPowers

/-!
# The pairs from the powers of a primitive root

A number below `p ^ 2` that is no multiple of `p` has a digit other than zero in its last place.
The generator moves that digit around the diagonal, which gives every pair of different digits.
-/

namespace RandomArt.FindG

open Looping ModularPowers

section Pairs

variable {p i : ℕ}

theorem pairOf_eq (p i : ℕ) :
    pairOf p i = (↑(i / p), if i % p ≤ i / p then (↑(i % p) : ℤ) - 1 else ↑(i % p)) := by
  have hy : (i : ℤ) - ↑(i / p) * ↑p = ↑(i % p) := by
    have hsum : (p : ℤ) * ↑(i / p) + ↑(i % p) = i := mod_cast Nat.div_add_mod i p
    rw [Int.mul_comm, ← hsum, Int.add_comm, Int.add_sub_cancel]
  simp only [pairOf, hy, Nat.cast_le]

theorem pairOf_injective (p : ℕ) : Function.Injective (pairOf p) := by
  intro i j h
  rw [pairOf_eq, pairOf_eq, Prod.mk.injEq, Nat.cast_inj] at h
  obtain ⟨hx, hy⟩ := h
  have hr : i % p = j % p := by
    rw [hx] at hy
    split_ifs at hy <;> omega
  rw [← Nat.div_add_mod i p, ← Nat.div_add_mod j p, hx, hr]

theorem pairOf_offDiagonal (hp : 0 < p) (hlt : i < p ^ 2) (hi : i % p ≠ 0) :
    0 ≤ (pairOf p i).1 ∧ (pairOf p i).1 < p ∧ 0 ≤ (pairOf p i).2 ∧ (pairOf p i).2 < p ∧
      (pairOf p i).1 ≠ (pairOf p i).2 := by
  have hx : i / p < p := Nat.div_lt_of_lt_mul (by rwa [← pow_two])
  have hr : i % p < p := Nat.mod_lt i hp
  rw [pairOf_eq]
  generalize i / p = x at hx
  generalize i % p = r at hi hr
  dsimp only
  split_ifs <;> omega

/-- A pair of different digits comes from the number whose last digit is moved back. -/
theorem exists_pairOf_eq {x y : ℤ} (hx : 0 ≤ x) (hxp : x < p) (hy : 0 ≤ y) (hyp : y < p)
    (hne : x ≠ y) : ∃ i < p ^ 2, i % p ≠ 0 ∧ pairOf p i = (x, y) := by
  lift x to ℕ using hx
  lift y to ℕ using hy
  obtain ⟨r, hr⟩ : ∃ r, r = if y < x then y + 1 else y := ⟨_, rfl⟩
  have hrange : 0 < r ∧ r < p := by
    split_ifs at hr <;> omega
  obtain ⟨hdiv, hmod, hlt⟩ := digits_of_lt hrange.2 (show x < p by omega)
  refine ⟨p * x + r, by rwa [pow_two], by omega, ?_⟩
  rw [pairOf_eq, hdiv, hmod]
  split_ifs at hr ⊢ <;> grind

end Pairs

section Walk

variable {g p : ℕ}

/-- At the start of a round the numbers before `i` have been yielded as pairs, and they are the
powers that come before it. -/
def Walked (g p : ℕ) (state : ℕ × List (ℤ × ℤ)) : Prop :=
  ∃ k, 0 < k ∧ k ≤ (p ^ 2).totient ∧ state.1 = g ^ k % p ^ 2 ∧
    state.2 = (List.range k).map fun j => pairOf p (g ^ j % p ^ 2)

theorem Walked.start (hp : 1 < p) (hg : g < p ^ 2) : Walked g p (g, [(0, 1)]) := by
  have hone : 1 < p ^ 2 := Nat.one_lt_pow two_ne_zero hp
  refine ⟨1, one_pos, Nat.totient_pos.mpr (by omega), ?_, ?_⟩
  · rw [pow_one, Nat.mod_eq_of_lt hg]
  · have hpair : pairOf p 1 = (0, 1) := by
      rw [pairOf_eq, Nat.div_eq_of_lt hp, Nat.mod_eq_of_lt hp]
      rfl
    rw [List.range_one, List.map_singleton, pow_zero, Nat.mod_eq_of_lt hone, hpair]

theorem orderPairs_returns (hp : 1 < p) (hlt : g < p ^ 2)
    (hg : IsPrimitiveRootModulo g (p ^ 2)) :
    Returns (orderPairs g p) ((powers g (p ^ 2)).map (pairOf p)) := by
  have hone : 1 < p ^ 2 := Nat.one_lt_pow two_ne_zero hp
  have hend : ∃ pairs, Returns (orderPairs g p) pairs ∧
      pairs = (powers g (p ^ 2)).map (pairOf p) := by
    apply exists_returns_loop (Walked g p) _ (fun state => (p ^ 2).totient - state.2.length) ?_
      (Walked.start hp hlt)
    intro (i, pairs) hwalked
    obtain ⟨k, hpos, hle, rfl, rfl⟩ := hwalked
    have hback := pow_mod_eq_one_iff (g := g) hone (k := k)
    rw [hg] at hback
    by_cases hdone : g ^ k % p ^ 2 = 1
    · have hk : k = (p ^ 2).totient := Nat.le_antisymm hle (Nat.le_of_dvd hpos (hback.mp hdone))
      refine Or.inl ⟨_, ?_, rfl⟩
      rw [orderRound, if_neg (not_not.mpr hdone), powers, List.map_map, ← hk]
      exact returns_pure _
    · have hne : k ≠ (p ^ 2).totient := fun heq => hdone (hback.mpr (dvd_of_eq heq.symm))
      have hk : k < (p ^ 2).totient := hle.lt_of_ne hne
      refine Or.inr ⟨(g ^ (k + 1) % p ^ 2, (List.range (k + 1)).map _), ?_,
        ⟨k + 1, k.succ_pos, hk, rfl, rfl⟩, ?_⟩
      · rw [orderRound, if_pos hdone, ← pow_two, Nat.mod_mul_mod, ← pow_succ, List.range_succ,
          List.map_append, List.map_singleton]
        exact returns_pure _
      · simp only [List.length_map, List.length_range]
        omega
  obtain ⟨_, hreturns, rfl⟩ := hend
  exact hreturns

/-- The generator comes to its end and has yielded every pair of different digits once. -/
theorem orderPairs_complete (hp : p.Prime) (hlt : g < p ^ 2)
    (hroot : IsPrimitiveRootModulo g (p ^ 2)) :
    ∃ pairs, Returns (orderPairs g p) pairs ∧ pairs.Nodup ∧
      ∀ x y, (x, y) ∈ pairs ↔ 0 ≤ x ∧ x < p ∧ 0 ≤ y ∧ y < p ∧ x ≠ y := by
  have hmem (i : ℕ) : i ∈ powers g (p ^ 2) ↔ i < p ^ 2 ∧ i % p ≠ 0 :=
    IsPrimitiveRootModulo.mem_powers_prime_pow hp two_pos hroot
  refine ⟨_, orderPairs_returns hp.one_lt hlt hroot, ?_, ?_⟩
  · exact hroot.nodup_powers.map (pairOf_injective p)
  · intro x y
    rw [List.mem_map]
    constructor
    · rintro ⟨i, hi, hpair⟩
      obtain ⟨hlt, hr⟩ := (hmem i).mp hi
      have hoff := pairOf_offDiagonal hp.pos hlt hr
      rwa [hpair] at hoff
    · rintro ⟨hx, hxp, hy, hyp, hne⟩
      obtain ⟨i, hlt, hr, hpair⟩ := exists_pairOf_eq hx hxp hy hyp hne
      exact ⟨i, (hmem i).mpr ⟨hlt, hr⟩, hpair⟩

theorem orderPairs_complete_three : ∃ pairs, Returns (orderPairs 2 3) pairs ∧ pairs.Nodup ∧
    ∀ x y, (x, y) ∈ pairs ↔ 0 ≤ x ∧ x < (3 : ℕ) ∧ 0 ≤ y ∧ y < (3 : ℕ) ∧ x ≠ y := by
  apply orderPairs_complete Nat.prime_three (by decide)
  change orderOf (2 : ZMod 9) = Nat.totient 9
  rw [orderOf_eq_iff (by decide)]
  decide

end Walk

end RandomArt.FindG
