import Mathlib.Data.Nat.Totient
import Mathlib.Data.ZMod.Units
import Mathlib.GroupTheory.OrderOfElement

/-!
# Powers modulo a number

The remainders of the powers of a number repeat with its multiplicative order. When the order is
as large as it can be, every remainder that is coprime to the modulus is one of them.
-/

namespace RandomArt.ModularPowers

variable {m g : ℕ}

theorem natCast_eq_one_iff (hm : 1 < m) {x : ℕ} : (x : ZMod m) = 1 ↔ x % m = 1 := by
  rw [← Nat.cast_one, ZMod.natCast_eq_natCast_iff', Nat.mod_eq_of_lt hm]

theorem natCast_eq_neg_one_iff (hm : 1 < m) {x : ℕ} : (x : ZMod m) = -1 ↔ x % m = m - 1 := by
  have hneg : (-1 : ZMod m) = (m - 1 : ℕ) := by
    rw [Nat.cast_sub hm.le, ZMod.natCast_self, Nat.cast_one, zero_sub]
  rw [hneg, ZMod.natCast_eq_natCast_iff', Nat.mod_eq_of_lt (Nat.sub_lt (by omega) one_pos)]

theorem pow_mod_eq_pow_mod_iff {i j : ℕ} :
    g ^ i % m = g ^ j % m ↔ (g : ZMod m) ^ i = (g : ZMod m) ^ j := by
  rw [← ZMod.natCast_eq_natCast_iff', Nat.cast_pow, Nat.cast_pow]

/-- Next to each other, as many powers as the order are different. -/
theorem eq_of_pow_mod_eq (start : ℕ) {i j : ℕ} (hi : i < orderOf (g : ZMod m))
    (hj : j < orderOf (g : ZMod m)) (h : g ^ (start + i) % m = g ^ (start + j) % m) : i = j := by
  have hunit : IsUnit (g : ZMod m) :=
    IsUnit.of_pow_eq_one (pow_orderOf_eq_one _) (Nat.ne_of_gt (Nat.zero_lt_of_lt hi))
  rw [pow_mod_eq_pow_mod_iff, pow_add, pow_add] at h
  exact pow_injOn_Iio_orderOf hi hj ((hunit.pow start).mul_left_cancel h)

theorem coprime_of_orderOf_pos (h : 0 < orderOf (g : ZMod m)) : g.Coprime m :=
  (ZMod.isUnit_iff_coprime g m).mp
    (IsUnit.of_pow_eq_one (pow_orderOf_eq_one _) (Nat.ne_of_gt h))

theorem coprime_mod_iff {x : ℕ} : (x % m).Coprime m ↔ x.Coprime m := by
  rw [Nat.Coprime, Nat.Coprime, ← Nat.gcd_rec, Nat.gcd_comm]

/-- A power comes back to one first at a multiple of the order. -/
theorem pow_mod_eq_one_iff (hm : 1 < m) {k : ℕ} :
    g ^ k % m = 1 ↔ orderOf (g : ZMod m) ∣ k := by
  rw [orderOf_dvd_iff_pow_eq_one, ← natCast_eq_one_iff hm, Nat.cast_pow]

section PrimitiveRoot

/-- The powers of `g` modulo `m` are all remainders that are coprime to `m`. -/
def IsPrimitiveRootModulo (g m : ℕ) : Prop := orderOf (g : ZMod m) = m.totient

variable (hg : IsPrimitiveRootModulo g m) (hm : 0 < m)
include hg hm

theorem IsPrimitiveRootModulo.coprime : g.Coprime m := by
  apply coprime_of_orderOf_pos
  rw [hg]
  exact Nat.totient_pos.mpr hm

/-- The powers below the totient run through the coprime remainders. -/
theorem IsPrimitiveRootModulo.image_pow :
    (Finset.range m.totient).image (fun k => g ^ k % m) =
      (Finset.range m).filter (fun x => m.Coprime x) := by
  apply Finset.eq_of_subset_of_card_le
  · intro x hx
    obtain ⟨k, -, rfl⟩ := Finset.mem_image.mp hx
    rw [Finset.mem_filter, Finset.mem_range, Nat.coprime_comm, coprime_mod_iff]
    exact ⟨Nat.mod_lt _ hm, (hg.coprime hm).pow_left k⟩
  · rw [Finset.card_image_of_injOn, Finset.card_range, Nat.totient]
    intro i hi j hj hij
    rw [Finset.coe_range, Set.mem_Iio, ← hg] at hi hj
    exact eq_of_pow_mod_eq 0 hi hj (by rwa [zero_add, zero_add])

theorem IsPrimitiveRootModulo.exists_pow_mod_eq {x : ℕ} (hx : x < m) (hcoprime : x.Coprime m) :
    ∃ k < m.totient, g ^ k % m = x := by
  have hmem : x ∈ (Finset.range m.totient).image (fun k => g ^ k % m) := by
    rw [hg.image_pow hm, Finset.mem_filter, Finset.mem_range]
    exact ⟨hx, hcoprime.symm⟩
  obtain ⟨k, hk, hpow⟩ := Finset.mem_image.mp hmem
  exact ⟨k, Finset.mem_range.mp hk, hpow⟩

/-- The powers of a primitive root, one period of them. -/
def powers (g m : ℕ) : List ℕ := (List.range m.totient).map fun k => g ^ k % m

omit hm in
theorem IsPrimitiveRootModulo.nodup_powers : (powers g m).Nodup := by
  apply List.Nodup.map_on _ List.nodup_range
  intro i hi j hj hij
  rw [List.mem_range, ← hg] at hi hj
  exact eq_of_pow_mod_eq 0 hi hj (by rwa [zero_add, zero_add])

theorem IsPrimitiveRootModulo.mem_powers {x : ℕ} : x ∈ powers g m ↔ x < m ∧ x.Coprime m := by
  rw [powers, List.mem_map]
  constructor
  · rintro ⟨k, -, rfl⟩
    exact ⟨Nat.mod_lt _ hm, coprime_mod_iff.mpr ((hg.coprime hm).pow_left k)⟩
  · rintro ⟨hx, hcoprime⟩
    obtain ⟨k, hk, hpow⟩ := hg.exists_pow_mod_eq hm hx hcoprime
    exact ⟨k, List.mem_range.mpr hk, hpow⟩

omit hg hm in
/-- Modulo a power of a prime the powers are the numbers that are no multiples of the prime. -/
theorem IsPrimitiveRootModulo.mem_powers_prime_pow {p e : ℕ} (hp : p.Prime) (he : 0 < e)
    (hg : IsPrimitiveRootModulo g (p ^ e)) {x : ℕ} :
    x ∈ powers g (p ^ e) ↔ x < p ^ e ∧ x % p ≠ 0 := by
  rw [hg.mem_powers (pow_pos hp.pos e), Nat.coprime_pow_right_iff he, Nat.coprime_comm,
    hp.coprime_iff_not_dvd, Nat.dvd_iff_mod_eq_zero]

end PrimitiveRoot

end RandomArt.ModularPowers
