import RandomArt.FindG
import RandomArt.ModularPowers

/-!
# The dense sequence from the powers of a primitive root

Read in the base of the prime, the powers are the numbers whose last digit is not zero. Weighing
the digits above it with one less than the prime closes the gaps that the multiples leave.
-/

namespace RandomArt.FindG

open ModularPowers

variable {g p e : ℕ}

theorem timesTable_eq (p first rounds : ℕ) :
    timesTable p first rounds = (List.range (rounds + 1)).map fun i => first * p ^ i := by
  induction rounds with
  | zero => simp [timesTable]
  | succ rounds ih =>
    have hstep : timesTable p first (rounds + 1) = timesTable p first rounds ++
        [(timesTable p first rounds).getD rounds 0 * p] := by
      rw [timesTable, List.range_succ, List.foldl_append]
      rfl
    rw [hstep, ih, List.range_succ (n := rounds + 1), List.map_append, List.map_singleton]
    simp [pow_succ, Nat.mul_assoc]

theorem timesTable_getD {rounds i : ℕ} (h : i ≤ rounds) (first : ℕ) :
    (timesTable p first rounds).getD i 0 = first * p ^ i := by
  rw [timesTable_eq]
  simp [Nat.lt_succ_of_le h]

theorem windFrom_eq (g m rounds k : ℕ) :
    windFrom g m rounds (g ^ k % m) = (List.range' (k + 1) rounds).map fun j => g ^ j % m := by
  induction rounds generalizing k with
  | zero => rfl
  | succ rounds ih =>
    rw [windFrom, Nat.mod_mul_mod, ← pow_succ, ih, List.range'_succ, List.map_cons]

theorem windGForPToE_eq (hp : p.Prime) (hodd : 3 ≤ p) (he : 1 ≤ e) (hlt : g < p ^ e) :
    windGForPToE g p e false = .ok (powers g (p ^ e)) := by
  have horder : (if 1 < e then p ^ (e - 1) * (p - 1) else p - 1) = (p ^ e).totient := by
    rw [Nat.totient_prime_pow hp he]
    split_ifs with h
    · rfl
    · rw [show e - 1 = 0 by omega, pow_zero, one_mul]
  have hone : 1 < p ^ e := Nat.one_lt_pow (by omega) hp.one_lt
  have htwo : 2 ≤ (p ^ e).totient := by
    rw [Nat.totient_prime_pow hp he]
    have hpos : 0 < p ^ (e - 1) := pow_pos hp.pos _
    exact (show 2 ≤ p - 1 by omega).trans (Nat.le_mul_of_pos_left _ hpos)
  obtain ⟨rounds, hrounds⟩ := Nat.exists_eq_add_of_le' htwo
  have hwind := windFrom_eq g (p ^ e) rounds 1
  rw [pow_one, Nat.mod_eq_of_lt hlt] at hwind
  rw [windGForPToE, if_neg (by omega)]
  simp only [horder, Bool.false_eq_true, if_false, mul_one]
  rw [powers, hrounds, Nat.add_sub_cancel, hwind, List.range_eq_range', List.range'_succ,
    List.range'_succ, List.map_cons, List.map_cons, pow_zero, pow_one, Nat.mod_eq_of_lt hlt,
    Nat.mod_eq_of_lt hone]
  rfl

/-- Where a number comes to in the dense sequence. -/
def dense (p x : ℕ) : ℕ := (p - 1) * (x / p) + x % p

/-- The quotient by the highest power of `p` and what it leaves of the lower digits make up the
quotient by `p`. -/
theorem div_eq_add_div_mod (p n x : ℕ) :
    x / p = x / p ^ (n + 2) * p ^ (n + 1) + x % p ^ (n + 2) / p := by
  rw [pow_succ' p (n + 1), Nat.mod_mul_right_div_self, ← Nat.div_div_eq_div_mul, Nat.mul_comm,
    Nat.div_add_mod]

theorem compact_eq {outer inner : List ℕ} (n x adjX remainder : ℕ)
    (houter : ∀ i ≤ n, outer.getD i 0 = p ^ (i + 1))
    (hinner : ∀ i ≤ n, inner.getD i 0 = (p - 1) * p ^ i) :
    compact outer inner (n + 1) x adjX remainder = adjX + dense p x := by
  induction n generalizing x adjX remainder with
  | zero =>
    rw [compact, compact, houter 0 le_rfl, hinner 0 le_rfl, ← Nat.div_eq_sub_mod_div, zero_add,
      pow_one, pow_zero, mul_one, dense, Nat.mul_comm (p - 1), Nat.add_assoc]
  | succ n ih =>
    have hstep := ih (x % p ^ (n + 2)) (adjX + x / p ^ (n + 2) * ((p - 1) * p ^ (n + 1)))
      (x % p ^ (n + 2)) (fun i hi => houter i (by omega)) (fun i hi => hinner i (by omega))
    rw [compact, houter (n + 1) le_rfl, hinner (n + 1) le_rfl, ← Nat.div_eq_sub_mod_div,
      hstep, dense, dense, div_eq_add_div_mod p n x,
      Nat.mod_mod_of_dvd x (dvd_pow_self p (Nat.succ_ne_zero (n + 1)))]
    ring

/-- Every number up to the order comes from one whose last digit is not zero. -/
theorem exists_dense_eq (hp : 2 ≤ p) (he : 1 ≤ e) {n : ℕ} (hn : 1 ≤ n)
    (hle : n ≤ p ^ (e - 1) * (p - 1)) : ∃ x < p ^ e, x % p ≠ 0 ∧ dense p x = n := by
  have hr : (n - 1) % (p - 1) < p - 1 := Nat.mod_lt _ (by omega)
  have hq : (n - 1) / (p - 1) < p ^ (e - 1) := by
    rw [Nat.div_lt_iff_lt_mul (by omega)]
    omega
  have hsum := Nat.div_add_mod (n - 1) (p - 1)
  generalize (n - 1) / (p - 1) = q at hq hsum
  generalize (n - 1) % (p - 1) = r at hr hsum
  obtain ⟨hdiv, hmod, hlt⟩ := digits_of_lt (show r + 1 < p by omega) hq
  rw [← pow_succ', Nat.sub_add_cancel he] at hlt
  refine ⟨p * q + (r + 1), hlt, by omega, ?_⟩
  rw [dense, hdiv, hmod]
  omega

/-- The generator yields every number from one up to the order once. -/
theorem denseWind_perm (hp : p.Prime) (hodd : 3 ≤ p) (he : 1 ≤ e) (hlt : g < p ^ e)
    (hroot : IsPrimitiveRootModulo g (p ^ e)) :
    ∃ numbers, denseWindGForPToE g p e = .ok numbers ∧
      numbers.Perm (List.range' 1 (p ^ (e - 1) * (p - 1))) := by
  have hcompact (x : ℕ) : compact (timesTable p p (e - 1)) (timesTable p (p - 1) (e - 1)) e x 0 0 =
      dense p x := by
    obtain ⟨n, rfl⟩ := Nat.exists_eq_add_of_le' he
    rw [compact_eq n x 0 0, zero_add]
    · intro i hi
      rw [Nat.add_sub_cancel, timesTable_getD hi, pow_succ']
    · intro i hi
      rw [Nat.add_sub_cancel, timesTable_getD hi]
  refine ⟨(powers g (p ^ e)).map (dense p), ?_, ?_⟩
  · rw [denseWindGForPToE, windGForPToE_eq hp hodd he hlt]
    simp only [hcompact]
    rfl
  · symm
    apply List.Subperm.perm_of_length_le
    · apply List.subperm_of_subset (List.nodup_range' 1)
      intro n hn
      rw [List.mem_range'_1] at hn
      obtain ⟨x, hx, hr, hdense⟩ := exists_dense_eq hp.two_le he hn.1 (by omega)
      rw [List.mem_map]
      have hmem : x ∈ powers g (p ^ e) :=
        (IsPrimitiveRootModulo.mem_powers_prime_pow hp he hroot).mpr ⟨hx, hr⟩
      exact ⟨x, hmem, hdense⟩
    · rw [List.length_map, powers, List.length_map, List.length_range, List.length_range',
        Nat.totient_prime_pow hp he]

theorem denseWind_perm_nine : ∃ numbers, denseWindGForPToE 2 3 2 = .ok numbers ∧
    numbers.Perm (List.range' 1 6) := by
  apply denseWind_perm Nat.prime_three le_rfl (by decide) (by decide)
  change orderOf (2 : ZMod 9) = Nat.totient 9
  rw [orderOf_eq_iff (by decide)]
  decide

end RandomArt.FindG
