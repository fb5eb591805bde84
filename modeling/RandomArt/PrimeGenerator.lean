import RandomArt.RandomPrimeField
import Mathlib.Data.Nat.Prime.Basic
import Mathlib.Data.Nat.PrimeFin
import Mathlib.Data.Nat.Nth

/-!
# The generator of primes

The sieve keeps each odd prime found so far at one of its odd multiples, and every smaller multiple
that is still ahead is kept for some other prime. A number that is no key is therefore prime.
-/

namespace RandomArt.RandomPrimeField

open Looping

/-- What the sieve holds when it has come to `q`. -/
structure Sieving (D : ℕ → Option ℕ) (q : ℕ) : Prop where
  odd : q % 2 = 1
  three_le : 3 ≤ q
  entries : ∀ x step, D x = some step →
    ∃ r, step = 2 * r ∧ r.Prime ∧ r < q ∧ r ∣ x ∧ q ≤ x ∧ x % 2 = 1
  covered : ∀ r, r.Prime → r ≠ 2 → r < q → ∃ x, D x = some (2 * r) ∧
    ∀ m, m % 2 = 1 → r ∣ m → r * r ≤ m → q ≤ m → m < x → (D m).isSome = true
  finite : ∃ bound, ∀ x ≥ bound, D x = none

theorem sieving_empty : Sieving (fun _ => none) 3 where
  odd := rfl
  three_le := le_rfl
  entries := by
    intro x step h
    cases h
  covered := by
    intro r hr hne hlt
    have htwo := hr.two_le
    omega
  finite := ⟨0, fun _ _ => rfl⟩

theorem ne_two_of_dvd_odd {r x : ℕ} (hx : x % 2 = 1) (h : r ∣ x) : r ≠ 2 := by
  rintro rfl
  omega

theorem exists_eq_add_of_odd {r q m : ℕ} (hq : q % 2 = 1) (hm : m % 2 = 1) (hrq : r ∣ q)
    (hrm : r ∣ m) (hlt : q < m) : ∃ j, m = q + 2 * r + j * (2 * r) := by
  obtain ⟨a, rfl⟩ := hrq
  obtain ⟨b, rfl⟩ := hrm
  have ha : a % 2 = 1 := Nat.odd_iff.mp (Nat.odd_mul.mp (Nat.odd_iff.mpr hq)).2
  have hb : b % 2 = 1 := Nat.odd_iff.mp (Nat.odd_mul.mp (Nat.odd_iff.mpr hm)).2
  have hab : a < b := lt_of_mul_lt_mul_left hlt (Nat.zero_le r)
  obtain ⟨j, rfl⟩ : ∃ j, b = a + 2 + 2 * j := ⟨(b - a - 2) / 2, by omega⟩
  exact ⟨j, by ring⟩

theorem reached_multiple {r q : ℕ} (hpos : 0 < r) (hq : q % 2 = 1) (hdvd : r ∣ q) (i : ℕ) :
    (q + 2 * r + i * (2 * r)) % 2 = 1 ∧ r ∣ q + 2 * r + i * (2 * r) ∧
      q + 2 ≤ q + 2 * r + i * (2 * r) := by
  have hdvd' : r ∣ 2 * r := Nat.dvd_mul_left r 2
  refine ⟨?_, Nat.dvd_add (Nat.dvd_add hdvd hdvd') (hdvd'.mul_left i), ?_⟩
  · rw [Nat.mul_left_comm]
    omega
  · exact (Nat.add_le_add_left (Nat.le_mul_of_pos_right 2 hpos) q).trans (Nat.le_add_right _ _)

theorem finite_update {D : ℕ → Option ℕ} (hfinite : ∃ bound, ∀ x ≥ bound, D x = none) (key : ℕ)
    (value : Option ℕ) : ∃ bound, ∀ x ≥ bound, Function.update D key value x = none := by
  obtain ⟨bound, hbound⟩ := hfinite
  refine ⟨max bound (key + 1), fun x hx => ?_⟩
  rw [Function.update_apply, if_neg (by omega), hbound x (by omega)]

section Step

variable {D : ℕ → Option ℕ} {q : ℕ} (h : Sieving D q)
include h

theorem Sieving.prime_iff : q.Prime ↔ D q = none := by
  have hthree := h.three_le
  constructor
  · intro hprime
    by_contra hsome
    obtain ⟨step, hstep⟩ := Option.ne_none_iff_exists'.mp hsome
    obtain ⟨r, -, hr, hlt, hdvd, -, -⟩ := h.entries q step hstep
    exact hlt.ne ((Nat.prime_dvd_prime_iff_eq hr hprime).mp hdvd)
  · intro hnone
    by_contra hcomposite
    have hfactor : q.minFac.Prime := Nat.minFac_prime (by omega)
    have hsquare : q.minFac * q.minFac ≤ q := by
      rw [← Nat.pow_two]
      exact Nat.minFac_sq_le_self (by omega) hcomposite
    have hlt : q.minFac < q := (Nat.not_prime_iff_minFac_lt (by omega)).mp hcomposite
    obtain ⟨x, hx, hmultiples⟩ := h.covered q.minFac hfactor
      (ne_two_of_dvd_odd h.odd q.minFac_dvd) hlt
    obtain ⟨-, -, -, -, -, hle, -⟩ := h.entries x _ hx
    rcases hle.lt_or_eq with hahead | rfl
    · have hsome := hmultiples q h.odd q.minFac_dvd hsquare le_rfl hahead
      rw [hnone] at hsome
      cases hsome
    · rw [hnone] at hx
      cases hx

/-- The sieve goes on by two, which passes over no odd prime. -/
theorem Sieving.lt_or_eq {r : ℕ} (hr : r.Prime) (hne : r ≠ 2) (hlt : r < q + 2) :
    r < q ∨ r = q := by
  have hodd := h.odd
  have hrodd := hr.eq_two_or_odd.resolve_left hne
  omega

/-- The sieve after it has found a prime. -/
theorem Sieving.found (hprime : q.Prime) :
    Sieving (Function.update D (q * q) (some (2 * q))) (q + 2) := by
  have hodd := h.odd
  have hthree := h.three_le
  have hnone : D q = none := h.prime_iff.mp hprime
  have hfree : D (q * q) = none := by
    by_contra hsome
    obtain ⟨step, hstep⟩ := Option.ne_none_iff_exists'.mp hsome
    obtain ⟨r, -, hr, hlt, hdvd, -, -⟩ := h.entries _ step hstep
    have hrq := (hr.dvd_mul.mp hdvd).elim id id
    exact hlt.ne ((Nat.prime_dvd_prime_iff_eq hr hprime).mp hrq)
  refine ⟨by omega, by omega, ?_, ?_, ?_⟩
  · intro x step hx
    rw [Function.update_apply] at hx
    split_ifs at hx with hsquare
    · have hstep := Option.some.inj hx
      subst hsquare
      refine ⟨q, hstep.symm, hprime, by omega, Nat.dvd_mul_right q q, by nlinarith, ?_⟩
      rw [Nat.mul_mod, hodd]
    · obtain ⟨r, hstep, hr, hlt, hdvd, hle, hxodd⟩ := h.entries x step hx
      have hne : x ≠ q := by
        rintro rfl
        rw [hnone] at hx
        cases hx
      exact ⟨r, hstep, hr, by omega, hdvd, by omega, hxodd⟩
  · intro r hr hne hlt
    rcases h.lt_or_eq hr hne hlt with hbefore | rfl
    · obtain ⟨x, hx, hmultiples⟩ := h.covered r hr hne hbefore
      refine ⟨x, ?_, fun m hm hdvd hsquare hqm hmx => ?_⟩
      · rw [Function.update_apply, if_neg, hx]
        rintro rfl
        rw [hfree] at hx
        cases hx
      · rw [Function.update_apply]
        split_ifs
        · rfl
        · exact hmultiples m hm hdvd hsquare (by omega) hmx
    · refine ⟨r * r, Function.update_self _ _ _, fun m _ _ hsquare _ hmx => ?_⟩
      omega
  · exact finite_update h.finite _ _

theorem Sieving.isSome_of_passed {r x i m : ℕ} (hdvd : r ∣ q) (hx : x = q + 2 * r + i * (2 * r))
    (hbetween : ∀ j < i, (Function.update D q none (q + 2 * r + j * (2 * r))).isSome = true)
    (hm : m % 2 = 1) (hdvdm : r ∣ m) (hqm : q < m) (hmx : m < x) :
    (Function.update D q none m).isSome = true := by
  obtain ⟨j, hj⟩ := exists_eq_add_of_odd h.odd hm hdvd hdvdm hqm
  have hji : j < i := by
    by_contra hle
    have hmul := Nat.mul_le_mul_right (2 * r) (Nat.le_of_not_lt hle)
    omega
  have hsome := hbetween j hji
  rwa [← hj] at hsome

theorem Sieving.covered_of_ne {r r' x : ℕ} (hr : D q = some (2 * r))
    (hfree : Function.update D q none x = none) (hr' : r'.Prime) (hne : r' ≠ 2) (hlt : r' < q)
    (hother : r' ≠ r) :
    ∃ y, Function.update (Function.update D q none) x (some (2 * r)) y = some (2 * r') ∧
      ∀ m, m % 2 = 1 → r' ∣ m → r' * r' ≤ m → q + 2 ≤ m → m < y →
        (Function.update (Function.update D q none) x (some (2 * r)) m).isSome = true := by
  obtain ⟨y, hy, hmultiples⟩ := h.covered r' hr' hne hlt
  have hyq : y ≠ q := by
    rintro rfl
    rw [hr, Option.some.injEq] at hy
    omega
  have hyx : y ≠ x := by
    rintro rfl
    rw [Function.update_apply, if_neg hyq, hy] at hfree
    cases hfree
  refine ⟨y, ?_, fun m hm hdvdm hsquare hqm hmy => ?_⟩
  · rw [Function.update_apply, if_neg hyx, Function.update_apply, if_neg hyq, hy]
  · rw [Function.update_apply]
    split_ifs
    · rfl
    · rw [Function.update_apply, if_neg (by omega)]
      exact hmultiples m hm hdvdm hsquare (by omega) hmy

/-- The sieve after it has moved the prime whose multiple it has come to. -/
theorem Sieving.struck {r x : ℕ} (hr : D q = some (2 * r))
    (hfree : Function.update D q none x = none)
    (hx : ∃ i, x = q + 2 * r + i * (2 * r) ∧
      ∀ j < i, (Function.update D q none (q + 2 * r + j * (2 * r))).isSome = true) :
    Sieving (Function.update (Function.update D q none) x (some (2 * r))) (q + 2) := by
  have hodd := h.odd
  have hthree := h.three_le
  obtain ⟨r', hrr, hprime, hlt, hdvd, -, -⟩ := h.entries q _ hr
  obtain rfl : r = r' := by omega
  obtain ⟨i, hxi, hbetween⟩ := hx
  have hcomposite : ¬q.Prime := by
    rw [h.prime_iff, hr]
    exact Option.some_ne_none _
  obtain ⟨hxodd, hxdvd, hahead⟩ := reached_multiple hprime.pos hodd hdvd i
  rw [← hxi] at hxodd hxdvd hahead
  refine ⟨by omega, by omega, ?_, ?_, ?_⟩
  · intro y step hy
    rw [Function.update_apply] at hy
    split_ifs at hy with hyx
    · have hstep := Option.some.inj hy
      subst hyx
      exact ⟨r, hstep.symm, hprime, by omega, hxdvd, hahead, hxodd⟩
    · rw [Function.update_apply] at hy
      split_ifs at hy with hyq
      obtain ⟨r', hstep, hr', hlt', hdvd', hle, hyodd⟩ := h.entries y step hy
      exact ⟨r', hstep, hr', by omega, hdvd', by omega, hyodd⟩
  · intro r' hr' hne hlt'
    have hbefore : r' < q := by
      refine (h.lt_or_eq hr' hne hlt').resolve_right ?_
      rintro rfl
      exact hcomposite hr'
    by_cases hsame : r' = r
    · subst hsame
      refine ⟨x, Function.update_self _ _ _, fun m hm hdvdm _ hqm hmx => ?_⟩
      rw [Function.update_apply, if_neg hmx.ne]
      exact h.isSome_of_passed hdvd hxi hbetween hm hdvdm (by omega) hmx
    · exact h.covered_of_ne hr hfree hr' hne hbefore hsame
  · exact finite_update (finite_update h.finite _ _) _ _

end Step

/-- The search for a free multiple ends at the first one. -/
theorem returns_firstFree {D : ℕ → Option ℕ} {p : ℕ} (hp : 0 < p)
    (hfinite : ∃ bound, ∀ x ≥ bound, D x = none) (start : ℕ) :
    ∃ x, Returns (firstFree D p start) x ∧ D x = none ∧
      ∃ i, x = start + i * p ∧ ∀ j < i, (D (start + j * p)).isSome = true := by
  obtain ⟨bound, hbound⟩ := hfinite
  apply exists_returns_loop
    (fun x => ∃ i, x = start + i * p ∧ ∀ j < i, (D (start + j * p)).isSome = true) _
    (fun x => bound - x) ?_ ⟨0, by rw [Nat.zero_mul, Nat.add_zero], by simp⟩
  rintro x ⟨i, rfl, hbetween⟩
  by_cases hsome : (D (start + i * p)).isSome = true
  · right
    have hlt : start + i * p < bound := by
      by_contra hge
      rw [hbound _ (Nat.le_of_not_lt hge)] at hsome
      cases hsome
    refine ⟨start + i * p + p, ?_, ⟨i + 1, by ring, fun j hj => ?_⟩, by omega⟩
    · rw [strikeRound, if_pos hsome]
      exact returns_pure _
    · rcases Nat.lt_succ_iff_lt_or_eq.mp hj with hlt | rfl
      · exact hbetween j hlt
      · exact hsome
  · left
    refine ⟨start + i * p, ?_, Option.not_isSome_iff_eq_none.mp hsome, i, rfl, hbetween⟩
    rw [strikeRound, if_neg hsome]
    exact returns_pure _

/-- The sieve is past `last`, and has passed over no prime above it. -/
def SievingAfter (last : ℕ) : (ℕ → Option ℕ) × ℕ → Prop := fun (D, q) =>
  Sieving D q ∧ last < q ∧ ∀ r, r.Prime → last < r → q ≤ r

/-- The primes that the generator has still to give are those above `last`. -/
def PrimeGen.StandsAfter (last : ℕ) : PrimeGen → Prop
  | .start => last < 2
  | .sieving D q => SievingAfter last (D, q)

def PrimeGen.position : PrimeGen → ℕ
  | .start => 2
  | .sieving _ q => q

theorem PrimeGen.StandsAfter.lt_position {last : ℕ} {primes : PrimeGen}
    (h : primes.StandsAfter last) : last < primes.position := by
  cases primes with
  | start => exact h
  | sieving D q =>
    obtain ⟨-, hlast, -⟩ : SievingAfter last (D, q) := h
    exact hlast

theorem PrimeGen.StandsAfter.position_le {last r : ℕ} {primes : PrimeGen}
    (h : primes.StandsAfter last) (hr : r.Prime) (hlt : last < r) : primes.position ≤ r := by
  cases primes with
  | start => exact hr.two_le
  | sieving D q =>
    obtain ⟨-, -, hahead⟩ : SievingAfter last (D, q) := h
    exact hahead r hr hlt

/-- The generator gives the next prime, and then stands after it. -/
theorem PrimeGen.StandsAfter.exists_next {last : ℕ} {primes : PrimeGen}
    (h : primes.StandsAfter last) :
    ∃ result : ℕ × PrimeGen, Returns primes.next result ∧ result.1.Prime ∧ last < result.1 ∧
      (∀ r, r.Prime → last < r → result.1 ≤ r) ∧ result.2.StandsAfter result.1 := by
  cases primes with
  | start =>
    refine ⟨(2, .sieving (fun _ => none) 3), returns_pure _, Nat.prime_two, h,
      fun r hr _ => hr.two_le, sieving_empty, by decide, fun r hr hlt => hlt⟩
  | sieving D q =>
    obtain ⟨bound, hbound, hprime⟩ := Nat.exists_infinite_primes (last + 1)
    have hafter : SievingAfter last (D, q) := h
    apply exists_returns_loop (SievingAfter last) _ (fun state => bound - state.2) ?_ hafter
    rintro ⟨D, q⟩ ⟨hsieving, hlast, hahead⟩
    have hodd := hsieving.odd
    have hthree := hsieving.three_le
    have hskip : ∀ r, r.Prime → q < r → q + 2 ≤ r := by
      intro r hr hlt
      have hrodd := hr.eq_two_or_odd.resolve_left (by omega)
      omega
    cases hq : D q with
    | none =>
      have hfound : q.Prime := hsieving.prime_iff.mpr hq
      refine Or.inl ⟨(q, .sieving (Function.update D (q * q) (some (2 * q))) (q + 2)), ?_, hfound,
        hlast, hahead, hsieving.found hfound, by dsimp only; omega, hskip⟩
      simp only [sieveRound, hq]
      exact returns_pure _
    | some step =>
      obtain ⟨r, rfl, hr, -, -, -, -⟩ := hsieving.entries q step hq
      have hcomposite : ¬q.Prime := by
        rw [hsieving.prime_iff, hq]
        exact Option.some_ne_none _
      have hnext : ∀ r, r.Prime → last < r → q + 2 ≤ r := by
        intro r hr hlt
        refine hskip r hr (lt_of_le_of_ne (hahead r hr hlt) ?_)
        rintro rfl
        exact hcomposite hr
      obtain ⟨x, hreturns, hfree, hx⟩ := returns_firstFree (Nat.mul_pos two_pos hr.pos)
        (finite_update hsieving.finite q none) (q + 2 * r)
      refine Or.inr ⟨(Function.update (Function.update D q none) x (some (2 * r)), q + 2), ?_,
        ⟨hsieving.struck hq hfree hx, by omega, hnext⟩, ?_⟩
      · simp only [sieveRound, hq]
        exact hreturns.bind (returns_pure _)
      · have hle := hnext bound hprime (by omega)
        omega

theorem nth_count_eq {last prime : ℕ} (hprime : prime.Prime) (hlast : last < prime)
    (hnext : ∀ r, r.Prime → last < r → prime ≤ r) :
    Nat.nth Nat.Prime (Nat.count Nat.Prime (last + 1)) = prime := by
  have hleast : IsLeast {r | r.Prime ∧ last + 1 ≤ r} prime :=
    ⟨⟨hprime, hlast⟩, fun r hr => hnext r hr.1 hr.2⟩
  rw [Nat.nth_count_eq_sInf, hleast.csInf_eq]

theorem PrimeGen.StandsAfter.returns_take {last : ℕ} {primes : PrimeGen}
    (h : primes.StandsAfter last) (count : ℕ) :
    Returns (take count primes)
      ((List.range' (Nat.count Nat.Prime (last + 1)) count).map (Nat.nth Nat.Prime)) := by
  induction count generalizing last primes with
  | zero => exact returns_pure []
  | succ count ih =>
    obtain ⟨⟨prime, primes'⟩, hreturns, hprime, hlast, hnext, hstands⟩ := h.exists_next
    have hnth := nth_count_eq hprime hlast hnext
    have hcount : Nat.count Nat.Prime (prime + 1) = Nat.count Nat.Prime (last + 1) + 1 := by
      have hbefore := Nat.count_nth_of_infinite Nat.infinite_setOfPred_prime
        (Nat.count Nat.Prime (last + 1))
      rw [hnth] at hbefore
      rw [Nat.count_succ, if_pos hprime, hbefore]
    have hrest := ih hstands
    rw [hcount] at hrest
    rw [List.range'_succ, List.map_cons, hnth]
    exact hreturns.bind (hrest.bind (returns_pure _))

/-- The generator gives the primes in order, each once. -/
theorem primeGen_exact (k : ℕ) :
    Returns (PrimeGen.take k .start) ((List.range k).map (Nat.nth Nat.Prime)) := by
  have hstart : PrimeGen.StandsAfter 0 .start := two_pos
  have htake := hstart.returns_take k
  rwa [zero_add, Nat.count_succ, Nat.count_zero, if_neg Nat.not_prime_zero, add_zero,
    ← List.range_eq_range'] at htake

end RandomArt.RandomPrimeField
