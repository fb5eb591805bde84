import RandomArt.BigintSqrt
import RandomArt.PrimeGenerator
import Mathlib.Data.List.Nodup

/-!
# The prime factors of a prime less one

Each prime in turn is divided out of what is left of the number, until the next prime is above
the root of what is left. Then what is left is one or a prime.
-/

namespace RandomArt.RandomPrimeField

open Looping

section Dividing

variable {prime n : ℕ}

/-- Dividing out leaves all other primes in, and keeps the limit at the root. -/
theorem returns_divideOut (hprime : prime.Prime) (hn : 0 < n) :
    ∃ result : ℕ × ℕ, Returns (divideOut prime n (Nat.sqrt n)) result ∧
      (0 < result.1 ∧ result.1 ∣ n ∧ result.2 = Nat.sqrt result.1 ∧
        ∀ q, q.Prime → q ≠ prime → q ∣ n → q ∣ result.1) ∧ ¬prime ∣ result.1 := by
  apply exists_returns_loop (fun state : ℕ × ℕ => 0 < state.1 ∧ state.1 ∣ n ∧
    state.2 = Nat.sqrt state.1 ∧ ∀ q, q.Prime → q ≠ prime → q ∣ n → q ∣ state.1) _ Prod.fst ?_
    ⟨hn, dvd_rfl, rfl, fun _ _ _ h => h⟩
  rintro ⟨m, limit⟩ ⟨hpos, hdvd, hlimit, hothers⟩
  dsimp only at hpos hdvd hlimit hothers
  by_cases hzero : m % prime = 0
  · have hprimeDvd : prime ∣ m := Nat.dvd_of_mod_eq_zero hzero
    refine Or.inr ⟨(m / prime, Nat.sqrt (m / prime)), ?_, ⟨?_, ?_, rfl, ?_⟩, ?_⟩
    · simp only [divideRound, hzero, if_true, Nat.sub_zero]
      exact (returns_sqrt _).bind (returns_pure _)
    · exact Nat.div_pos (Nat.le_of_dvd hpos hprimeDvd) hprime.pos
    · exact (Nat.div_dvd_of_dvd hprimeDvd).trans hdvd
    · intro q hq hne hqn
      have hmul : q ∣ prime * (m / prime) := by
        rw [Nat.mul_div_cancel' hprimeDvd]
        exact hothers q hq hne hqn
      refine (hq.dvd_mul.mp hmul).resolve_left fun hqprime => hne ?_
      exact (Nat.prime_dvd_prime_iff_eq hq hprime).mp hqprime
    · exact Nat.div_lt_self hpos hprime.one_lt
  · refine Or.inl ⟨(m, limit), ?_, ⟨hpos, hdvd, hlimit, hothers⟩, fun h => hzero ?_⟩
    · simp only [divideRound, hzero, if_false]
      exact returns_pure _
    · exact Nat.mod_eq_zero_of_dvd h

end Dividing

/-- What has been found when all primes up to `last` have been divided out of `N`. -/
structure Factored (N last : ℕ) (state : Factoring) : Prop where
  pos : 0 < state.n
  dvd : state.n ∣ N
  limit_eq : state.limit = Nat.sqrt state.n
  nodup : state.factors.Nodup
  sound : ∀ q ∈ state.factors, q.Prime ∧ q ∣ N ∧ ¬q ∣ state.n
  complete : ∀ q, q.Prime → q ∣ N → q ∈ state.factors ∨ q ∣ state.n
  above : ∀ q, q.Prime → q ∣ state.n → last < q

@[simp] theorem mem_addFactor {factors : List ℕ} {factor q : ℕ} :
    q ∈ addFactor factors factor ↔ q ∈ factors ∨ q = factor := by
  rw [addFactor]
  split_ifs with hmem
  · refine ⟨Or.inl, fun h => h.elim id ?_⟩
    rintro rfl
    exact hmem
  · rw [List.mem_append, List.mem_singleton]

theorem nodup_addFactor {factors : List ℕ} (h : factors.Nodup) (factor : ℕ) :
    (addFactor factors factor).Nodup := by
  rw [addFactor]
  split_ifs with hmem
  · exact h
  · rw [← List.concat_eq_append]
    exact h.concat hmem

section Round

variable {N last : ℕ} {state : Factoring}

theorem Factored.skip (h : Factored N last state) {prime : ℕ} (primes : PrimeGen)
    (hnext : ∀ r, r.Prime → last < r → prime ≤ r) (hndvd : ¬prime ∣ state.n) :
    Factored N prime { state with primes } where
  pos := h.pos
  dvd := h.dvd
  limit_eq := h.limit_eq
  nodup := h.nodup
  sound := h.sound
  complete := h.complete
  above q hq hdvd := by
    refine lt_of_le_of_ne (hnext q hq (h.above q hq hdvd)) ?_
    rintro rfl
    exact hndvd hdvd

theorem Factored.add (h : Factored N last state) {prime : ℕ} (primes : PrimeGen)
    (hprime : prime.Prime) (hnext : ∀ r, r.Prime → last < r → prime ≤ r)
    (hdvd : prime ∣ state.n) {m : ℕ} (hpos : 0 < m) (hm : m ∣ state.n) (hout : ¬prime ∣ m)
    (hothers : ∀ q, q.Prime → q ≠ prime → q ∣ state.n → q ∣ m) :
    Factored N prime ⟨m, addFactor state.factors prime, Nat.sqrt m, primes⟩ := by
  refine ⟨hpos, hm.trans h.dvd, rfl, nodup_addFactor h.nodup prime, ?_, ?_, ?_⟩
  · intro q hq
    rcases mem_addFactor.mp hq with hold | rfl
    · obtain ⟨hqprime, hqN, hqn⟩ := h.sound q hold
      exact ⟨hqprime, hqN, fun hqm => hqn (hqm.trans hm)⟩
    · exact ⟨hprime, hdvd.trans h.dvd, hout⟩
  · intro q hq hqN
    by_cases hsame : q = prime
    · exact Or.inl (mem_addFactor.mpr (Or.inr hsame))
    · rcases h.complete q hq hqN with hold | hqn
      · exact Or.inl (mem_addFactor.mpr (Or.inl hold))
      · exact Or.inr (hothers q hq hsame hqn)
  · intro q hq hqm
    refine lt_of_le_of_ne (hnext q hq (h.above q hq (hqm.trans hm))) ?_
    rintro rfl
    exact hout hqm

/-- The loop ends with a prime above the root of what is left. -/
theorem exists_returns_factorLoop (hN : 0 < N) (h : Factored N last state)
    (hstands : state.primes.StandsAfter last) :
    ∃ final, Returns (loop factorRound state) final ∧ ∃ last, Factored N last final ∧
      ∀ r, r.Prime → r ∣ final.n → Nat.sqrt final.n < r := by
  apply exists_returns_loop
    (fun state => ∃ last, Factored N last state ∧ state.primes.StandsAfter last) _
    (fun state => N + 1 - state.primes.position) ?_ ⟨last, h, hstands⟩
  rintro state ⟨last, h, hstands⟩
  obtain ⟨⟨prime, primes⟩, hreturns, hprime, hlast, hnext, hstands'⟩ := hstands.exists_next
  dsimp only at hprime hlast hnext hstands'
  by_cases hlimit : state.limit < prime
  · refine Or.inl ⟨{ state with primes }, hreturns.bind ?_, last, ⟨h.pos, h.dvd, h.limit_eq,
      h.nodup, h.sound, h.complete, h.above⟩, fun r hr hdvd => ?_⟩
    · simp only [hlimit, if_true]
      exact returns_pure _
    · rw [← h.limit_eq]
      exact hlimit.trans_le (hnext r hr (h.above r hr hdvd))
  · right
    have hsmaller : N + 1 - primes.position < N + 1 - state.primes.position := by
      have hroot := Nat.sqrt_le_self state.n
      rw [← h.limit_eq] at hroot
      have hdown := hstands.position_le hprime hlast
      have hup := hstands'.lt_position
      have hle := Nat.le_of_dvd hN h.dvd
      omega
    by_cases hzero : state.n % prime = 0
    · obtain ⟨⟨m, limit⟩, hdivide, ⟨hpos, hm, hlimit', hothers⟩, hout⟩ :=
        returns_divideOut hprime h.pos
      rw [← h.limit_eq] at hdivide
      dsimp only at hpos hm hlimit' hothers hout
      subst hlimit'
      refine ⟨⟨m, addFactor state.factors prime, Nat.sqrt m, primes⟩, hreturns.bind ?_,
        ⟨prime, ?_, hstands'⟩, hsmaller⟩
      · simp only [hlimit, if_false, hzero, if_true]
        exact hdivide.bind (returns_pure _)
      · exact h.add primes hprime hnext (Nat.dvd_of_mod_eq_zero hzero) hpos hm hout hothers
    · refine ⟨{ state with primes }, hreturns.bind ?_, ⟨prime, ?_, hstands'⟩, hsmaller⟩
      · simp only [hlimit, if_false, hzero]
        exact returns_pure _
      · exact h.skip primes hnext fun hdvd => hzero (Nat.mod_eq_zero_of_dvd hdvd)

end Round

theorem eq_one_or_prime {n : ℕ} (hn : 0 < n) (h : ∀ r, r.Prime → r ∣ n → Nat.sqrt n < r) :
    n = 1 ∨ n.Prime := by
  by_contra hneither
  obtain ⟨hone, hcomposite⟩ := not_or.mp hneither
  have hfactor := h n.minFac (Nat.minFac_prime hone) n.minFac_dvd
  have hsquare := Nat.minFac_sq_le_self hn hcomposite
  exact absurd hsquare (Nat.not_le.mpr (Nat.sqrt_lt'.mp hfactor))

/-- The factorization ends with the prime divisors of `p - 1`, each once, whether or not `p` is a
prime. -/
theorem factorizePMinusOne_exact {p : ℕ} (hp : 1 < p) :
    ∃ factors, Returns (factorizePMinusOne p) factors ∧ factors.Nodup ∧
      ∀ q, q ∈ factors ↔ q.Prime ∧ q ∣ p - 1 := by
  have hstart : Factored (p - 1) 0 ⟨p - 1, [], Nat.sqrt (p - 1), .start⟩ :=
    ⟨by dsimp only; omega, dvd_rfl, rfl, List.nodup_nil, by simp, fun q _ h => Or.inr h,
      fun q hq _ => hq.pos⟩
  obtain ⟨final, hloop, last, h, hroot⟩ :=
    exists_returns_factorLoop (by omega) hstart (show (0 : ℕ) < 2 by decide)
  refine ⟨_, (returns_sqrt _).bind (hloop.bind (returns_pure _)), ?_⟩
  rcases eq_one_or_prime h.pos hroot with hone | hprime
  · rw [if_neg (by omega)]
    refine ⟨h.nodup, fun q => ⟨fun hq => ⟨(h.sound q hq).1, (h.sound q hq).2.1⟩, ?_⟩⟩
    rintro ⟨hq, hdvd⟩
    refine (h.complete q hq hdvd).resolve_right fun hqn => ?_
    rw [hone] at hqn
    exact hq.one_lt.ne' (Nat.dvd_one.mp hqn)
  · rw [if_pos hprime.one_lt]
    refine ⟨nodup_addFactor h.nodup final.n, fun q => ?_⟩
    rw [mem_addFactor]
    constructor
    · rintro (hq | rfl)
      · exact ⟨(h.sound q hq).1, (h.sound q hq).2.1⟩
      · exact ⟨hprime, h.dvd⟩
    · rintro ⟨hq, hdvd⟩
      rcases h.complete q hq hdvd with hold | hqn
      · exact Or.inl hold
      · exact Or.inr ((Nat.prime_dvd_prime_iff_eq hq hprime).mp hqn)

theorem factorizePMinusOne_exact_nineteen :
    ∃ factors, Returns (factorizePMinusOne 19) factors ∧ factors.Nodup ∧
      ∀ q, q ∈ factors ↔ q.Prime ∧ q ∣ 18 :=
  factorizePMinusOne_exact (by decide)

end RandomArt.RandomPrimeField
