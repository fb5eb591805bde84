import RandomArt.DenseWind
import Mathlib.Algebra.Order.Ring.Pow
import Mathlib.Data.Finset.Card
import Mathlib.FieldTheory.Finite.Basic
import Mathlib.RingTheory.ZMod.UnitsCyclic

/-!
# Searching for primitive roots

A number is tried by walking through its powers until one repeats. The search keeps the numbers
whose walk is as long as the totient; the two tests look at the sequence of the powers instead,
one for a repeated number, the other only for a one that comes back.
-/

namespace RandomArt.FindG

open Looping ModularPowers

section Search

def cycleRound (g m : ℕ) :
    ℕ × Finset ℕ → Looping (Round (ℕ × Finset ℕ) (Finset ℕ)) :=
  fun (x, v) => pure (if x ∉ v then .next (x * g % m, insert x v) else .done v)

/-- The powers of `g` up to the first that repeats. -/
def cycle (g m : ℕ) : Looping (Finset ℕ) := loop (cycleRound g m) (1, ∅)

/-- `retval` with those of the numbers after it whose cycle has the given length. -/
def appendGenerators (m length : ℕ) (retval iis : List ℕ) : Looping (List ℕ) :=
  iis.foldlM (fun retval ii => do
    let v ← cycle ii m
    return if v.card = length then retval ++ [ii] else retval) retval

/-- `range(start, stop, -1)` -/
def rangeDown (start stop : ℕ) : List ℕ := (List.range' (stop + 1) (start - stop)).reverse

def findGForP (p e : ℕ) : Except String (Looping (List ℕ)) :=
  if p ≤ 2 then throw "exceptions must derive from BaseException"
  else
    let pm1 := (p - 1) * p ^ (e - 1)
    let pe := p ^ e
    return appendGenerators pe pm1 [] (rangeDown (pe - 1) 0)

def findGForPE (p e : ℕ) : Except String (Looping (List ℕ)) :=
  if p ≤ 2 then throw "exceptions must derive from BaseException"
  else return do
    let pm1 := p - 1
    let retval ← appendGenerators p pm1 [] (rangeDown pm1 0)
    let pe := p ^ e
    let pem1 := pe - 1
    let pm1pem1 := p ^ (e - 1) * (p - 1)
    let candidates := (rangeDown pem1 (p + 1)).filter fun ii => retval.all (ii.gcd · = 1)
    appendGenerators pe pm1pem1 retval candidates

end Search

section Tests

/-- Stop at the first number that was there before. -/
def firstRepeat : List ℕ → Finset ℕ → Bool × Finset ℕ
  | [], v => (true, v)
  | x :: xs, v => if x ∈ v then (false, v) else firstRepeat xs (insert x v)

def testGForPTestPrimality (g p e : ℕ) : Except String (Bool × Finset ℕ) := do
  return firstRepeat (← windGForPToE g p e false) ∅

/-- Stop at the first number up to `z`, which the one at the start lowers to one. -/
def firstReturn (p : ℕ) : List ℕ → ℕ → Except String Bool
  | [], _ => .ok true
  | x :: xs, z =>
    if x ≤ z then
      if z = p then
        if x ≠ 1 then .error "exceptions must derive from BaseException"
        else firstReturn p xs 1
      else .ok false
    else firstReturn p xs z

/-- The set comes only with a success. -/
def testGForPTrustPrimality (g p e : ℕ) : Except String (Bool × Option (Finset ℕ)) := do
  if ← firstReturn p (← windGForPToE g p e false) p then
    return (true, some ((Finset.range (p ^ e)).filter fun ii => 1 ≤ ii ∧ ii % p ≠ 0))
  else return (false, none)

def testGForP (g p : ℕ) (trustPrime : Bool) : Except String (Bool × Option (Finset ℕ)) :=
  if p ≤ 2 then throw "exceptions must derive from BaseException"
  else if trustPrime then testGForPTrustPrimality g p 1
  else (testGForPTestPrimality g p 1).map fun (good, v) => (good, some v)

end Tests

section Cycle

variable {g m : ℕ}

/-- At the start of a round, as many powers as numbers have been seen, all of them different. -/
structure Seen (g m x : ℕ) (v : Finset ℕ) : Prop where
  power : x = g ^ v.card % m
  seen : v = (Finset.range v.card).image fun j => g ^ j % m

theorem Seen.start (hm : 1 < m) : Seen g m 1 ∅ :=
  ⟨by simp [Nat.mod_eq_of_lt hm], by simp⟩

theorem Seen.next {x : ℕ} {v : Finset ℕ} (h : Seen g m x v) (hx : x ∉ v) :
    Seen g m (x * g % m) (insert x v) := by
  have hcard : (insert x v).card = v.card + 1 := Finset.card_insert_of_notMem hx
  constructor
  · rw [hcard, pow_succ, h.power, Nat.mod_mul_mod]
  · rw [hcard, Finset.range_add_one, Finset.image_insert, ← h.power, ← h.seen]

theorem Seen.mem_iff {x y : ℕ} {v : Finset ℕ} (h : Seen g m x v) :
    y ∈ v ↔ ∃ j < v.card, g ^ j % m = y := by
  conv_lhs => rw [h.seen]
  simp

theorem Seen.complete {x : ℕ} {v : Finset ℕ} (h : Seen g m x v) (hx : x ∈ v) (j : ℕ) :
    g ^ j % m ∈ v := by
  induction j with
  | zero => exact h.mem_iff.mpr ⟨0, Finset.card_pos.mpr ⟨x, hx⟩, rfl⟩
  | succ j ih =>
    obtain ⟨i, hi, hpow⟩ := h.mem_iff.mp ih
    have hsucc : g ^ (j + 1) % m = g ^ (i + 1) % m := by
      rw [pow_succ, pow_succ, ← Nat.mod_mul_mod, ← hpow, Nat.mod_mul_mod]
    rw [hsucc]
    rcases Nat.lt_or_eq_of_le (Nat.succ_le_of_lt hi) with hlt | heq
    · exact h.mem_iff.mpr ⟨i + 1, hlt, rfl⟩
    · rw [Nat.succ_eq_add_one] at heq
      rwa [heq, ← h.power]

theorem Seen.card_lt {x : ℕ} {v : Finset ℕ} (h : Seen g m x v) (hm : 1 < m) (hx : x ∉ v) :
    v.card < m := by
  have hsub : insert x v ⊆ Finset.range m := by
    intro y hy
    obtain ⟨j, -, rfl⟩ := (h.next hx).mem_iff.mp hy
    exact Finset.mem_range.mpr (Nat.mod_lt _ (Nat.zero_lt_of_lt hm))
  have hcard := Finset.card_le_card hsub
  rwa [Finset.card_range, Finset.card_insert_of_notMem hx] at hcard

/-- The walk ends and has gone through all powers. -/
theorem cycle_returns (g : ℕ) (hm : 1 < m) :
    ∃ v, Returns (cycle g m) v ∧ ∀ y, y ∈ v ↔ ∃ j, g ^ j % m = y := by
  apply exists_returns_loop (fun state => Seen g m state.1 state.2) _
    (fun state => m - state.2.card) ?_ (Seen.start hm)
  intro (x, v) hseen
  by_cases hx : x ∈ v
  · refine Or.inl ⟨v, ?_, fun y => ⟨?_, ?_⟩⟩
    · rw [cycleRound, if_neg (not_not.mpr hx)]
      exact returns_pure _
    · intro hy
      obtain ⟨j, -, hj⟩ := hseen.mem_iff.mp hy
      exact ⟨j, hj⟩
    · rintro ⟨j, rfl⟩
      exact hseen.complete hx j
  · refine Or.inr ⟨(x * g % m, insert x v), ?_, hseen.next hx, ?_⟩
    · rw [cycleRound, if_pos hx]
      exact returns_pure _
    · have hlt := hseen.card_lt hm hx
      rw [Finset.card_insert_of_notMem hx]
      exact Nat.sub_lt_sub_left hlt (Nat.lt_succ_self _)

end Cycle

section PrimePower

variable {g p e : ℕ}

theorem succ_lt_totient (hp : p.Prime) (hodd : 3 ≤ p) (he : 2 ≤ e) :
    e + 1 < (p ^ e).totient := by
  obtain ⟨n, rfl⟩ := Nat.exists_eq_add_of_le' he
  have hbernoulli : 1 + (n + 1) * 2 ≤ 3 ^ (n + 1) := by
    have h : 1 + ((n + 1 : ℕ) : ℤ) * 2 ≤ (1 + 2) ^ (n + 1) :=
      one_add_mul_le_pow (by norm_num) (n + 1)
    norm_num at h
    exact_mod_cast h
  have hpow : 3 ^ (n + 1) ≤ p ^ (n + 1) := Nat.pow_le_pow_left hodd _
  rw [Nat.totient_prime_pow hp (by omega)]
  calc n + 2 + 1 < (1 + (n + 1) * 2) * 2 := by omega
    _ ≤ p ^ (n + 1) * (p - 1) := Nat.mul_le_mul (hbernoulli.trans hpow) (by omega)

theorem pow_mod_eq_zero_of_dvd (hdvd : p ∣ g) {j : ℕ} (hj : e ≤ j) : g ^ j % p ^ e = 0 :=
  Nat.mod_eq_zero_of_dvd ((pow_dvd_pow_of_dvd hdvd e).trans (pow_dvd_pow g hj))

theorem two_le_of_dvd (hdvd : p ∣ g) (hpos : 0 < g) (hlt : g < p ^ e) : 2 ≤ e := by
  have hle := Nat.le_of_dvd hpos hdvd
  by_contra! h
  have hppos : 0 < p := Nat.pos_of_dvd_of_pos hdvd hpos
  have hsmall : p ^ e ≤ p ^ 1 := Nat.pow_le_pow_right hppos (by omega)
  rw [pow_one] at hsmall
  omega

theorem orderOf_pos_of_coprime {m : ℕ} (hm : 1 < m) (h : g.Coprime m) :
    0 < orderOf (g : ZMod m) := by
  have hne : NeZero m := ⟨by omega⟩
  rw [← ZMod.coe_unitOfCoprime g h, orderOf_units]
  exact orderOf_pos _

/-- The powers are as many as the totient for the primitive roots only. -/
theorem card_powers_iff (hp : p.Prime) (hodd : 3 ≤ p) (he : 1 ≤ e) (hpos : 0 < g)
    (hlt : g < p ^ e) {v : Finset ℕ} (hv : ∀ y, y ∈ v ↔ ∃ j, g ^ j % p ^ e = y) :
    v.card = (p ^ e).totient ↔ IsPrimitiveRootModulo g (p ^ e) := by
  have hone : 1 < p ^ e := Nat.one_lt_pow (by omega) hp.one_lt
  by_cases hdvd : p ∣ g
  · have hsub : v ⊆ (Finset.range (e + 1)).image fun j => g ^ j % p ^ e := by
      intro y hy
      obtain ⟨j, rfl⟩ := (hv y).mp hy
      rcases Nat.lt_or_ge j e with hj | hj
      · exact Finset.mem_image_of_mem _ (Finset.mem_range.mpr (Nat.lt_succ_of_lt hj))
      · rw [pow_mod_eq_zero_of_dvd hdvd hj, ← pow_mod_eq_zero_of_dvd hdvd le_rfl]
        exact Finset.mem_image_of_mem _ (Finset.mem_range.mpr (Nat.lt_succ_self e))
    have hcard := (Finset.card_le_card hsub).trans Finset.card_image_le
    rw [Finset.card_range] at hcard
    have hlarge := succ_lt_totient hp hodd (two_le_of_dvd hdvd hpos hlt)
    refine iff_of_false (by omega) fun hroot => ?_
    have hcoprime := hroot.coprime (Nat.zero_lt_of_lt hone)
    exact hp.one_lt.ne' (Nat.Coprime.eq_one_of_dvd
      (Nat.coprime_comm.mp ((Nat.coprime_pow_right_iff he g p).mp hcoprime)) hdvd)
  · have hcoprime : g.Coprime (p ^ e) :=
      ((hp.coprime_iff_not_dvd.mpr hdvd).symm).pow_right e
    have horder := orderOf_pos_of_coprime hone hcoprime
    have hperiod : v =
        (Finset.range (orderOf (g : ZMod (p ^ e)))).image fun j => g ^ j % p ^ e := by
      ext y
      rw [hv, Finset.mem_image]
      constructor
      · rintro ⟨j, rfl⟩
        refine ⟨j % orderOf (g : ZMod (p ^ e)), Finset.mem_range.mpr (Nat.mod_lt _ horder), ?_⟩
        rw [pow_mod_eq_pow_mod_iff, pow_mod_orderOf]
      · rintro ⟨j, -, rfl⟩
        exact ⟨j, rfl⟩
    rw [hperiod, Finset.card_image_of_injOn, Finset.card_range, IsPrimitiveRootModulo]
    intro i hi j hj hij
    rw [Finset.coe_range, Set.mem_Iio] at hi hj
    exact eq_of_pow_mod_eq 0 hi hj (by rwa [zero_add, zero_add])

/-- What is no primitive root comes to zero or one and repeats there before the totient. -/
theorem exists_repeat (hp : p.Prime) (hodd : 3 ≤ p) (he : 1 ≤ e) (hpos : 0 < g)
    (hlt : g < p ^ e) (hroot : ¬IsPrimitiveRootModulo g (p ^ e)) :
    ∃ i k, i < k ∧ k < (p ^ e).totient ∧ g ^ i % p ^ e = g ^ k % p ^ e ∧ g ^ k % p ^ e ≤ 1 := by
  have hone : 1 < p ^ e := Nat.one_lt_pow (by omega) hp.one_lt
  by_cases hdvd : p ∣ g
  · refine ⟨e, e + 1, Nat.lt_succ_self e, ?_, ?_, ?_⟩
    · exact succ_lt_totient hp hodd (two_le_of_dvd hdvd hpos hlt)
    · rw [pow_mod_eq_zero_of_dvd hdvd le_rfl, pow_mod_eq_zero_of_dvd hdvd e.le_succ]
    · exact (pow_mod_eq_zero_of_dvd hdvd e.le_succ).le.trans zero_le_one
  · have hcoprime : g.Coprime (p ^ e) := ((hp.coprime_iff_not_dvd.mpr hdvd).symm).pow_right e
    have horder := orderOf_pos_of_coprime hone hcoprime
    have hle : orderOf (g : ZMod (p ^ e)) ∣ (p ^ e).totient := by
      rw [orderOf_dvd_iff_pow_eq_one, ← ZMod.coe_unitOfCoprime g hcoprime,
        ← Units.val_pow_eq_pow_val, ZMod.pow_totient, Units.val_one]
    have htotient : 0 < (p ^ e).totient := Nat.totient_pos.mpr (by omega)
    have hback : g ^ orderOf (g : ZMod (p ^ e)) % p ^ e = 1 :=
      (pow_mod_eq_one_iff hone).mpr dvd_rfl
    refine ⟨0, _, horder, (Nat.le_of_dvd htotient hle).lt_of_ne hroot, ?_, hback.le⟩
    rw [hback, pow_zero, Nat.mod_eq_of_lt hone]

theorem nodup_powers_iff (hp : p.Prime) (hodd : 3 ≤ p) (he : 1 ≤ e) (hpos : 0 < g)
    (hlt : g < p ^ e) : (powers g (p ^ e)).Nodup ↔ IsPrimitiveRootModulo g (p ^ e) := by
  constructor
  · intro hnodup
    by_contra hroot
    obtain ⟨i, k, hik, hk, hsame, -⟩ := exists_repeat hp hodd he hpos hlt hroot
    have hinj := List.inj_on_of_nodup_map hnodup
    exact hik.ne (hinj (List.mem_range.mpr (hik.trans hk)) (List.mem_range.mpr hk) hsame)
  · exact fun hroot => hroot.nodup_powers

/-- After the one at the start, the powers of the primitive roots only stay above one. -/
theorem one_lt_powers_iff (hp : p.Prime) (hodd : 3 ≤ p) (he : 1 ≤ e) (hpos : 0 < g)
    (hlt : g < p ^ e) :
    (∀ k, 0 < k → k < (p ^ e).totient → 1 < g ^ k % p ^ e) ↔
      IsPrimitiveRootModulo g (p ^ e) := by
  have hone : 1 < p ^ e := Nat.one_lt_pow (by omega) hp.one_lt
  constructor
  · intro hlarge
    by_contra hroot
    obtain ⟨i, k, hik, hk, -, hsmall⟩ := exists_repeat hp hodd he hpos hlt hroot
    exact absurd (hlarge k (Nat.zero_lt_of_lt hik) hk) (not_lt.mpr hsmall)
  · intro hroot k hpos' hk
    have hne : g ^ k % p ^ e ≠ 1 := by
      rw [Ne, pow_mod_eq_one_iff hone, hroot]
      exact Nat.not_dvd_of_pos_of_lt hpos' hk
    have hcoprime := coprime_mod_iff.mpr ((hroot.coprime (by omega)).pow_left k)
    have hnonzero : g ^ k % p ^ e ≠ 0 := by
      intro hzero
      rw [hzero, Nat.coprime_zero_left] at hcoprime
      omega
    exact lt_of_le_of_ne (Nat.one_le_iff_ne_zero.mpr hnonzero) hne.symm

end PrimePower

section Found

variable {p e : ℕ}

theorem mem_rangeDown {start stop x : ℕ} : x ∈ rangeDown start stop ↔ stop < x ∧ x ≤ start := by
  rw [rangeDown, List.mem_reverse, List.mem_range'_1]
  omega

theorem pairwise_rangeDown (start stop : ℕ) : (rangeDown start stop).Pairwise (· > ·) := by
  rw [rangeDown, List.pairwise_reverse]
  exact List.pairwise_lt_range'

theorem appendGenerators_returns (hp : p.Prime) (hodd : 3 ≤ p) (he : 1 ≤ e) {iis : List ℕ}
    (hiis : ∀ ii ∈ iis, 0 < ii ∧ ii < p ^ e) (retval : List ℕ) :
    ∃ found, Returns (appendGenerators (p ^ e) (p ^ e).totient retval iis) (retval ++ found) ∧
      found.Sublist iis ∧ ∀ g, g ∈ found ↔ g ∈ iis ∧ IsPrimitiveRootModulo g (p ^ e) := by
  induction iis generalizing retval with
  | nil =>
    refine ⟨[], ?_, List.Sublist.refl _, by simp⟩
    rw [List.append_nil]
    exact returns_pure _
  | cons ii iis ih =>
    obtain ⟨hpos, hlt⟩ := hiis ii List.mem_cons_self
    obtain ⟨v, hcycle, hv⟩ := cycle_returns ii (Nat.one_lt_pow (by omega : e ≠ 0) hp.one_lt)
    have hcard := card_powers_iff hp hodd he hpos hlt hv
    let retval' := if v.card = (p ^ e).totient then retval ++ [ii] else retval
    obtain ⟨found, hreturns, hsub, hfound⟩ :=
      ih (fun ii hii => hiis ii (List.mem_cons_of_mem _ hii)) retval'
    have hsearch : Returns (appendGenerators (p ^ e) (p ^ e).totient retval (ii :: iis))
        (retval' ++ found) := by
      rw [appendGenerators, List.foldlM_cons]
      have htry : Returns (do
          let v ← cycle ii (p ^ e)
          return if v.card = (p ^ e).totient then retval ++ [ii] else retval) retval' :=
        hcycle.bind (returns_pure _)
      exact htry.bind hreturns
    by_cases hroot : v.card = (p ^ e).totient
    · refine ⟨ii :: found, ?_, hsub.cons_cons ii, ?_⟩
      · simpa [retval', hroot] using hsearch
      · intro g
        rw [List.mem_cons, List.mem_cons, hfound]
        grind
    · refine ⟨found, ?_, hsub.cons ii, ?_⟩
      · simpa [retval', hroot] using hsearch
      · intro g
        rw [hfound, List.mem_cons]
        grind

/-- The primitive roots are as many as the generators of the units. -/
theorem length_of_mem_iff (hp : p.Prime) (hodd : 3 ≤ p) {found : List ℕ} (hnodup : found.Nodup)
    (hfound : ∀ g, g ∈ found ↔ g < p ^ e ∧ IsPrimitiveRootModulo g (p ^ e)) :
    found.length = (p ^ e).totient.totient := by
  have hpos : 0 < p ^ e := pow_pos hp.pos e
  have hne : NeZero (p ^ e) := ⟨by omega⟩
  have hcyclic := ZMod.isCyclic_units_of_prime_pow p hp (by omega) e
  have himage : found.toFinset =
      (Finset.univ.filter fun u : (ZMod (p ^ e))ˣ => orderOf u = (p ^ e).totient).image
        fun u : (ZMod (p ^ e))ˣ => (u : ZMod (p ^ e)).val := by
    ext g
    rw [List.mem_toFinset, hfound, Finset.mem_image]
    constructor
    · rintro ⟨hlt, hroot⟩
      refine ⟨ZMod.unitOfCoprime g (hroot.coprime hpos), ?_, ?_⟩
      · rw [Finset.mem_filter, ← orderOf_units, ZMod.coe_unitOfCoprime]
        exact ⟨Finset.mem_univ _, hroot⟩
      · rw [ZMod.coe_unitOfCoprime, ZMod.val_natCast_of_lt hlt]
    · rintro ⟨u, hu, rfl⟩
      refine ⟨ZMod.val_lt _, ?_⟩
      rw [IsPrimitiveRootModulo, ZMod.natCast_zmod_val, orderOf_units]
      exact (Finset.mem_filter.mp hu).2
  have hcard : Fintype.card (ZMod (p ^ e))ˣ = (p ^ e).totient := ZMod.card_units_eq_totient _
  rw [← List.toFinset_card_of_nodup hnodup, himage, Finset.card_image_of_injOn]
  · exact IsCyclic.card_orderOf_eq_totient (dvd_of_eq hcard.symm)
  · exact fun _ _ _ _ h => Units.ext (ZMod.val_injective _ h)

/-- Trying all numbers below the power of the prime finds its primitive roots. -/
theorem exists_search (hp : p.Prime) (hodd : 3 ≤ p) (he : 1 ≤ e) :
    ∃ found, Returns (appendGenerators (p ^ e) (p ^ e).totient [] (rangeDown (p ^ e - 1) 0))
        found ∧ found.Pairwise (· > ·) ∧
      ∀ g, g ∈ found ↔ g < p ^ e ∧ IsPrimitiveRootModulo g (p ^ e) := by
  have hone : 1 < p ^ e := Nat.one_lt_pow (by omega) hp.one_lt
  have hiis : ∀ ii ∈ rangeDown (p ^ e - 1) 0, 0 < ii ∧ ii < p ^ e := by
    intro ii hii
    rw [mem_rangeDown] at hii
    omega
  obtain ⟨found, hreturns, hsub, hfound⟩ := appendGenerators_returns hp hodd he hiis []
  refine ⟨found, hreturns, (pairwise_rangeDown _ _).sublist hsub, fun g => ?_⟩
  rw [hfound, mem_rangeDown, Nat.le_sub_one_iff_lt (by omega), and_assoc]
  refine and_iff_right_of_imp fun ⟨_, hroot⟩ => ?_
  apply Nat.pos_of_ne_zero
  rintro rfl
  have hcoprime := hroot.coprime (Nat.zero_lt_of_lt hone)
  rw [Nat.coprime_zero_left] at hcoprime
  omega

/-- The search returns the primitive roots below the power of the prime, the largest first. -/
theorem findGForP_complete (hp : p.Prime) (hodd : 3 ≤ p) (he : 1 ≤ e) :
    ∃ search found, findGForP p e = .ok search ∧ Returns search found ∧
      found.Pairwise (· > ·) ∧ found.length = (p ^ e).totient.totient ∧
      ∀ g, g ∈ found ↔ g < p ^ e ∧ IsPrimitiveRootModulo g (p ^ e) := by
  obtain ⟨found, hreturns, hsorted, hfound⟩ := exists_search hp hodd he
  have hsearch : findGForP p e =
      .ok (appendGenerators (p ^ e) (p ^ e).totient [] (rangeDown (p ^ e - 1) 0)) := by
    rw [findGForP, if_neg (by omega), Nat.totient_prime_pow hp he, Nat.mul_comm]
    rfl
  refine ⟨_, found, hsearch, hreturns, hsorted, ?_, hfound⟩
  exact length_of_mem_iff hp hodd (hsorted.imp fun h => Nat.ne_of_gt h) hfound

theorem findGForP_complete_nine :
    ∃ search found, findGForP 3 2 = .ok search ∧ Returns search found ∧
      found.Pairwise (· > ·) ∧ found.length = (3 ^ 2).totient.totient ∧
      ∀ g, g ∈ found ↔ g < 3 ^ 2 ∧ IsPrimitiveRootModulo g (3 ^ 2) :=
  findGForP_complete Nat.prime_three le_rfl one_le_two

/-- The quicker search returns the primitive roots of the prime, and above them of those of its
power all that are coprime to each of these. -/
theorem findGForPE_exact (hp : p.Prime) (hodd : 3 ≤ p) (he : 1 ≤ e) :
    ∃ search roots further, findGForPE p e = .ok search ∧ Returns search (roots ++ further) ∧
      roots.Pairwise (· > ·) ∧ further.Pairwise (· > ·) ∧
      (∀ g, g ∈ roots ↔ g < p ∧ IsPrimitiveRootModulo g p) ∧
      ∀ g, g ∈ further ↔ p + 1 < g ∧ g < p ^ e ∧ (∀ root ∈ roots, g.gcd root = 1) ∧
        IsPrimitiveRootModulo g (p ^ e) := by
  have hone : 1 < p ^ e := Nat.one_lt_pow (by omega) hp.one_lt
  obtain ⟨roots, hroots, hsorted, hmem⟩ := exists_search hp hodd le_rfl
  rw [pow_one, Nat.totient_prime hp] at hroots
  have hiis : ∀ ii ∈ (rangeDown (p ^ e - 1) (p + 1)).filter fun ii => roots.all (ii.gcd · = 1),
      0 < ii ∧ ii < p ^ e := by
    intro ii hii
    have hrange := mem_rangeDown.mp (List.mem_filter.mp hii).1
    omega
  obtain ⟨further, hreturns, hsub, hfurther⟩ := appendGenerators_returns hp hodd he hiis roots
  rw [Nat.totient_prime_pow hp he] at hreturns
  have hsearch : findGForPE p e = .ok (do
      let retval ← appendGenerators p (p - 1) [] (rangeDown (p - 1) 0)
      appendGenerators (p ^ e) (p ^ (e - 1) * (p - 1)) retval
        ((rangeDown (p ^ e - 1) (p + 1)).filter fun ii => retval.all (ii.gcd · = 1))) := by
    rw [findGForPE, if_neg (by omega)]
    rfl
  refine ⟨_, roots, further, hsearch, hroots.bind hreturns, hsorted, ?_, ?_, fun g => ?_⟩
  · exact (pairwise_rangeDown _ _).sublist (hsub.trans List.filter_sublist)
  · simpa using hmem
  · rw [hfurther, List.mem_filter, mem_rangeDown, Nat.le_sub_one_iff_lt (by omega)]
    simp only [List.all_eq_true, decide_eq_true_eq, and_assoc]

theorem findGForPE_exact_nine :
    ∃ search roots further, findGForPE 3 2 = .ok search ∧ Returns search (roots ++ further) ∧
      roots.Pairwise (· > ·) ∧ further.Pairwise (· > ·) ∧
      (∀ g, g ∈ roots ↔ g < 3 ∧ IsPrimitiveRootModulo g 3) ∧
      ∀ g, g ∈ further ↔ 3 + 1 < g ∧ g < 3 ^ 2 ∧ (∀ root ∈ roots, g.gcd root = 1) ∧
        IsPrimitiveRootModulo g (3 ^ 2) :=
  findGForPE_exact Nat.prime_three le_rfl one_le_two

end Found

section Tested

variable {g p e : ℕ}

theorem firstRepeat_eq (xs : List ℕ) (v : Finset ℕ) :
    ((firstRepeat xs v).1 = true ↔ xs.Nodup ∧ ∀ x ∈ xs, x ∉ v) ∧
      ((firstRepeat xs v).1 = true → (firstRepeat xs v).2 = v ∪ xs.toFinset) := by
  induction xs generalizing v with
  | nil => simp [firstRepeat]
  | cons x xs ih =>
    rw [firstRepeat]
    by_cases hx : x ∈ v
    · simp [hx]
    · rw [if_neg hx]
      obtain ⟨hiff, hset⟩ := ih (insert x v)
      constructor
      · rw [hiff, List.nodup_cons]
        simp only [Finset.mem_insert, not_or, List.mem_cons, forall_eq_or_imp]
        grind
      · intro hgood
        rw [hset hgood]
        ext y
        simp only [Finset.mem_union, Finset.mem_insert, List.mem_toFinset, List.mem_cons]
        tauto

theorem firstReturn_eq (hp : 1 < p) (xs : List ℕ) :
    firstReturn p xs 1 = .ok (decide (∀ x ∈ xs, 1 < x)) := by
  induction xs with
  | nil => simp [firstReturn]
  | cons x xs ih =>
    rw [firstReturn]
    by_cases hx : x ≤ 1
    · rw [if_pos hx, if_neg hp.ne]
      simp [not_lt.mpr hx]
    · rw [if_neg hx, ih]
      simp [not_le.mp hx]

theorem powers_cons {m : ℕ} (hm : 1 < m) : powers g m =
    1 :: (List.range' 1 (m.totient - 1)).map fun k => g ^ k % m := by
  obtain ⟨n, hn⟩ := Nat.exists_eq_add_of_le' (Nat.totient_pos.mpr (Nat.zero_lt_of_lt hm))
  rw [powers, hn, List.range_eq_range', List.range'_succ, List.map_cons, pow_zero,
    Nat.mod_eq_of_lt hm]
  rfl

theorem testGForPTestPrimality_eq (hp : p.Prime) (hodd : 3 ≤ p) (he : 1 ≤ e) (hlt : g < p ^ e) :
    testGForPTestPrimality g p e = .ok (firstRepeat (powers g (p ^ e)) ∅) := by
  rw [testGForPTestPrimality, windGForPToE_eq hp hodd he hlt]
  rfl

theorem testGForPTrustPrimality_eq (hp : p.Prime) (hodd : 3 ≤ p) (he : 1 ≤ e) (hpos : 0 < g)
    (hlt : g < p ^ e) {good : Bool} (hgood : good = true ↔ IsPrimitiveRootModulo g (p ^ e)) :
    testGForPTrustPrimality g p e = .ok (good, if good then
      some ((Finset.range (p ^ e)).filter fun ii => 1 ≤ ii ∧ ii % p ≠ 0) else none) := by
  have hone : 1 < p ^ e := Nat.one_lt_pow (by omega) hp.one_lt
  have hreturn : firstReturn p (powers g (p ^ e)) p = .ok good := by
    rw [powers_cons hone, firstReturn, if_pos hp.one_lt.le, if_pos rfl, if_neg (by simp),
      firstReturn_eq hp.one_lt]
    congr 1
    rw [Bool.eq_iff_iff, hgood, decide_eq_true_eq, ← one_lt_powers_iff hp hodd he hpos hlt]
    constructor
    · intro hlarge k hk hlt
      exact hlarge _ (List.mem_map_of_mem (List.mem_range'_1.mpr (by omega)))
    · intro hlarge x hx
      obtain ⟨k, hk, rfl⟩ := List.mem_map.mp hx
      rw [List.mem_range'_1] at hk
      exact hlarge k hk.1 (by omega)
  rw [testGForPTrustPrimality, windGForPToE_eq hp hodd he hlt]
  change (firstReturn p (powers g (p ^ e)) p >>= _) = _
  rw [hreturn]
  cases good <;> rfl

/-- For the prime itself one of the two tests is used. -/
theorem testGForP_eq (hodd : 3 ≤ p) {tested : Bool × Finset ℕ} {trusted : Bool × Option (Finset ℕ)}
    (htested : testGForPTestPrimality g p 1 = .ok tested)
    (htrusted : testGForPTrustPrimality g p 1 = .ok trusted) (trustPrime : Bool) :
    testGForP g p trustPrime = .ok (if trustPrime then trusted else (tested.1, some tested.2)) := by
  rw [testGForP, if_neg (by omega), htested, htrusted]
  cases trustPrime <;> rfl

/-- Both tests succeed for the primitive roots only, with the same numbers. -/
theorem tests_agree (hp : p.Prime) (hodd : 3 ≤ p) (he : 1 ≤ e) (hpos : 0 < g)
    (hlt : g < p ^ e) :
    ∃ tested trusted, testGForPTestPrimality g p e = .ok tested ∧
      testGForPTrustPrimality g p e = .ok trusted ∧
      (tested.1 = true ↔ IsPrimitiveRootModulo g (p ^ e)) ∧ trusted.1 = tested.1 ∧
      (tested.1 = true → trusted.2 = some tested.2) ∧
      (e = 1 → ∀ trustPrime, testGForP g p trustPrime =
        .ok (if trustPrime then trusted else (tested.1, some tested.2))) := by
  obtain ⟨hgood, hset⟩ := firstRepeat_eq (powers g (p ^ e)) ∅
  have hroot : (firstRepeat (powers g (p ^ e)) ∅).1 = true ↔ IsPrimitiveRootModulo g (p ^ e) := by
    rw [hgood, ← nodup_powers_iff hp hodd he hpos hlt]
    simp
  have htested := testGForPTestPrimality_eq hp hodd he hlt
  have htrusted := testGForPTrustPrimality_eq hp hodd he hpos hlt hroot
  refine ⟨_, _, htested, htrusted, hroot, rfl, fun htrue => ?_, fun hone => ?_⟩
  · rw [if_pos htrue, hset htrue, Finset.empty_union]
    refine congrArg some (Finset.ext fun x => ?_)
    rw [List.mem_toFinset, IsPrimitiveRootModulo.mem_powers_prime_pow hp he (hroot.mp htrue),
      Finset.mem_filter, Finset.mem_range]
    refine and_congr_right fun _ => and_iff_right_of_imp fun hx => ?_
    apply Nat.one_le_iff_ne_zero.mpr
    rintro rfl
    exact hx (Nat.zero_mod p)
  · subst hone
    exact testGForP_eq hodd htested htrusted

/-- The powers of two modulo nine, and modulo five. -/
theorem tests_agree_nine_and_five :
    (∃ tested trusted, testGForPTestPrimality 2 3 2 = .ok tested ∧
      testGForPTrustPrimality 2 3 2 = .ok trusted ∧
      (tested.1 = true ↔ IsPrimitiveRootModulo 2 (3 ^ 2)) ∧ trusted.1 = tested.1 ∧
      (tested.1 = true → trusted.2 = some tested.2)) ∧
    ∃ tested trusted, testGForPTestPrimality 2 5 1 = .ok tested ∧
      testGForPTrustPrimality 2 5 1 = .ok trusted ∧
      ∀ trustPrime, testGForP 2 5 trustPrime =
        .ok (if trustPrime then trusted else (tested.1, some tested.2)) := by
  constructor
  · obtain ⟨tested, trusted, htested, htrusted, hroot, hsame, hset, -⟩ :=
      tests_agree (g := 2) Nat.prime_three le_rfl one_le_two two_pos (by decide)
    exact ⟨tested, trusted, htested, htrusted, hroot, hsame, hset⟩
  · obtain ⟨tested, trusted, htested, htrusted, -, -, -, hprime⟩ :=
      tests_agree (g := 2) Nat.prime_five (by decide) le_rfl two_pos (by decide)
    exact ⟨tested, trusted, htested, htrusted, hprime rfl⟩

end Tested

end RandomArt.FindG
