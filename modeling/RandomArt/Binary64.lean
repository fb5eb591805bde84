import Mathlib.Data.Int.Log
import Mathlib.Data.Rat.Floor
import Mathlib.Algebra.Order.Field.Power
import Mathlib.Algebra.Order.Field.Rat
import Mathlib.Tactic.Linarith
import Mathlib.Tactic.Positivity

/-!
# Binary floating point in exact arithmetic

Rationals rounded to doubles, and the shortest decimal that is rounded to a given double. Of the
natural numbers, those below `2 ^ 53` are doubles and are written as they are.
-/

namespace RandomArt.Binary64

section Rounding

/-- The nearest integer, or the even one of two that are as near. -/
def roundEven (r : ℚ) : ℤ :=
  if r - ⌊r⌋ < 1 / 2 then ⌊r⌋
  else if 1 / 2 < r - ⌊r⌋ then ⌊r⌋ + 1
  else if ⌊r⌋ % 2 = 0 then ⌊r⌋
  else ⌊r⌋ + 1

/-- The exponent of the last place of a double as large as the number. -/
def lastPlace (q : ℚ) : ℤ := max (Int.log 2 |q| - 52) (-1074)

/-- The nearest double, where doubles may be arbitrarily large. -/
def nearest (q : ℚ) : ℚ := roundEven (q / 2 ^ lastPlace q) * 2 ^ lastPlace q

/-- The number is rounded to infinity. -/
def Overflows (q : ℚ) : Prop := 2 ^ 1024 ≤ |nearest q|

instance (q : ℚ) : Decidable (Overflows q) := inferInstanceAs (Decidable (_ ≤ _))

theorem le_roundEven {r : ℚ} {k : ℤ} (h : k ≤ r) : k ≤ roundEven r := by
  have hfloor : k ≤ ⌊r⌋ := Int.le_floor.mpr h
  rw [roundEven]
  split_ifs <;> omega

theorem roundEven_le {r : ℚ} {k : ℤ} (h : r ≤ k) : roundEven r ≤ k := by
  have hfloor : ⌊r⌋ ≤ k := by exact_mod_cast (Int.floor_le r).trans h
  rcases hfloor.eq_or_lt with heq | hlt
  · -- There is nothing above the floor.
    have hfraction : r - ⌊r⌋ < 1 / 2 := by
      rw [heq]
      linarith
    rw [roundEven, if_pos hfraction, heq]
  · rw [roundEven]
    split_ifs <;> omega

end Rounding

section Naturals

theorem lastPlace_natCast (n : ℕ) : lastPlace n = Nat.log 2 n - 52 := by
  rw [lastPlace, Nat.abs_cast, Int.log_natCast]
  omega

/-- A number that is a whole multiple of its last place is a double. -/
theorem nearest_of_eq_mul {q : ℚ} {k : ℤ} (h : q = k * 2 ^ lastPlace q) : nearest q = q := by
  have hpow : (2 : ℚ) ^ lastPlace q ≠ 0 := by positivity
  have hquotient : q / 2 ^ lastPlace q = k := (div_eq_iff hpow).mpr h
  rw [nearest, hquotient, le_antisymm (roundEven_le le_rfl) (le_roundEven le_rfl)]
  exact h.symm

theorem nearest_natCast_of_lastPlace {n : ℕ} (h : lastPlace n ≤ 0) : nearest (n : ℚ) = n := by
  obtain ⟨j, hj⟩ := Int.eq_ofNat_of_zero_le (neg_nonneg.mpr h)
  refine nearest_of_eq_mul (k := n * 2 ^ j) ?_
  rw [show lastPlace n = -(j : ℤ) by omega, zpow_neg, zpow_natCast]
  push_cast
  field_simp

theorem nearest_natCast_of_lt {n : ℕ} (h : n < 2 ^ 53) : nearest (n : ℚ) = n := by
  refine nearest_natCast_of_lastPlace ?_
  have hlog : Nat.log 2 n < 53 := Nat.log_lt_of_lt_pow' (by decide) h
  rw [lastPlace_natCast]
  omega

/-- A natural number between two powers of two in its own last place. -/
theorem natCast_div_lastPlace {n : ℕ} (hn : n ≠ 0) :
    2 ^ 52 ≤ (n : ℚ) / 2 ^ lastPlace n ∧ (n : ℚ) / 2 ^ lastPlace n ≤ 2 ^ 53 := by
  have hpow : (0 : ℚ) < 2 ^ lastPlace n := by positivity
  have hlow : (2 : ℚ) ^ Nat.log 2 n ≤ n := by exact_mod_cast Nat.pow_log_le_self 2 hn
  have hhigh : (n : ℚ) < 2 ^ (Nat.log 2 n + 1) := by
    exact_mod_cast Nat.lt_pow_succ_log_self (by decide) n
  have hscale (j : ℕ) (k : ℕ) (h : (j : ℤ) + lastPlace n = k) :
      (2 : ℚ) ^ j * 2 ^ lastPlace n = 2 ^ k := by
    rw [← zpow_natCast, ← zpow_add₀ two_ne_zero, h, zpow_natCast]
  have hplace := lastPlace_natCast n
  rw [le_div_iff₀ hpow, div_le_iff₀ hpow, hscale 52 (Nat.log 2 n) (by push_cast; omega),
    hscale 53 (Nat.log 2 n + 1) (by push_cast; omega)]
  exact ⟨hlow, hhigh.le⟩

theorem le_nearest_natCast {n : ℕ} (h : 2 ^ 53 ≤ n) : 2 ^ 53 ≤ nearest (n : ℚ) := by
  have hn : n ≠ 0 := by omega
  have hplace : 1 ≤ lastPlace n := by
    have hlog : 53 ≤ Nat.log 2 n := Nat.le_log_of_pow_le (by decide) h
    rw [lastPlace_natCast]
    omega
  have hround : (2 ^ 52 : ℤ) ≤ roundEven ((n : ℚ) / 2 ^ lastPlace n) :=
    le_roundEven (by exact_mod_cast (natCast_div_lastPlace hn).1)
  calc (2 : ℚ) ^ 53 = (2 ^ 52 : ℤ) * 2 ^ (1 : ℤ) := by norm_num
    _ ≤ roundEven ((n : ℚ) / 2 ^ lastPlace n) * 2 ^ lastPlace n := by
      gcongr
      norm_num

theorem nearest_natCast_nonneg (n : ℕ) : 0 ≤ nearest (n : ℚ) := by
  have hround : (0 : ℤ) ≤ roundEven ((n : ℚ) / 2 ^ lastPlace n) := le_roundEven (by positivity)
  exact mul_nonneg (by exact_mod_cast hround) (by positivity)

theorem nearest_natCast_le (n : ℕ) : nearest (n : ℚ) ≤ 2 * n := by
  by_cases hn : n = 0
  · rw [nearest_natCast_of_lt (by omega)]
    linarith [Nat.cast_nonneg (α := ℚ) n]
  · have hpow : (0 : ℚ) < 2 ^ lastPlace n := by positivity
    obtain ⟨hlow, hhigh⟩ := natCast_div_lastPlace hn
    have hround : roundEven ((n : ℚ) / 2 ^ lastPlace n) ≤ (2 ^ 53 : ℤ) :=
      roundEven_le (by exact_mod_cast hhigh)
    rw [le_div_iff₀ hpow] at hlow
    calc nearest (n : ℚ) ≤ (2 ^ 53 : ℤ) * 2 ^ lastPlace n := by
          rw [nearest]
          gcongr
      _ = 2 * (2 ^ 52 * 2 ^ lastPlace n) := by
          push_cast
          ring
      _ ≤ 2 * n := by linarith

theorem exists_nearest_natCast (n : ℕ) : ∃ m : ℕ, nearest (n : ℚ) = m := by
  by_cases h : lastPlace n ≤ 0
  · exact ⟨n, nearest_natCast_of_lastPlace h⟩
  · obtain ⟨j, hj⟩ := Int.eq_ofNat_of_zero_le (not_le.mp h).le
    have hround : (0 : ℤ) ≤ roundEven ((n : ℚ) / 2 ^ lastPlace n) := le_roundEven (by positivity)
    obtain ⟨k, hk⟩ := Int.eq_ofNat_of_zero_le hround
    refine ⟨k * 2 ^ j, ?_⟩
    rw [nearest, hk, hj, zpow_natCast]
    push_cast
    rfl

end Naturals

section Shortest

/-- The decimal of at most `k` digits that is nearest to a positive double, of those that are
rounded to it. -/
def decimalAt (x : ℚ) (k : ℕ) : Option ℚ :=
  let unit : ℚ := 10 ^ (Int.log 10 x + 1 - k)
  let digits : List ℤ := [roundEven (x / unit), ⌊x / unit⌋, ⌈x / unit⌉]
  (digits.map fun s : ℤ => s * unit).find? fun decimal => nearest decimal = x

/-- The shortest decimal that is rounded to a positive double. Seventeen digits are enough. -/
def shortest (x : ℚ) : ℚ := ((List.range' 1 17).findSome? (decimalAt x)).getD x

variable {x : ℚ}

theorem shortest_cases (x : ℚ) : shortest x = x ∨ ∃ k, decimalAt x k = some (shortest x) := by
  rw [shortest]
  rcases h : (List.range' 1 17).findSome? (decimalAt x) with _ | decimal
  · exact Or.inl rfl
  · obtain ⟨k, -, hk⟩ := List.exists_of_findSome?_eq_some h
    exact Or.inr ⟨k, hk⟩

/-- The shortest decimal is rounded back to the double. -/
theorem nearest_shortest (hx : nearest x = x) : nearest (shortest x) = x := by
  rcases shortest_cases x with h | ⟨k, hk⟩
  · rw [h, hx]
  · simpa using List.find?_some hk

/-- A decimal next to a natural number is natural. -/
theorem exists_natCast_of_between (n : ℕ) (j : ℤ) {s : ℤ} (hlow : ⌊(n : ℚ) / 10 ^ j⌋ ≤ s)
    (hhigh : s ≤ ⌈(n : ℚ) / 10 ^ j⌉) : ∃ m : ℕ, (s : ℚ) * 10 ^ j = m := by
  have hs : 0 ≤ s := (Int.floor_nonneg.mpr (by positivity)).trans hlow
  obtain ⟨k, rfl⟩ := Int.eq_ofNat_of_zero_le hs
  rcases le_total 0 j with hj | hj
  · obtain ⟨i, rfl⟩ := Int.eq_ofNat_of_zero_le hj
    exact ⟨k * 10 ^ i, by push_cast; rfl⟩
  · -- The unit divides the number, which leaves no room between the floor and the ceiling.
    obtain ⟨i, hi⟩ := Int.eq_ofNat_of_zero_le (neg_nonneg.mpr hj)
    have hquotient : (n : ℚ) / 10 ^ j = ((n * 10 ^ i : ℤ) : ℚ) := by
      rw [show j = -(i : ℤ) by omega, zpow_neg, zpow_natCast]
      push_cast
      field_simp
    rw [hquotient, Int.floor_intCast] at hlow
    rw [hquotient, Int.ceil_intCast] at hhigh
    refine ⟨n, ?_⟩
    rw [le_antisymm hhigh hlow, ← hquotient]
    field_simp

theorem exists_shortest_natCast (n : ℕ) : ∃ m : ℕ, shortest (n : ℚ) = m := by
  rcases shortest_cases (n : ℚ) with h | ⟨k, hk⟩
  · exact ⟨n, h⟩
  · have hmem := List.mem_of_find?_eq_some hk
    obtain ⟨s, hs, hshortest⟩ := List.mem_map.mp hmem
    rw [← hshortest]
    rw [List.mem_cons, List.mem_cons, List.mem_singleton] at hs
    rcases hs with rfl | rfl | rfl
    · exact exists_natCast_of_between n _ (le_roundEven (Int.floor_le _))
        (roundEven_le (Int.le_ceil _))
    · exact exists_natCast_of_between n _ le_rfl (Int.floor_le_ceil _)
    · exact exists_natCast_of_between n _ (Int.floor_le_ceil _) le_rfl

/-- Natural numbers below `2 ^ 53` are their own shortest decimals. -/
theorem shortest_natCast_of_lt {n : ℕ} (h : n < 2 ^ 53) : shortest (n : ℚ) = n := by
  obtain ⟨m, hm⟩ := exists_shortest_natCast n
  have hround : nearest (m : ℚ) = n := hm ▸ nearest_shortest (nearest_natCast_of_lt h)
  have hlt : m < 2 ^ 53 := by
    by_contra hle
    have hlarge := le_nearest_natCast (not_lt.mp hle)
    rw [hround] at hlarge
    exact absurd h (not_lt.mpr (by exact_mod_cast hlarge))
  rw [hm, ← hround, nearest_natCast_of_lt hlt]

example : nearest (2 ^ 53 + 1) = 2 ^ 53 ∧ shortest (2 ^ 63) = 9223372036854776000 := by
  decide +kernel

end Shortest

end RandomArt.Binary64
