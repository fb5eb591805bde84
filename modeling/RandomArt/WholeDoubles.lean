import RandomArt.DoubleRounding
import Mathlib.Algebra.Order.Floor.Div
import Mathlib.Data.Int.Basic
import Mathlib.Tactic.FieldSimp

/-!
# Whole numbers as doubles

Whole numbers up to `2 ^ 53` are doubles, and of those above it only even ones are. The quotient of
two numbers up to there is rounded so well that it may be rounded up afterwards.
-/

namespace RandomArt.Binary64

/-- A whole number as a double, which is whole again. -/
def wholeDouble (n : ℤ) : ℤ := ⌊nearest n⌋

section Whole

variable {m n : ℤ}

theorem nearest_intCast_of_le (h : |n| ≤ 2 ^ 53) : nearest n = n := by
  rcases h.lt_or_eq with hlt | heq
  · exact nearest_intCast hlt
  · have hpow : nearest (2 ^ 53) = 2 ^ 53 := by decide +kernel
    rw [abs_eq (by decide)] at heq
    rcases heq with rfl | rfl
    · exact_mod_cast hpow
    · exact_mod_cast (nearest_neg _).trans (congrArg Neg.neg hpow)

theorem nearest_natCast_of_le {k : ℕ} (h : k ≤ 2 ^ 53) : nearest (k : ℚ) = k := by
  have habs : |(k : ℤ)| ≤ 2 ^ 53 := by
    rw [Nat.abs_cast]
    exact_mod_cast h
  exact_mod_cast nearest_intCast_of_le habs

theorem coe_wholeDouble (n : ℤ) : (wholeDouble n : ℚ) = nearest n := by
  obtain ⟨m, hm⟩ : ∃ m : ℤ, nearest n = m := by
    obtain ⟨k, rfl | rfl⟩ := n.eq_nat_or_neg
    · obtain ⟨m, hm⟩ := exists_nearest_natCast k
      exact ⟨m, by exact_mod_cast hm⟩
    · obtain ⟨m, hm⟩ := exists_nearest_natCast k
      exact ⟨-m, by push_cast; rw [nearest_neg, hm]⟩
  rw [wholeDouble, hm, Int.floor_intCast]

theorem wholeDouble_of_le (h : |n| ≤ 2 ^ 53) : wholeDouble n = n := by
  exact_mod_cast (coe_wholeDouble n).trans (nearest_intCast_of_le h)

theorem le_wholeDouble (hm : nearest m = m) (h : m ≤ n) : m ≤ wholeDouble n := by
  have hle : (m : ℚ) ≤ nearest n := le_nearest hm (by exact_mod_cast h)
  rw [← coe_wholeDouble] at hle
  exact_mod_cast hle

theorem wholeDouble_le (hm : nearest m = m) (h : n ≤ m) : wholeDouble n ≤ m := by
  have hle : nearest (n : ℚ) ≤ m := nearest_le hm (by exact_mod_cast h)
  rw [← coe_wholeDouble] at hle
  exact_mod_cast hle

/-- Above `2 ^ 53` the last place of a whole number is even. -/
theorem even_wholeDouble (h : 2 ^ 53 ≤ wholeDouble n) : 2 ∣ wholeDouble n := by
  have hn : 2 ^ 53 ≤ n := by
    by_contra hlt
    have hbelow := wholeDouble_le (m := 2 ^ 53 - 1) (nearest_intCast_of_le (by decide)) (n := n)
      (by omega)
    omega
  obtain ⟨k, rfl⟩ := Int.eq_ofNat_of_zero_le (show 0 ≤ n by omega)
  have hlog : 53 ≤ Nat.log 2 k := Nat.le_log_of_pow_le (by decide) (by omega)
  have hplace : lastPlace ((k : ℤ) : ℚ) = 1 + (Nat.log 2 k - 53 : ℕ) := by
    rw [Int.cast_natCast, lastPlace_natCast]
    omega
  have hvalue := coe_wholeDouble (k : ℤ)
  rw [nearest, hplace, zpow_add₀ two_ne_zero, zpow_natCast, zpow_one] at hvalue
  refine ⟨roundEven (((k : ℤ) : ℚ) / (2 * 2 ^ (Nat.log 2 k - 53))) * 2 ^ (Nat.log 2 k - 53), ?_⟩
  have hcast : ((wholeDouble k : ℤ) : ℚ) =
      (2 * (roundEven (((k : ℤ) : ℚ) / (2 * 2 ^ (Nat.log 2 k - 53))) *
        2 ^ (Nat.log 2 k - 53)) : ℤ) := by
    rw [hvalue]
    push_cast
    ring
  exact_mod_cast hcast

end Whole

section Quotient

variable {n c : ℕ}

/-- What a quotient that is no whole number has above a whole number is not rounded away. -/
theorem lt_nearest_div {j : ℕ} (hn : n ≤ 2 ^ 53) (hc : 0 < c) (hc' : c ≤ 2 ^ 53)
    (hdvd : ¬c ∣ n) (hj : c * j < n) : (j : ℚ) < nearest ((n : ℚ) / c) := by
  have hcpos : (0 : ℚ) < c := by exact_mod_cast hc
  have hjle : j ≤ 2 ^ 53 := (Nat.le_mul_of_pos_left j hc).trans (hj.le.trans hn)
  have hdouble := nearest_natCast_of_le hjle
  have hlow : (j : ℚ) ≤ n / c := by
    rw [le_div_iff₀ hcpos, mul_comm]
    exact_mod_cast hj.le
  refine lt_of_le_of_ne (le_nearest hdouble hlow) fun heq => ?_
  have hleast : (2 : ℚ) ^ (-53 : ℤ) ≤ n / c := by
    rw [le_div_iff₀ hcpos, zpow_neg, inv_mul_le_iff₀ (by positivity)]
    have hone : (1 : ℚ) ≤ n := by exact_mod_cast (Nat.zero_le _).trans_lt hj
    have hmost : (c : ℚ) ≤ 2 ^ (53 : ℤ) := by exact_mod_cast hc'
    nlinarith
  have hpos : (0 : ℚ) < n / c := lt_of_lt_of_le (by positivity) hleast
  have hlog : -53 ≤ Int.log 2 ((n : ℚ) / c) :=
    (Int.zpow_le_iff_le_log (by decide) hpos).mp (by exact_mod_cast hleast)
  have hplace : lastPlace ((n : ℚ) / c) = Int.log 2 ((n : ℚ) / c) - 52 := by
    rw [lastPlace, abs_of_pos hpos]
    omega
  have hpow : (2 : ℚ) ^ Int.log 2 ((n : ℚ) / c) * c ≤ n := by
    rw [← le_div_iff₀ hcpos]
    exact_mod_cast Int.zpow_log_le_self (b := 2) (by decide) hpos
  have herror := abs_nearest_sub_le ((n : ℚ) / c)
  rw [← heq, hplace, zpow_sub₀ two_ne_zero, abs_sub_comm, abs_of_nonneg (sub_nonneg.mpr hlow),
    sub_le_iff_le_add, div_le_iff₀ hcpos] at herror
  generalize Int.log 2 ((n : ℚ) / c) = l at hpow herror
  have hstep : (c : ℚ) * j + 1 ≤ n := by exact_mod_cast hj
  have hmost : (n : ℚ) ≤ 2 ^ 53 := by exact_mod_cast hn
  have hhalf : ((2 : ℚ) ^ l / 2 ^ (52 : ℤ) / 2 + j) * c = 2 ^ l * c / 2 ^ 53 + c * j := by
    norm_num
    ring
  have hunit : (2 : ℚ) ^ 53 ≤ 2 ^ l * c := by
    rw [← one_le_div (by positivity)]
    linarith
  have hexact : (2 : ℚ) ^ l * c = n := by linarith
  rcases le_or_gt 0 l with hl | hl
  · obtain ⟨i, rfl⟩ := Int.eq_ofNat_of_zero_le hl
    exact hdvd ⟨2 ^ i, by rw [mul_comm]; exact_mod_cast hexact.symm⟩
  · have hlt : (2 : ℚ) ^ l < 1 := zpow_lt_one_of_neg₀ one_lt_two hl
    have hc'' : (c : ℚ) ≤ 2 ^ 53 := by exact_mod_cast hc'
    nlinarith

/-- Rounding up a rounded quotient is rounding up the quotient. -/
theorem ceil_nearest_div (hn : n ≤ 2 ^ 53) (hc : 0 < c) (hc' : c ≤ 2 ^ 53) :
    ⌈nearest ((n : ℚ) / c)⌉ = ((n ⌈/⌉ c : ℕ) : ℤ) := by
  have hcpos : (0 : ℚ) < c := by exact_mod_cast hc
  have hcover : n ≤ c * (n ⌈/⌉ c) := (ceilDiv_le_iff_le_mul hc).mp le_rfl
  have hleast : n ⌈/⌉ c ≤ n := (ceilDiv_le_iff_le_mul hc).mpr (Nat.le_mul_of_pos_left n hc)
  have hdouble := nearest_natCast_of_le (hleast.trans hn)
  by_cases hdvd : c ∣ n
  · have hquotient : (n : ℚ) / c = (n ⌈/⌉ c : ℕ) := by
      obtain ⟨i, rfl⟩ := hdvd
      rw [show (c * i) ⌈/⌉ c = i from smul_ceilDiv hc i, Nat.cast_mul,
        mul_div_cancel_left₀ _ hcpos.ne']
    rw [hquotient, hdouble, Int.ceil_natCast]
  · have hhigh : (n : ℚ) / c ≤ (n ⌈/⌉ c : ℕ) := by
      rw [div_le_iff₀ hcpos, mul_comm]
      exact_mod_cast hcover
    rw [Int.ceil_eq_iff]
    refine ⟨?_, by exact_mod_cast nearest_le hdouble hhigh⟩
    obtain ⟨j, hj⟩ : ∃ j, n ⌈/⌉ c = j + 1 := by
      refine Nat.exists_eq_succ_of_ne_zero fun hzero => hdvd ?_
      rw [hzero, Nat.mul_zero, Nat.le_zero] at hcover
      exact hcover ▸ dvd_zero c
    have hbelow : c * j < n := by
      rw [← not_le, ← ceilDiv_le_iff_le_mul hc, hj, not_le]
      exact Nat.lt_succ_self j
    have hlow := lt_nearest_div hn hc hc' hdvd hbelow
    rw [hj]
    push_cast
    linarith

end Quotient

end RandomArt.Binary64
