import RandomArt.DoubleText
import RandomArt.ShortDecimals

/-!
# Decimals with four places

The text of a number of ten thousandths: its digits after the point are the last four digits of
the number, without the zeros at their end.
-/

namespace RandomArt.JsNumber
open Binary64 DecimalText

/-- The last digits of a number, with zeros in front where it is short. -/
def lastDigits : ℕ → ℕ → List Char
  | 0, _ => []
  | k + 1, n => Nat.digitChar (n / 10 ^ k % 10) :: lastDigits k n

@[simp] theorem length_lastDigits (k n : ℕ) : (lastDigits k n).length = k := by
  induction k with
  | zero => rfl
  | succ k ih => rw [lastDigits, List.length_cons, ih]

theorem lastDigits_zero (k : ℕ) : lastDigits k 0 = List.replicate k '0' := by
  induction k with
  | zero => rfl
  | succ k ih =>
    rw [lastDigits, ih, List.replicate_succ, Nat.zero_div]
    rfl

theorem lastDigits_add_mul (k n m : ℕ) : lastDigits k (n + 10 ^ k * m) = lastDigits k n := by
  induction k generalizing m with
  | zero => rfl
  | succ k ih =>
    have hsplit : n + 10 ^ (k + 1) * m = n + 10 ^ k * (10 * m) := by ring
    rw [lastDigits, lastDigits, hsplit, ih, Nat.add_mul_div_left _ _ (by positivity),
      Nat.add_mul_mod_self_left]

theorem isDigit_of_mem_lastDigits {k n : ℕ} {c : Char} (h : c ∈ lastDigits k n) : c.isDigit := by
  induction k with
  | zero => cases h
  | succ k ih =>
    rw [lastDigits, List.mem_cons] at h
    rcases h with rfl | h
    · rw [Nat.isDigit_digitChar, decide_eq_true_iff]
      exact Nat.mod_lt _ (by decide)
    · exact ih h

theorem value_lastDigits (k n value : ℕ) :
    Nat.ofDigitChars 10 (lastDigits k n) value = 10 ^ k * value + n % 10 ^ k := by
  induction k generalizing value with
  | zero => simp [lastDigits, Nat.mod_one]
  | succ k ih =>
    rw [lastDigits, Nat.ofDigitChars_cons_digitChar_of_lt_ten (Nat.mod_lt _ (by decide)), ih,
      Nat.mod_pow_succ]
    ring

/-- A number of ten thousandths is read back from its digits. -/
theorem unsignedDecimal_lastDigits (m : ℕ) :
    unsignedDecimal (print (m / 10 ^ 4) ++ '.' :: lastDigits 4 (m % 10 ^ 4)) =
      some (m / 10 ^ 4 : ℚ) := by
  obtain ⟨htake, hdrop⟩ := takeWhile_of_forall (p := Char.isDigit)
    (fun c (hc : c ∈ print (m / 10 ^ 4)) => isDigit_of_mem_print hc)
    ('.' :: lastDigits 4 (m % 10 ^ 4)) (by simp)
  obtain ⟨hfraction, hrest⟩ := takeWhile_of_forall (p := Char.isDigit)
    (fun c (hc : c ∈ lastDigits 4 (m % 10 ^ 4)) => isDigit_of_mem_lastDigits hc) [] (by simp)
  rw [List.append_nil] at hfraction hrest
  have hvalue : Nat.ofDigitChars 10 (print (m / 10 ^ 4) ++ lastDigits 4 (m % 10 ^ 4)) 0 = m := by
    rw [Nat.ofDigitChars_append, value_print, value_lastDigits, Nat.mod_mod, Nat.div_add_mod]
  rw [unsignedDecimal]
  simp only [htake, hdrop, fractionPart, hfraction, hrest, hvalue, length_lastDigits]
  rw [if_neg (by simp [print_ne_nil]), exponentPart, Option.map_some, zero_sub, zpow_neg,
    ← div_eq_mul_inv]
  rfl

section Fractions

variable {den : ℕ}

/-- Long division writes the digits of a fraction, and stops when only zeros are left. -/
theorem fractionDigits_append_zeros (k fuel : ℕ) {r : ℕ} (hr : r < den) (hk : den ∣ 10 ^ k * r)
    (hfuel : den ∣ 10 ^ fuel * r) :
    ∃ zeros, fractionDigits den fuel r ++ List.replicate zeros '0' =
      lastDigits k (10 ^ k * r / den) := by
  induction k generalizing fuel r with
  | zero =>
    have hzero : r = 0 := Nat.eq_zero_of_dvd_of_lt (by simpa using hk) hr
    refine ⟨0, ?_⟩
    cases fuel <;> simp [fractionDigits, lastDigits, hzero]
  | succ k ih =>
    by_cases hzero : r = 0
    · refine ⟨k + 1, ?_⟩
      rw [hzero, mul_zero, Nat.zero_div, lastDigits_zero]
      cases fuel <;> simp [fractionDigits]
    · cases fuel with
      | zero => exact absurd (Nat.eq_zero_of_dvd_of_lt (by simpa using hfuel) hr) hzero
      | succ fuel =>
        have hdivision (j : ℕ) :
            10 ^ (j + 1) * r = 10 ^ j * (10 * r % den) + den * (10 ^ j * (10 * r / den)) := by
          calc 10 ^ (j + 1) * r = 10 ^ j * (10 * r) := by ring
            _ = 10 ^ j * (10 * r % den + den * (10 * r / den)) := by rw [Nat.mod_add_div]
            _ = _ := by ring
        have hdvd (j : ℕ) (h : den ∣ 10 ^ (j + 1) * r) : den ∣ 10 ^ j * (10 * r % den) := by
          rw [hdivision] at h
          exact (Nat.dvd_add_left (Nat.dvd_mul_right _ _)).mp h
        have hden : 0 < den := by omega
        have hrest := Nat.mod_lt (10 * r) hden
        have hdigit : 10 * r / den < 10 := (Nat.div_lt_iff_lt_mul hden).mpr (by omega)
        have hquotient : 10 ^ k * (10 * r % den) / den < 10 ^ k :=
          (Nat.div_lt_iff_lt_mul hden).mpr (Nat.mul_lt_mul_of_pos_left hrest (by positivity))
        obtain ⟨zeros, hzeros⟩ := ih fuel hrest (hdvd k hk) (hdvd fuel hfuel)
        refine ⟨zeros, ?_⟩
        rw [fractionDigits, if_neg hzero, List.cons_append, hzeros, hdivision,
          Nat.add_mul_div_left _ _ hden, lastDigits, lastDigits_add_mul,
          Nat.add_mul_div_left _ _ (by positivity), Nat.div_eq_of_lt hquotient, zero_add,
          Nat.mod_eq_of_lt hdigit]

theorem dvd_ten_pow_self (h : den ∣ 10 ^ 4) : den ∣ 10 ^ den := by
  by_cases hden : 4 ≤ den
  · exact h.trans (pow_dvd_pow 10 hden)
  · have : den ≠ 3 := by
      rintro rfl
      exact absurd h (by decide)
    have : den ≠ 0 := by
      rintro rfl
      exact absurd h (by decide)
    obtain rfl | rfl : den = 1 ∨ den = 2 := by omega
    · exact one_dvd _
    · decide

end Fractions

/-- The text of a number of ten thousandths ends where only zeros follow, with no point where all
four places are zeros. -/
theorem positiveText_div {m : ℕ} (hm : m < 10 ^ 21) :
    ∃ zeros, positiveText (m / 10 ^ 4) = print (m / 10 ^ 4) ∧
        lastDigits 4 (m % 10 ^ 4) = List.replicate zeros '0' ∨
      ∃ digits, positiveText (m / 10 ^ 4) = print (m / 10 ^ 4) ++ '.' :: digits ∧
        lastDigits 4 (m % 10 ^ 4) = digits ++ List.replicate zeros '0' := by
  obtain ⟨q, hq⟩ : ∃ q : ℚ, q = m / 10 ^ 4 := ⟨_, rfl⟩
  have hq0 : 0 ≤ q := by
    rw [hq]
    positivity
  obtain ⟨num, hnum⟩ := Int.eq_ofNat_of_zero_le (Rat.num_nonneg.mpr hq0)
  have hcross : num * 10 ^ 4 = m * q.den := by
    have hdiv := Rat.num_div_den q
    rw [hnum, hq, div_eq_div_iff (by positivity) (by positivity), ← hq] at hdiv
    exact_mod_cast hdiv
  have hdvd : q.den ∣ 10 ^ 4 := by
    have hcoprime : Nat.Coprime q.den num := by
      simpa [hnum] using q.reduced.symm
    exact hcoprime.dvd_of_dvd_mul_left ⟨m, by rw [hcross, mul_comm]⟩
  have hwhole : num / q.den = m / 10 ^ 4 := by
    rw [← Nat.mul_div_mul_right num q.den (show 0 < 10 ^ 4 by decide), hcross, mul_comm q.den,
      Nat.mul_div_mul_right _ _ q.pos]
  have hrest : 10 ^ 4 * (num % q.den) = q.den * (m % 10 ^ 4) := by
    rw [mul_comm, ← Nat.mul_mod_mul_right, hcross, mul_comm q.den (10 ^ 4), Nat.mul_mod_mul_right,
      mul_comm]
  rw [← hq, positiveText]
  simp only [hnum, Int.natAbs_natCast]
  split_ifs with hden hsmall
  · refine ⟨4, Or.inl ⟨?_, ?_⟩⟩
    · rw [← hwhole, hden, Nat.div_one, natText, if_pos]
      rw [length_print_le]
      rw [hden, mul_one] at hcross
      omega
    · rw [hden, Nat.mod_one, mul_zero, one_mul] at hrest
      rw [← hrest, lastDigits_zero]
  all_goals
    obtain ⟨zeros, hzeros⟩ := fractionDigits_append_zeros 4 q.den (Nat.mod_lt num q.pos)
      (hdvd.mul_right _) ((dvd_ten_pow_self hdvd).mul_right _)
    rw [hrest, Nat.mul_div_cancel_left _ q.pos] at hzeros
    refine ⟨zeros, Or.inr ⟨fractionDigits q.den q.den (num % q.den), ?_, hzeros.symm⟩⟩
  · -- Four places do not have six zeros.
    have hlength := congrArg List.length hzeros
    have hprefix :=
      (List.takeWhile_prefix (l := fractionDigits q.den q.den (num % q.den)) (· = '0')).length_le
    rw [List.length_append, length_lastDigits] at hlength
    omega
  · rw [hwhole]

end RandomArt.JsNumber
