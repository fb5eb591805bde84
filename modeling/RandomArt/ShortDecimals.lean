import RandomArt.DoubleRounding

/-!
# Short decimals survive rounding

A decimal with few enough digits is the shortest one that is rounded to its double: another
decimal of the same unit is rounded to another double, and the search meets it on the way.
-/

namespace RandomArt.Binary64

theorem lastPlace_pow_lt {q unit : ℚ} (hunit : (2 : ℚ) ^ (-1074 : ℤ) < unit) (hpos : 0 < q)
    (h : q < 2 ^ 52 * unit) : (2 : ℚ) ^ lastPlace q < unit := by
  rcases max_choice (Int.log 2 |q| - 52) (-1074) with hmax | hmax
  · rw [lastPlace, hmax, abs_of_pos hpos, zpow_sub₀ two_ne_zero]
    have hlog : (2 : ℚ) ^ Int.log 2 q ≤ q := by
      exact_mod_cast Int.zpow_log_le_self (b := 2) (by decide) hpos
    rw [div_lt_iff₀ (by positivity)]
    norm_num at h ⊢
    linarith
  · rwa [lastPlace, hmax]

section Short

variable {unit : ℚ}

/-- Two multiples of a unit that is not too small are not rounded to the same double. -/
theorem eq_of_nearest_eq (hunit : (2 : ℚ) ^ (-1074 : ℤ) < unit) {p q : ℚ} {i j : ℤ}
    (hi : p = i * unit) (hj : q = j * unit) (hp : 0 < p) (hq : 0 < q) (hpsmall : p < 2 ^ 52 * unit)
    (hqsmall : q < 2 ^ 52 * unit) (h : nearest p = nearest q) : p = q := by
  have hunit0 : 0 < unit := lt_trans (by positivity) hunit
  have hperror := (abs_le.mp (abs_nearest_sub_le p))
  have hqerror := (abs_le.mp (abs_nearest_sub_le q))
  have hpplace := lastPlace_pow_lt hunit hp hpsmall
  have hqplace := lastPlace_pow_lt hunit hq hqsmall
  have hclose : |(i : ℚ) - j| < 1 := by
    have hdiff : |(i - j) * unit| < unit := by
      rw [sub_mul, ← hi, ← hj, abs_lt]
      constructor <;> linarith
    rwa [abs_mul, abs_of_pos hunit0, mul_lt_iff_lt_one_left hunit0] at hdiff
  have hij : |i - j| < 1 := by exact_mod_cast hclose
  rw [hi, hj, sub_eq_zero.mp (Int.abs_lt_one_iff.mp hij)]

theorem of_decimalAt {x decimal : ℚ} {k : ℕ} (h : decimalAt x k = some decimal) :
    nearest decimal = x ∧ ∃ s : ℤ, decimal = s * 10 ^ (Int.log 10 x + 1 - k) := by
  refine ⟨by simpa using List.find?_some h, ?_⟩
  obtain ⟨s, -, hs⟩ := List.mem_map.mp (List.mem_of_find?_eq_some h)
  exact ⟨s, hs.symm⟩

/-- A search that finds the right value in time, and no other value before, finds it. -/
theorem findSome?_eq_of_first {α β : Type} {f : α → Option β} {xs : List α} {b : β} {x : α}
    {before after : List α} (hxs : xs = before ++ x :: after) (hx : f x = some b)
    (hbefore : ∀ y ∈ before, ∀ b', f y = some b' → b' = b) : xs.findSome? f = some b := by
  subst hxs
  induction before with
  | nil => simp [hx]
  | cons y ys ih =>
    rw [List.cons_append, List.findSome?_cons]
    rcases hy : f y with _ | b'
    · exact ih fun z hz => hbefore z (List.mem_cons_of_mem y hz)
    · rw [hbefore y List.mem_cons_self b' hy]

theorem pos_of_nearest_pos {q : ℚ} (h : 0 < nearest q) : 0 < q := by
  by_contra hq
  exact absurd (nearest_le nearest_zero (not_lt.mp hq)) (not_le.mpr h)

theorem range'_split {count i : ℕ} (h : i < count) :
    List.range' 1 count = List.range' 1 i ++ (i + 1) :: List.range' (i + 2) (count - i - 1) := by
  obtain ⟨rest, rfl⟩ := Nat.exists_eq_add_of_lt h
  rw [show i + rest + 1 = i + (rest + 1) by omega, ← List.range'_append_1, List.range'_succ]
  congr 2
  · omega
  · congr 1 <;> omega

/-- A decimal of at most fifteen digits or so is the shortest one for its double. -/
theorem shortest_nearest_decimal {k places bits : ℕ} (hk : 0 < k)
    (hbits : 2 ^ (bits + 1) * 10 ^ (places + 1) ≤ 2 ^ 52) (hbound : k ≤ 2 ^ bits * 10 ^ places) :
    shortest (nearest (k / 10 ^ places)) = k / 10 ^ places := by
  -- All decimals in question are multiples of a tenth of the last decimal place.
  obtain ⟨unit, hunit⟩ : ∃ unit : ℚ, unit = 10 ^ (-(places + 1 : ℕ) : ℤ) := ⟨_, rfl⟩
  have hinv : unit * 10 ^ (places + 1) = 1 := by
    rw [hunit, ← zpow_natCast, ← zpow_add₀ (by norm_num)]
    simp
  have hunit0 : 0 < unit := by
    rw [hunit]
    positivity
  have hlarge : (2 : ℚ) ^ (bits + 1) ≤ 2 ^ 52 * unit := by
    have hcast : (2 : ℚ) ^ (bits + 1) * 10 ^ (places + 1) ≤ 2 ^ 52 := by exact_mod_cast hbits
    calc (2 : ℚ) ^ (bits + 1) = 2 ^ (bits + 1) * 10 ^ (places + 1) * unit := by
          rw [mul_assoc, mul_comm _ unit, hinv, mul_one]
      _ ≤ 2 ^ 52 * unit := by gcongr
  have hbits52 : bits + 1 ≤ 52 := by
    refine (Nat.pow_le_pow_iff_right (a := 2) (by decide)).mp (le_trans ?_ hbits)
    exact Nat.le_mul_of_pos_right _ (by positivity)
  have hfine : (2 : ℚ) ^ (-1074 : ℤ) < unit := by
    have htwo : (2 : ℚ) ≤ 2 ^ (bits + 1) := by
      calc (2 : ℚ) = 2 ^ 1 := (pow_one 2).symm
        _ ≤ 2 ^ (bits + 1) := pow_le_pow_right₀ one_le_two (by omega)
    have hsmall : (2 : ℚ) ^ (-1074 : ℤ) < 2 ^ (-52 : ℤ) :=
      zpow_lt_zpow_right₀ one_lt_two (by norm_num)
    have hcancel : (2 : ℚ) ^ (-52 : ℤ) * 2 ^ 52 = 1 := by norm_num
    calc (2 : ℚ) ^ (-1074 : ℤ) < 2 ^ (-52 : ℤ) := hsmall
      _ ≤ 2 ^ (-52 : ℤ) * (2 ^ 52 * unit) :=
        le_mul_of_one_le_right (by positivity) (by linarith)
      _ = unit := by rw [← mul_assoc, hcancel, one_mul]
  obtain ⟨v, hv⟩ : ∃ v : ℚ, v = k / 10 ^ places := ⟨_, rfl⟩
  have hvunit : v = (10 * k : ℤ) * unit := by
    rw [hv, div_eq_iff (by positivity)]
    push_cast
    calc (k : ℚ) = k * (unit * 10 ^ (places + 1)) := by rw [hinv, mul_one]
      _ = 10 * k * unit * 10 ^ places := by ring
  have hvlow : 10 * unit ≤ v := by
    have hk1 : (1 : ℚ) ≤ k := by exact_mod_cast hk
    rw [hvunit]
    push_cast
    nlinarith
  have hvhigh : v ≤ (2 ^ bits : ℕ) := by
    rw [hv, div_le_iff₀ (by positivity)]
    exact_mod_cast hbound
  have hdouble (i : ℕ) (hi : i ≤ 52) : nearest ((2 ^ i : ℕ) : ℚ) = (2 ^ i : ℕ) :=
    nearest_natCast_of_lt (Nat.pow_lt_pow_right (by decide) (by omega))
  have hpows : ((2 ^ bits : ℕ) : ℚ) < 2 ^ (bits + 1) := by
    push_cast
    exact pow_lt_pow_right₀ one_lt_two (by omega)
  have hvsmall : v < 2 ^ 52 * unit := by linarith
  rw [← hv]
  -- The double lies within half a unit of the decimal.
  obtain ⟨x, hx⟩ : ∃ x : ℚ, x = nearest v := ⟨_, rfl⟩
  have herror : |x - v| < unit / 2 := by
    have hplace := lastPlace_pow_lt hfine (by linarith) hvsmall
    have := abs_nearest_sub_le v
    rw [hx]
    linarith
  obtain ⟨hxlow, hxhigh⟩ := abs_lt.mp herror
  have hx0 : 0 < x := by linarith
  have hxle : x ≤ (2 ^ bits : ℕ) := hx ▸ nearest_le (hdouble bits (by omega)) hvhigh
  have hlow : -(places + 1 : ℕ) ≤ Int.log 10 x := by
    refine (Int.zpow_le_iff_le_log (b := 10) (by decide) hx0).mp ?_
    push_cast at hunit ⊢
    rw [← hunit]
    linarith
  have hhigh : Int.log 10 x < 15 - places := by
    refine (Int.lt_zpow_iff_log_lt (b := 10) (by decide) hx0).mp ?_
    have hten : (10 : ℚ) ^ (15 - places : ℤ) = 10 ^ 16 * unit := by
      rw [hunit, ← zpow_natCast, ← zpow_add₀ (by norm_num)]
      congr 1
      push_cast
      ring
    push_cast
    rw [hten]
    linarith
  rw [← hx, shortest]
  -- The decimals of the unit are tried after at most sixteen digits.
  obtain ⟨i, hi⟩ := Int.eq_ofNat_of_zero_le (a := Int.log 10 x + places + 1) (by omega)
  have hplaces : Int.log 10 x + 1 - ((i + 1 : ℕ) : ℤ) = -(places + 1 : ℕ) := by
    push_cast
    omega
  have hfirst : decimalAt x (i + 1) = some v := by
    have hround : roundEven (x / unit) = 10 * k := by
      refine roundEven_eq ?_
      have hquotient : x / unit - (10 * k : ℤ) = (x - v) / unit := by
        rw [hvunit]
        field_simp
      rw [hquotient, abs_div, abs_of_pos hunit0, div_lt_iff₀ hunit0]
      linarith
    rw [decimalAt]
    simp only [hplaces, ← hunit, hround, List.map_cons]
    rw [List.find?_cons_of_pos, ← hvunit]
    rw [← hvunit, hx]
    simp
  rw [findSome?_eq_of_first (range'_split (by omega : i < 17)) hfirst, Option.getD_some]
  intro j hj decimal hdecimal
  obtain ⟨hnearest, s, hs⟩ := of_decimalAt hdecimal
  have hj : 1 ≤ j ∧ j < 1 + i := by simpa using hj
  obtain ⟨e, he⟩ := Int.eq_ofNat_of_zero_le
    (a := Int.log 10 x + 1 - j + (places + 1)) (by omega)
  have hmultiple : decimal = (s * 10 ^ e : ℤ) * unit := by
    rw [hs, hunit]
    push_cast
    rw [mul_assoc, ← zpow_natCast, ← zpow_add₀ (by norm_num), ← he]
    congr 2
    ring
  have hdecimal0 : 0 < decimal := pos_of_nearest_pos (hnearest ▸ hx0)
  have hdecimalSmall : decimal < 2 ^ 52 * unit := by
    by_contra hle
    have hge := le_nearest (hdouble (bits + 1) hbits52) (q := decimal) (by push_cast; linarith)
    rw [hnearest] at hge
    push_cast at hge hxle hpows
    linarith
  exact eq_of_nearest_eq hfine hmultiple hvunit hdecimal0 (by linarith) hdecimalSmall hvsmall
    (hnearest.trans hx)

end Short

end RandomArt.Binary64
