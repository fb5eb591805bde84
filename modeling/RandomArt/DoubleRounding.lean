import RandomArt.Binary64

/-!
# What rounding to doubles preserves

Numbers with few enough binary digits are doubles and are not rounded at all. Rounding is odd,
and it never crosses a double: what lies between two doubles is rounded to something between
them.
-/

namespace RandomArt.Binary64

section Exact

theorem lastPlace_le {q : ℚ} {n : ℤ} (hn : -1074 ≤ n) (h : |q| < 2 ^ (n + 53)) (hq : q ≠ 0) :
    lastPlace q ≤ n := by
  have hlog : Int.log 2 |q| < n + 53 :=
    (Int.lt_zpow_iff_log_lt (by decide) (abs_pos.mpr hq)).mp (by exact_mod_cast h)
  rw [lastPlace]
  omega

@[simp] theorem nearest_zero : nearest 0 = 0 := nearest_of_eq_mul (k := 0) (by simp)

/-- A number of at most 53 binary digits is not rounded. -/
theorem nearest_mul_zpow {k e : ℤ} (hk : |k| < 2 ^ 53) (he : -1074 ≤ e) :
    nearest (k * 2 ^ e) = k * 2 ^ e := by
  by_cases hzero : k = 0
  · simp [hzero]
  · have hplace : lastPlace (k * 2 ^ e) ≤ e := by
      refine lastPlace_le he ?_ (by positivity)
      have hlt : (|k| : ℚ) < 2 ^ 53 := by exact_mod_cast hk
      rw [zpow_add₀ two_ne_zero, abs_mul, abs_of_pos (a := (2 : ℚ) ^ e) (by positivity), mul_comm]
      gcongr
      exact_mod_cast hlt
    obtain ⟨i, hi⟩ := Int.eq_ofNat_of_zero_le (sub_nonneg.mpr hplace)
    have hpow : (2 : ℚ) ^ e = 2 ^ i * 2 ^ lastPlace (k * 2 ^ e) := by
      rw [← zpow_natCast, ← zpow_add₀ two_ne_zero, ← hi, sub_add_cancel]
    refine nearest_of_eq_mul (k := k * 2 ^ i) ?_
    calc (k : ℚ) * 2 ^ e = k * (2 ^ i * 2 ^ lastPlace (k * 2 ^ e)) := congrArg _ hpow
      _ = (k * 2 ^ i : ℤ) * 2 ^ lastPlace (k * 2 ^ e) := by
        push_cast
        ring

theorem nearest_dyadic {k : ℤ} (j : ℕ) (hk : |k| < 2 ^ 53) (hj : j ≤ 1074) :
    nearest (k / 2 ^ j) = k / 2 ^ j := by
  simpa [zpow_neg, div_eq_mul_inv] using nearest_mul_zpow (e := -j) hk (by omega)

theorem nearest_intCast {k : ℤ} (hk : |k| < 2 ^ 53) : nearest k = k := by
  simpa using nearest_dyadic 0 hk (by omega)

end Exact

section Order

variable {q r : ℚ}

theorem roundEven_neg (r : ℚ) : roundEven (-r) = -roundEven r := by
  by_cases hint : (⌊r⌋ : ℚ) = r
  · rw [← hint, ← Int.cast_neg, le_antisymm (roundEven_le le_rfl) (le_roundEven le_rfl),
      le_antisymm (roundEven_le le_rfl) (le_roundEven (r := (⌊r⌋ : ℚ)) le_rfl)]
  · -- Between two integers the floor of the negative is one below that of the number.
    have hceil : ⌈r⌉ = ⌊r⌋ + 1 := by
      refine Int.ceil_eq_iff.mpr ⟨?_, ?_⟩
      · push_cast
        have := lt_of_le_of_ne (Int.floor_le r) hint
        linarith
      · push_cast
        exact (Int.lt_floor_add_one r).le
    have hfloor : ⌊-r⌋ = -⌊r⌋ - 1 := by
      rw [Int.floor_neg, hceil]
      ring
    rw [roundEven, roundEven, hfloor]
    push_cast
    have hleft : -r - (-(⌊r⌋ : ℚ) - 1) = 1 - (r - ⌊r⌋) := by ring
    rw [hleft]
    split_ifs <;> first | omega | (exfalso; linarith)

theorem lastPlace_neg (q : ℚ) : lastPlace (-q) = lastPlace q := by
  rw [lastPlace, abs_neg, lastPlace]

theorem nearest_neg (q : ℚ) : nearest (-q) = -nearest q := by
  rw [nearest, nearest, lastPlace_neg, neg_div, roundEven_neg]
  push_cast
  ring

theorem nearest_nonneg (h : 0 ≤ q) : 0 ≤ nearest q := by
  have hround : (0 : ℤ) ≤ roundEven (q / 2 ^ lastPlace q) := le_roundEven (by positivity)
  exact mul_nonneg (by exact_mod_cast hround) (by positivity)

theorem lastPlace_mono (hq : 0 < q) (h : q ≤ r) : lastPlace q ≤ lastPlace r := by
  rw [lastPlace, lastPlace, abs_of_pos hq, abs_of_pos (hq.trans_le h)]
  have hlog := Int.log_mono_right (b := 2) hq h
  omega

/-- A double in units of a last place that is no larger than its own. -/
theorem exists_eq_mul_of_le {e : ℤ} (hr : nearest r = r) (h : e ≤ lastPlace r) :
    ∃ k : ℤ, r = k * 2 ^ e := by
  obtain ⟨i, hi⟩ := Int.eq_ofNat_of_zero_le (sub_nonneg.mpr h)
  refine ⟨roundEven (r / 2 ^ lastPlace r) * 2 ^ i, ?_⟩
  have hpow : (2 : ℚ) ^ lastPlace r = 2 ^ i * 2 ^ e := by
    rw [show lastPlace r = i + e by omega, zpow_add₀ two_ne_zero, zpow_natCast]
  calc r = roundEven (r / 2 ^ lastPlace r) * 2 ^ lastPlace r := hr.symm
    _ = (roundEven (r / 2 ^ lastPlace r) * 2 ^ i : ℤ) * 2 ^ e := by
      push_cast
      rw [mul_assoc, ← hpow]

private theorem nearest_le_of_pos (hq : 0 < q) (hr : nearest r = r) (h : q ≤ r) :
    nearest q ≤ r := by
  obtain ⟨k, hk⟩ := exists_eq_mul_of_le hr (lastPlace_mono hq h)
  have hpow : (0 : ℚ) < 2 ^ lastPlace q := by positivity
  have hround : roundEven (q / 2 ^ lastPlace q) ≤ k :=
    roundEven_le ((div_le_iff₀ hpow).mpr (hk ▸ h))
  calc nearest q ≤ k * 2 ^ lastPlace q := by
        rw [nearest]
        gcongr
    _ = r := hk.symm

private theorem le_nearest_of_pos (hr0 : 0 < r) (hr : nearest r = r) (h : r ≤ q) :
    r ≤ nearest q := by
  have hpow : (0 : ℚ) < 2 ^ lastPlace q := by positivity
  rcases (lastPlace_mono hr0 h).eq_or_lt with heq | hlt
  · obtain ⟨k, hk⟩ := exists_eq_mul_of_le hr heq.ge
    have hround : k ≤ roundEven (q / 2 ^ lastPlace q) :=
      le_roundEven ((le_div_iff₀ hpow).mpr (hk ▸ h))
    calc r = k * 2 ^ lastPlace q := hk
      _ ≤ nearest q := by
        rw [nearest]
        gcongr
  · -- A double with a smaller last place lies below a power of two that is not rounded.
    have hq0 : 0 < q := hr0.trans_le h
    have hleast : -1074 ≤ lastPlace r := le_max_right _ _
    have hplace : lastPlace q = Int.log 2 q - 52 := by
      have hmax : lastPlace q = max (Int.log 2 q - 52) (-1074) := by rw [lastPlace, abs_of_pos hq0]
      omega
    have hlog : (2 : ℚ) ^ Int.log 2 q ≤ q := by
      exact_mod_cast Int.zpow_log_le_self (b := 2) (by decide) hq0
    have hround : (2 ^ 52 : ℤ) ≤ roundEven (q / 2 ^ lastPlace q) := by
      refine le_roundEven ((le_div_iff₀ hpow).mpr ?_)
      calc ((2 ^ 52 : ℤ) : ℚ) * 2 ^ lastPlace q = 2 ^ Int.log 2 q := by
            rw [hplace, zpow_sub₀ two_ne_zero]
            norm_num
            ring
        _ ≤ q := hlog
    have hbelow : r < 2 ^ (52 + lastPlace q) := by
      refine (Int.lt_zpow_iff_log_lt (b := 2) (by decide) hr0).mpr ?_
      rw [lastPlace, abs_of_pos hr0] at hlt
      omega
    calc r ≤ 2 ^ (52 + lastPlace q) := hbelow.le
      _ = (2 ^ 52 : ℤ) * 2 ^ lastPlace q := by
        rw [zpow_add₀ two_ne_zero]
        norm_num
      _ ≤ nearest q := by
        rw [nearest]
        gcongr

/-- Rounding stays below a double. -/
theorem nearest_le (hr : nearest r = r) (h : q ≤ r) : nearest q ≤ r := by
  rcases lt_trichotomy 0 q with hq | rfl | hq
  · exact nearest_le_of_pos hq hr h
  · rwa [nearest_zero]
  · rcases le_or_gt 0 r with hr0 | hr0
    · have hneg := nearest_nonneg (q := -q) (by linarith)
      rw [nearest_neg] at hneg
      linarith
    · have hle := le_nearest_of_pos (r := -r) (q := -q) (by linarith)
        (by rw [nearest_neg, hr]) (by linarith)
      rw [nearest_neg] at hle
      linarith

/-- Rounding stays above a double. -/
theorem le_nearest (hr : nearest r = r) (h : r ≤ q) : r ≤ nearest q := by
  have hle := nearest_le (r := -r) (q := -q) (by rw [nearest_neg, hr]) (by linarith)
  rw [nearest_neg] at hle
  linarith

theorem abs_nearest_le (hr : nearest r = r) (h : |q| ≤ r) : |nearest q| ≤ r := by
  obtain ⟨hlow, hhigh⟩ := abs_le.mp h
  exact abs_le.mpr ⟨le_nearest (by rw [nearest_neg, hr]) hlow, nearest_le hr hhigh⟩

theorem le_abs_nearest (hr : nearest r = r) (h : r ≤ |q|) : r ≤ |nearest q| := by
  rcases abs_cases q with ⟨habs, -⟩ | ⟨habs, -⟩
  · exact (le_nearest hr (habs ▸ h)).trans (le_abs_self _)
  · have hneg := le_nearest hr (habs ▸ h)
    rw [nearest_neg] at hneg
    exact hneg.trans (neg_le_abs _)

/-- Rounding does not leave the unit below an integer, except for what is very near its lower
end. -/
theorem ceil_nearest {c : ℤ} (hc : |c| < 2 ^ 49) (hlow : c - 1 + 1 / 8 ≤ q) (hhigh : q ≤ c) :
    ⌈nearest q⌉ = c := by
  have hbounds := abs_lt.mp hc
  have heighth : nearest (c - 1 + 1 / 8) = (c - 1 + 1 / 8 : ℚ) := by
    have hdyadic := nearest_dyadic (k := 8 * c - 7) 3 (abs_lt.mpr (by omega)) (by decide)
    have hvalue : ((8 * c - 7 : ℤ) : ℚ) / 2 ^ 3 = c - 1 + 1 / 8 := by
      push_cast
      ring
    rwa [hvalue] at hdyadic
  have hinteger : nearest (c : ℚ) = c := nearest_intCast (abs_lt.mpr (by omega))
  rw [Int.ceil_eq_iff]
  refine ⟨?_, nearest_le hinteger hhigh⟩
  have habove := le_nearest heighth hlow
  linarith

theorem not_overflows_of_abs_le {n : ℕ} (hn : n < 2 ^ 53) (h : |q| ≤ n) : ¬Overflows q := by
  rw [Overflows, not_le]
  calc |nearest q| ≤ n := abs_nearest_le (nearest_natCast_of_lt hn) h
    _ < 2 ^ 53 := by exact_mod_cast hn
    _ < 2 ^ 1024 := pow_lt_pow_right₀ one_lt_two (by norm_num)

theorem abs_div_lastPlace_lt (q : ℚ) : |q / 2 ^ lastPlace q| < 2 ^ 53 := by
  have hpow : (0 : ℚ) < 2 ^ lastPlace q := by positivity
  have hlog : |q| < 2 ^ (Int.log 2 |q| + 1) := by
    exact_mod_cast Int.lt_zpow_succ_log_self (b := 2) (by decide) |q|
  rw [abs_div, abs_of_pos hpow, div_lt_iff₀ hpow, ← zpow_natCast, ← zpow_add₀ two_ne_zero]
  refine hlog.trans_le (zpow_le_zpow_right₀ one_le_two ?_)
  have hplace : Int.log 2 |q| - 52 ≤ lastPlace q := le_max_left _ _
  push_cast
  omega

/-- What is rounded is a double. -/
theorem nearest_nearest (q : ℚ) : nearest (nearest q) = nearest q := by
  have hleast : -1074 ≤ lastPlace q := le_max_right _ _
  obtain ⟨hlow, hhigh⟩ := abs_lt.mp (abs_div_lastPlace_lt q)
  have hbounds : |roundEven (q / 2 ^ lastPlace q)| ≤ (2 ^ 53 : ℤ) :=
    abs_le.mpr ⟨le_roundEven (by exact_mod_cast hlow.le), roundEven_le (by exact_mod_cast hhigh.le)⟩
  rw [nearest.eq_def q]
  generalize roundEven (q / 2 ^ lastPlace q) = k at hbounds
  generalize lastPlace q = e at hleast
  rcases hbounds.lt_or_eq with hlt | heq
  · exact nearest_mul_zpow hlt hleast
  · -- The next power of two is a double with a larger last place.
    obtain ⟨j, rfl⟩ : ∃ j, k = 2 * j := ⟨k / 2, by rw [abs_eq (by decide)] at heq; omega⟩
    have hlt : |j| < 2 ^ 53 := by
      rw [abs_eq (by decide)] at heq
      exact abs_lt.mpr (by omega)
    have hvalue : ((2 * j : ℤ) : ℚ) * 2 ^ e = j * 2 ^ (e + 1) := by
      rw [zpow_add_one₀ two_ne_zero]
      push_cast
      ring
    rw [hvalue, nearest_mul_zpow hlt (by omega)]

end Order

section Error

theorem abs_roundEven_sub_le (r : ℚ) : |roundEven r - r| ≤ 1 / 2 := by
  have hlow := Int.floor_le r
  have hhigh := Int.lt_floor_add_one r
  rw [abs_le, roundEven]
  split_ifs <;> push_cast <;> constructor <;> linarith

theorem roundEven_eq {r : ℚ} {k : ℤ} (h : |r - k| < 1 / 2) : roundEven r = k := by
  have hround := abs_roundEven_sub_le r
  rw [abs_lt] at h
  rw [abs_le] at hround
  have hlow : (k : ℚ) - 1 < roundEven r := by linarith
  have hhigh : (roundEven r : ℚ) < k + 1 := by linarith
  have hlow' : k - 1 < roundEven r := by exact_mod_cast hlow
  have hhigh' : roundEven r < k + 1 := by exact_mod_cast hhigh
  omega

/-- Rounding moves a number by half a unit of its last place at most. -/
theorem abs_nearest_sub_le (q : ℚ) : |nearest q - q| ≤ 2 ^ lastPlace q / 2 := by
  have hpow : (0 : ℚ) < 2 ^ lastPlace q := by positivity
  have hround := abs_roundEven_sub_le (q / 2 ^ lastPlace q)
  have hscale : nearest q - q =
      (roundEven (q / 2 ^ lastPlace q) - q / 2 ^ lastPlace q) * 2 ^ lastPlace q := by
    rw [nearest]
    field_simp
  rw [hscale, abs_mul, abs_of_pos hpow]
  calc |roundEven (q / 2 ^ lastPlace q) - q / 2 ^ lastPlace q| * 2 ^ lastPlace q
      ≤ 1 / 2 * 2 ^ lastPlace q := by gcongr
    _ = 2 ^ lastPlace q / 2 := by ring

theorem abs_nearest_sub_le_of_lt {q : ℚ} {e : ℤ} (he : -1074 ≤ e) (h : |q| < 2 ^ (e + 53)) :
    |nearest q - q| ≤ 2 ^ e / 2 := by
  by_cases hq : q = 0
  · rw [hq, nearest_zero, sub_zero, abs_zero]
    positivity
  · refine (abs_nearest_sub_le q).trans ?_
    gcongr
    · norm_num
    · exact lastPlace_le he h hq

end Error

end RandomArt.Binary64
