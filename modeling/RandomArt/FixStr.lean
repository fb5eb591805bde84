import RandomArt.DecimalPlaces

/-!
# Constants of a formula in text

The constants of a formula are written with four decimal places, by rounding a double and filling
up what conversion to text leaves out. The text is that of the number of ten thousandths.
-/

namespace RandomArt.Formula
open Binary64 DecimalText JsNumber

/-- `Math.round`. -/
def round : JsNumber → JsNumber
  | finite q => finite ⌊q + 1 / 2⌋
  | n => n

def fillDecimals (str : List Char) : List Char :=
  match str.idxOf? '.' with
  | none => str ++ ".0000".toList
  | some dotIndex =>
    let decimals := str.length - dotIndex - 1
    if 4 ≤ decimals then str.take (dotIndex + 5) else str ++ List.replicate (4 - decimals) '0'

def fixStr : JsNumber → List Char
  | finite n =>
    let multiplier := finite 10000
    let rounded := ((round ((finite n).mul multiplier).toDouble).div multiplier).toDouble
    fillDecimals (toTextDouble rounded)
  | n => toTextDouble n

/-- The number of ten thousandths that a double is rounded to. -/
def tenThousandths (n : ℚ) : ℤ := ⌊nearest (n * 10000) + 1 / 2⌋

def fixedText (k : ℤ) : List Char :=
  (if k < 0 then ['-'] else []) ++
    (print (k.natAbs / 10 ^ 4) ++ '.' :: lastDigits 4 (k.natAbs % 10 ^ 4))

section Rounding

variable {n : ℚ} {k : ℤ}

theorem tenThousandths_eq (h : |nearest (n * 10000) - k| < 1 / 2) : tenThousandths n = k := by
  rw [abs_lt] at h
  rw [tenThousandths, Int.floor_eq_iff]
  constructor <;> linarith

theorem abs_intCast_le {bound : ℕ} (h : k.natAbs ≤ bound) : |(k : ℚ)| ≤ bound := by
  rw [← Int.cast_abs, ← Nat.cast_natAbs]
  exact_mod_cast h

/-- Doubles of this size have four places to spare. -/
theorem abs_nearest_mul_sub_le (h : |n| ≤ 2 ^ 34 + 1) :
    |nearest (n * 10000) - n * 10000| ≤ 1 / 32 := by
  have hbound : |n * 10000| < 2 ^ ((-4 : ℤ) + 53) := by
    rw [abs_mul]
    norm_num
    linarith
  calc |nearest (n * 10000) - n * 10000| ≤ 2 ^ (-4 : ℤ) / 2 :=
        abs_nearest_sub_le_of_lt (by norm_num) hbound
    _ = 1 / 32 := by norm_num

theorem abs_tenThousandths_sub_le (h : |n| ≤ 2 ^ 34 + 1) :
    |tenThousandths n - n * 10000| ≤ 17 / 32 := by
  have herror := abs_le.mp (abs_nearest_mul_sub_le h)
  have hlow := Int.floor_le (nearest (n * 10000) + 1 / 2)
  have hhigh := Int.lt_floor_add_one (nearest (n * 10000) + 1 / 2)
  rw [abs_le, tenThousandths]
  constructor <;> linarith

theorem natAbs_tenThousandths_le (h : |n| ≤ 2 ^ 34) :
    (tenThousandths n).natAbs ≤ 2 ^ 34 * 10 ^ 4 := by
  have herror := abs_le.mp (abs_tenThousandths_sub_le (h.trans (by norm_num)))
  obtain ⟨hlow, hhigh⟩ := abs_le.mp h
  have hlow' : (-(2 ^ 34 * 10 ^ 4 + 1) : ℤ) < tenThousandths n := by
    have : (-(2 ^ 34 * 10 ^ 4 + 1) : ℚ) < tenThousandths n := by linarith
    exact_mod_cast this
  have hhigh' : tenThousandths n < (2 ^ 34 * 10 ^ 4 + 1 : ℤ) := by
    have : (tenThousandths n : ℚ) < 2 ^ 34 * 10 ^ 4 + 1 := by linarith
    exact_mod_cast this
  omega

/-- The double that stands for a number of ten thousandths is close to it. -/
theorem abs_nearest_div_sub_le (h : k.natAbs ≤ 2 ^ 34 * 10 ^ 4) :
    |nearest (k / 10000) - k / 10000| ≤ 1 / 2 ^ 18 := by
  have hk := abs_intCast_le h
  push_cast at hk
  have hbound : |(k : ℚ) / 10000| < 2 ^ ((-18 : ℤ) + 53) := by
    rw [abs_div]
    norm_num
    linarith
  refine (abs_nearest_sub_le_of_lt (by norm_num) hbound).trans ?_
  norm_num

/-- A double that a text of four places was read as is written as this text. -/
theorem tenThousandths_nearest_div (h : k.natAbs ≤ 2 ^ 34 * 10 ^ 4) :
    tenThousandths (nearest (k / 10000)) = k := by
  have hclose := abs_le.mp (abs_nearest_div_sub_le h)
  have hk := abs_intCast_le h
  push_cast at hk
  obtain ⟨hlow, hhigh⟩ := abs_le.mp hk
  have hsmall : |nearest ((k : ℚ) / 10000)| ≤ 2 ^ 34 + 1 := by
    rw [abs_le]
    constructor <;> linarith
  have herror := abs_le.mp (abs_nearest_mul_sub_le hsmall)
  refine tenThousandths_eq (abs_lt.mpr ?_)
  constructor <;> linarith

end Rounding

section Text

variable {n : ℚ} {k : ℤ}

theorem nearest_div_pos {m : ℕ} (hm : 0 < m) : 0 < nearest (m / 10 ^ 4) := by
  have hdouble : nearest ((1 : ℤ) / 2 ^ 14) = (1 : ℤ) / 2 ^ 14 :=
    nearest_dyadic 14 (by decide) (by decide)
  have hm1 : (1 : ℚ) ≤ m := by exact_mod_cast hm
  have hle : ((1 : ℤ) : ℚ) / 2 ^ 14 ≤ m / 10 ^ 4 := by
    rw [div_le_div_iff₀ (by positivity) (by positivity)]
    push_cast
    linarith
  calc (0 : ℚ) < (1 : ℤ) / 2 ^ 14 := by positivity
    _ ≤ nearest (m / 10 ^ 4) := le_nearest hdouble hle

theorem toTextDouble_nearest_div (h : k.natAbs ≤ 2 ^ 34 * 10 ^ 4) :
    toTextDouble (finite (nearest (k / 10000))) =
      (if k < 0 then ['-'] else []) ++ positiveText (k.natAbs / 10 ^ 4) := by
  obtain ⟨m, hm⟩ : ∃ m, m = k.natAbs := ⟨_, rfl⟩
  have hnonneg : 0 ≤ (m / 10 ^ 4 : ℚ) := by positivity
  have hshortest : shortest (nearest (m / 10 ^ 4)) = m / 10 ^ 4 := by
    rcases Nat.eq_zero_or_pos m with hzero | hpos
    · rw [hzero, Nat.cast_zero, zero_div, nearest_zero]
      exact_mod_cast shortest_natCast_of_lt (n := 0) (by decide)
    · exact shortest_nearest_decimal hpos (by decide) (hm ▸ h)
  rw [← hm]
  rcases lt_or_ge k 0 with hneg | hpos
  · have hk : (k : ℚ) / 10000 = -(m / 10 ^ 4) := by
      have hcast : k = -(m : ℤ) := by omega
      rw [hcast]
      push_cast
      ring
    have hround := nearest_div_pos (m := m) (by omega)
    have hdecimal : 0 < (m / 10 ^ 4 : ℚ) := by
      have : (0 : ℚ) < m := by exact_mod_cast (by omega : 0 < m)
      positivity
    rw [hk, nearest_neg, toTextDouble, if_pos (by linarith), neg_neg, hshortest, toText,
      if_pos (by linarith), if_pos hneg, abs_neg, abs_of_nonneg hnonneg]
  · have hk : (k : ℚ) / 10000 = m / 10 ^ 4 := by
      have hcast : k = (m : ℤ) := by omega
      rw [hcast]
      norm_num
    rw [hk, toTextDouble, if_neg (not_lt.mpr (nearest_nonneg hnonneg)), hshortest, toText,
      if_neg (not_lt.mpr hnonneg), if_neg (not_lt.mpr hpos), abs_of_nonneg hnonneg]

theorem idxOf?_append_cons {c : Char} {front back : List Char} (h : c ∉ front) :
    (front ++ c :: back).idxOf? c = some front.length := by
  induction front with
  | nil => simp [List.idxOf?_cons]
  | cons d front ih =>
    rw [List.mem_cons, not_or] at h
    obtain ⟨hne, hrest⟩ := h
    rw [List.cons_append, List.idxOf?_cons, if_neg (by simpa using Ne.symm hne), ih hrest]
    rfl

theorem fillDecimals_positiveText {sign : List Char} (hsign : '.' ∉ sign) {m : ℕ}
    (hm : m < 10 ^ 21) : fillDecimals (sign ++ positiveText (m / 10 ^ 4)) =
      sign ++ (print (m / 10 ^ 4) ++ '.' :: lastDigits 4 (m % 10 ^ 4)) := by
  rw [fillDecimals]
  have hfront : '.' ∉ sign ++ print (m / 10 ^ 4) := by
    simp [hsign, point_notMem_print]
  obtain ⟨zeros, ⟨htext, hzeros⟩ | ⟨digits, htext, hdigits⟩⟩ := positiveText_div hm
  · have hlength := congrArg List.length hzeros
    rw [length_lastDigits, List.length_replicate] at hlength
    rw [htext, List.idxOf?_eq_none_iff.mpr hfront, hzeros, ← hlength, List.append_assoc]
    rfl
  · have hlength := congrArg List.length hdigits
    rw [length_lastDigits, List.length_append, List.length_replicate] at hlength
    rw [htext, ← List.append_assoc, idxOf?_append_cons hfront, hdigits]
    have hdecimals : (sign ++ print (m / 10 ^ 4) ++ '.' :: digits).length -
        (sign ++ print (m / 10 ^ 4)).length - 1 = digits.length := by
      rw [List.length_append, List.length_cons]
      omega
    simp only [hdecimals]
    split_ifs with hfour
    · have hnil : zeros = 0 := by omega
      rw [List.take_of_length_le, hnil]
      · simp
      · simp only [List.length_append, List.length_cons]
        omega
    · rw [show 4 - digits.length = zeros by omega]
      simp

theorem toDouble_mul (h : |n| ≤ 2 ^ 34) :
    ((finite n).mul (finite 10000)).toDouble = finite (nearest (n * 10000)) := by
  have hbound : |n * 10000| ≤ (2 ^ 48 : ℕ) := by
    rw [abs_mul]
    norm_num
    linarith
  rw [mul, toDouble, if_neg (not_overflows_of_abs_le (by norm_num) hbound)]

theorem toDouble_div (h : k.natAbs ≤ 2 ^ 34 * 10 ^ 4) :
    ((finite k).div (finite 10000)).toDouble = finite (nearest (k / 10000)) := by
  have hbound : |(k : ℚ) / 10000| ≤ (2 ^ 34 : ℕ) := by
    have hk := abs_intCast_le h
    push_cast at hk
    rw [abs_div]
    norm_num
    linarith
  rw [div, if_pos (by norm_num), toDouble, if_neg (not_overflows_of_abs_le (by norm_num) hbound)]

/-- The text of a constant is that of its number of ten thousandths. -/
theorem fixStr_finite (h : |n| ≤ 2 ^ 34) : fixStr (finite n) = fixedText (tenThousandths n) := by
  have hk := natAbs_tenThousandths_le h
  have hround : round (finite (nearest (n * 10000))) = finite (tenThousandths n) := by
    rw [round, tenThousandths]
  rw [fixStr]
  simp only [toDouble_mul h, hround, toDouble_div hk, toTextDouble_nearest_div hk]
  refine fillDecimals_positiveText ?_ (hk.trans_lt (by norm_num))
  split_ifs <;> simp

/-- A number of ten thousandths is read back from its text. -/
theorem decimalLiteral_fixedText (k : ℤ) :
    decimalLiteral (fixedText k) = finite (k / 10 ^ 4) := by
  obtain ⟨m, hm⟩ : ∃ m, m = k.natAbs := ⟨_, rfl⟩
  obtain ⟨c, rest, hcons⟩ := List.exists_cons_of_ne_nil (print_ne_nil (m / 10 ^ 4))
  have hc : c.isDigit := isDigit_of_mem_print (hcons ▸ List.mem_cons_self)
  have hread := unsignedDecimal_lastDigits m
  have hinfinity : print (m / 10 ^ 4) ++ '.' :: lastDigits 4 (m % 10 ^ 4) ≠
      "Infinity".toList := by
    rw [hcons]
    rintro heq
    obtain ⟨rfl, -⟩ := List.cons.inj heq
    exact absurd hc (by decide)
  rw [fixedText, ← hm]
  split_ifs with hneg
  · have hk : k = -(m : ℤ) := by omega
    rw [decimalLiteral, List.singleton_append, splitSign]
    simp only [if_neg hinfinity, hread, if_true, hk, finite.injEq]
    push_cast
    ring
  · have hk : k = (m : ℤ) := by omega
    rw [decimalLiteral, List.nil_append]
    have hsign : splitSign (print (m / 10 ^ 4) ++ '.' :: lastDigits 4 (m % 10 ^ 4)) =
        (false, print (m / 10 ^ 4) ++ '.' :: lastDigits 4 (m % 10 ^ 4)) := by
      rw [hcons]
      exact splitSign_of_isDigit hc
    rw [hsign]
    simp only [if_neg hinfinity, hread, hk]
    rfl

/-- The text of a constant reads as a number of ten thousandths that is less than one of them away,
and the double that this number is rounded to has the same text. -/
theorem fixStr_read_back (h : |n| ≤ 2 ^ 34) : ∃ k : ℤ,
    decimalLiteral (fixStr (finite n)) = finite (k / 10 ^ 4) ∧ |k / 10 ^ 4 - n| < 1 / 10 ^ 4 ∧
      fixStr (decimalLiteral (fixStr (finite n))).toDouble = fixStr (finite n) := by
  have hk := natAbs_tenThousandths_le h
  have hread : decimalLiteral (fixStr (finite n)) = finite (tenThousandths n / 10 ^ 4) := by
    rw [fixStr_finite h, decimalLiteral_fixedText]
  have hbound : |(tenThousandths n : ℚ) / 10 ^ 4| ≤ ((2 ^ 34 : ℕ) : ℚ) := by
    have hcast := abs_intCast_le hk
    push_cast at hcast
    rw [abs_div, abs_of_pos (by positivity : (0 : ℚ) < 10 ^ 4), div_le_iff₀ (by positivity)]
    push_cast
    linarith
  have hdouble : |nearest ((tenThousandths n : ℚ) / 10 ^ 4)| ≤ 2 ^ 34 := by
    exact_mod_cast abs_nearest_le (nearest_natCast_of_lt (by norm_num)) hbound
  refine ⟨tenThousandths n, hread, ?_, ?_⟩
  · obtain ⟨hlow, hhigh⟩ := abs_le.mp (abs_tenThousandths_sub_le (h.trans (by norm_num)))
    rw [abs_lt]
    constructor <;> linarith
  · rw [hread, toDouble, if_neg (not_overflows_of_abs_le (by norm_num) hbound),
      fixStr_finite hdouble, fixStr_finite h]
    congr 1
    exact_mod_cast tenThousandths_nearest_div hk

theorem fixStr_read_back_third : ∃ k : ℤ,
    decimalLiteral (fixStr (finite (nearest (-1 / 3)))) = finite (k / 10 ^ 4) ∧
      |k / 10 ^ 4 - nearest (-1 / 3)| < 1 / 10 ^ 4 ∧
      fixStr (decimalLiteral (fixStr (finite (nearest (-1 / 3))))).toDouble =
        fixStr (finite (nearest (-1 / 3))) :=
  fixStr_read_back (by decide +kernel)

example : fixStr (finite (nearest (-1 / 3))) = "-0.3333".toList := by decide +kernel

end Text

end RandomArt.Formula
