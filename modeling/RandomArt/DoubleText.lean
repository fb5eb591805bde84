import RandomArt.Binary64
import RandomArt.NumberText

/-!
# Doubles and their text

The conversions between numbers and texts where numbers are doubles: what is read is rounded, and
the shortest decimal that is rounded to the number is what is written.
-/

namespace RandomArt.JsNumber
open Binary64 DecimalText

/-- The double that stands for a number. -/
def toDouble : JsNumber → JsNumber
  | finite q => if Overflows q then infinity (q < 0) else finite (nearest q)
  | infinity negative => infinity negative
  | nan => nan

/-- Conversion of a whole text to a double. -/
def ofTextDouble (text : List Char) : JsNumber := (ofText text).toDouble

def toTextDouble : JsNumber → List Char
  | finite q => toText (finite (if q < 0 then -shortest (-q) else shortest q))
  | infinity negative => toText (infinity negative)
  | nan => toText nan

@[simp] theorem isNaN_toDouble (x : JsNumber) : x.toDouble.isNaN = x.isNaN := by
  cases x with
  | finite q =>
    rw [toDouble]
    split_ifs <;> rfl
  | infinity negative => rfl
  | nan => rfl

theorem toDouble_finite_eq_iff {q r : ℚ} :
    (finite q).toDouble = finite r ↔ nearest q = r ∧ ¬Overflows q := by
  rw [toDouble]
  split_ifs with h <;> simp [h]

/-- A natural number is written as a natural number that is rounded to it. -/
theorem toTextDouble_natCast {n m : ℕ} (h : shortest (n : ℚ) = m) :
    toTextDouble (finite n) = natText m := by
  rw [toTextDouble, if_neg (not_lt.mpr (Nat.cast_nonneg n)), h, toText_natCast]

theorem natText_eq_print_iff {m n : ℕ} : natText m = print n ↔ m = n ∧ n < 10 ^ 21 := by
  rw [natText]
  simp only [length_print_le]
  split_ifs with h
  · constructor
    · intro hprint
      obtain rfl := print_inj.mp hprint
      exact ⟨rfl, h⟩
    · rintro ⟨rfl, -⟩
      rfl
  · refine iff_of_false (fun htext => ?_) fun hm => h (hm.1 ▸ hm.2)
    have he : 'e' ∈ print n := by
      rw [← htext]
      simp [exponentText]
    exact notMem_print rfl n he

theorem not_overflows_of_lt {n : ℕ} (h : n < 10 ^ 21) : ¬Overflows n := by
  have hn : (n : ℚ) < 10 ^ 21 := by exact_mod_cast h
  rw [Overflows, abs_of_nonneg (nearest_natCast_nonneg n), not_le]
  calc nearest (n : ℚ) ≤ 2 * n := nearest_natCast_le n
    _ < 2 * 10 ^ 21 := by linarith
    _ ≤ 2 ^ 71 := by norm_num
    _ < 2 ^ 1024 := pow_lt_pow_right₀ (by norm_num) (by norm_num)

/-- The digits of a natural number are written again after they are read when the number is not
too large and is the shortest decimal of its double. -/
theorem toTextDouble_toDouble_eq_print {n : ℕ} :
    toTextDouble (toDouble (finite n)) = print n ↔
      n < 10 ^ 21 ∧ shortest (nearest (n : ℚ)) = n := by
  by_cases hover : Overflows n
  · refine iff_of_false (fun htext => ?_) fun h => not_overflows_of_lt h.1 hover
    have hnegative : decide ((n : ℚ) < 0) = false :=
      decide_eq_false (not_lt.mpr (Nat.cast_nonneg n))
    rw [toDouble, if_pos hover, hnegative] at htext
    have hI : 'I' ∈ print n := by
      rw [← htext]
      decide
    exact notMem_print rfl n hI
  · obtain ⟨double, hdouble⟩ := exists_nearest_natCast n
    obtain ⟨m, hm⟩ := exists_shortest_natCast double
    rw [toDouble, if_neg hover, hdouble, toTextDouble_natCast hm, natText_eq_print_iff, hm,
      Nat.cast_inj, and_comm]

theorem toTextDouble_toDouble_of_lt {n : ℕ} (h : n < 2 ^ 53) :
    toTextDouble (toDouble (finite n)) = print n := by
  refine toTextDouble_toDouble_eq_print.mpr ⟨h.trans (by norm_num), ?_⟩
  rw [nearest_natCast_of_lt h, shortest_natCast_of_lt h]

/-- What is written of a natural double is read as the same double. -/
theorem ofTextDouble_natText {n m : ℕ} (hdouble : (finite n).toDouble = finite n)
    (h : shortest (n : ℚ) = m) : ofTextDouble (natText m) = finite n := by
  obtain ⟨hnearest, hover⟩ := toDouble_finite_eq_iff.mp hdouble
  have hround : nearest (m : ℚ) = n := h ▸ nearest_shortest hnearest
  rw [ofTextDouble, ofText_natText, toDouble_finite_eq_iff, Overflows, hround]
  rw [Overflows, hnearest] at hover
  exact ⟨rfl, hover⟩

end RandomArt.JsNumber
