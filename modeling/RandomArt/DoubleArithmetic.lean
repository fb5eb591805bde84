import RandomArt.DoubleRounding
import RandomArt.DoubleText

/-!
# Arithmetic of doubles

The operators on doubles are exact and then rounded. A result that is a number comes from operands
that are numbers, and from an exact result that does not overflow.
-/

namespace RandomArt.JsNumber
open Binary64

def add : JsNumber → JsNumber → JsNumber
  | finite p, finite q => finite (p + q)
  | nan, _ | _, nan => nan
  | infinity a, infinity b => if a = b then infinity a else nan
  | infinity a, finite _ | finite _, infinity a => infinity a

/-- `Math.ceil`, which needs no rounding. -/
def ceil : JsNumber → JsNumber
  | finite q => finite ⌈q⌉
  | infinity negative => infinity negative
  | nan => nan

/-- `Math.max` -/
def maxOf : JsNumber → JsNumber → JsNumber
  | finite p, finite q => finite (max p q)
  | nan, _ | _, nan => nan
  | infinity false, _ | _, infinity false => infinity false
  | infinity true, x | x, infinity true => x

def addDouble (x y : JsNumber) : JsNumber := (add x y).toDouble

def mulDouble (x y : JsNumber) : JsNumber := (mul x y).toDouble

def divDouble (x y : JsNumber) : JsNumber := (div x y).toDouble

variable {x y : JsNumber} {r : ℚ}

theorem toDouble_eq_finite_iff :
    x.toDouble = finite r ↔ ∃ q, x = finite q ∧ nearest q = r ∧ ¬Overflows q := by
  cases x with
  | nan => simp [toDouble]
  | infinity negative => simp [toDouble]
  | finite q => simp [toDouble_finite_eq_iff]

theorem add_eq_finite_iff :
    add x y = finite r ↔ ∃ p q, x = finite p ∧ y = finite q ∧ p + q = r := by
  cases x <;> cases y <;> simp [add]
  split_ifs <;> simp

theorem mul_eq_finite_iff :
    mul x y = finite r ↔ ∃ p q, x = finite p ∧ y = finite q ∧ p * q = r := by
  cases x <;> cases y <;> simp [mul]
  all_goals split_ifs <;> simp

theorem div_eq_finite_iff {q : ℚ} (hq : q ≠ 0) :
    div x (finite q) = finite r ↔ ∃ p, x = finite p ∧ p / q = r := by
  cases x <;> simp [div, hq]

theorem ceil_eq_finite_iff : ceil x = finite r ↔ ∃ q, x = finite q ∧ ⌈q⌉ = r := by
  cases x <;> simp [ceil]

theorem addDouble_eq_finite_iff : addDouble x y = finite r ↔
    ∃ p q, x = finite p ∧ y = finite q ∧ nearest (p + q) = r ∧ ¬Overflows (p + q) := by
  simp only [addDouble, toDouble_eq_finite_iff, add_eq_finite_iff]
  constructor
  · rintro ⟨_, ⟨p, q, hx, hy, rfl⟩, hsum⟩
    exact ⟨p, q, hx, hy, hsum⟩
  · rintro ⟨p, q, hx, hy, hsum⟩
    exact ⟨_, ⟨p, q, hx, hy, rfl⟩, hsum⟩

theorem mulDouble_eq_finite_iff : mulDouble x y = finite r ↔
    ∃ p q, x = finite p ∧ y = finite q ∧ nearest (p * q) = r ∧ ¬Overflows (p * q) := by
  simp only [mulDouble, toDouble_eq_finite_iff, mul_eq_finite_iff]
  constructor
  · rintro ⟨_, ⟨p, q, hx, hy, rfl⟩, hproduct⟩
    exact ⟨p, q, hx, hy, hproduct⟩
  · rintro ⟨p, q, hx, hy, hproduct⟩
    exact ⟨_, ⟨p, q, hx, hy, rfl⟩, hproduct⟩

theorem divDouble_eq_finite_iff {q : ℚ} (hq : q ≠ 0) : divDouble x (finite q) = finite r ↔
    ∃ p, x = finite p ∧ nearest (p / q) = r ∧ ¬Overflows (p / q) := by
  simp only [divDouble, toDouble_eq_finite_iff, div_eq_finite_iff hq]
  constructor
  · rintro ⟨_, ⟨p, hx, rfl⟩, hquotient⟩
    exact ⟨p, hx, hquotient⟩
  · rintro ⟨p, hx, hquotient⟩
    exact ⟨_, ⟨p, hx, rfl⟩, hquotient⟩

theorem toDouble_intCast {n : ℤ} (h : |n| < 2 ^ 53) : (finite n).toDouble = finite n := by
  have hnat : |(n : ℚ)| ≤ n.natAbs := by rw [Nat.cast_natAbs, Int.cast_abs]
  have hless : n.natAbs < 2 ^ 53 := by
    rw [abs_lt] at h
    omega
  exact toDouble_finite_eq_iff.mpr ⟨nearest_intCast h, not_overflows_of_abs_le hless hnat⟩

/-- Whole numbers below `2 ^ 53` are added exactly. -/
theorem addDouble_intCast {m n : ℤ} (h : |m + n| < 2 ^ 53) :
    addDouble (finite m) (finite n) = finite (m + n : ℤ) := by
  rw [addDouble, add, ← Int.cast_add, toDouble_intCast h]

/-- A whole number that is read is a whole number after rounding. -/
theorem exists_intCast_of_toDouble {n : ℤ} (h : (finite n).toDouble = finite r) :
    ∃ m : ℤ, r = m := by
  obtain ⟨hnearest, -⟩ := toDouble_finite_eq_iff.mp h
  rw [← hnearest]
  obtain ⟨k, rfl | rfl⟩ := n.eq_nat_or_neg
  · obtain ⟨m, hm⟩ := exists_nearest_natCast k
    exact ⟨m, by exact_mod_cast hm⟩
  · obtain ⟨m, hm⟩ := exists_nearest_natCast k
    refine ⟨-m, ?_⟩
    push_cast
    rw [nearest_neg, hm]

end RandomArt.JsNumber
