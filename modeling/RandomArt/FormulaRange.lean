import RandomArt.FormulaEvaluator
import Mathlib.Analysis.SpecialFunctions.Pow.Real
import Mathlib.Analysis.SpecialFunctions.Trigonometric.Basic

/-!
# The range of a formula

In exact arithmetic every formula that is grown from a seed maps the square between minus one and
one to colours whose channels are between minus one and one.
-/

namespace RandomArt.Formula
open Binary64

noncomputable instance : Arithmetic ℝ where
  literal q := q
  sqrt := Real.sqrt
  sin := Real.sin
  abs x := |x|
  floor x := ⌊x⌋
  pow := Real.rpow
  lt x y := decide (x < y)
  eq x y := decide (x = y)

/-- All channels are between minus one and one. -/
def InUnit (c : Channels ℝ) : Prop := |c.r| ≤ 1 ∧ |c.g| ≤ 1 ∧ |c.b| ≤ 1

namespace Helper

variable {c c1 c2 c3 : Channels ℝ}

theorem abs_convex_le {w a b : ℝ} (hw0 : 0 ≤ w) (hw1 : w ≤ 1) (ha : |a| ≤ 1) (hb : |b| ≤ 1) :
    |w * a + (((1 : ℚ) : ℝ) - w) * b| ≤ 1 := by
  rw [Rat.cast_one]
  calc |w * a + (1 - w) * b| ≤ |w * a| + |(1 - w) * b| := abs_add_le _ _
    _ = w * |a| + (1 - w) * |b| := by
      rw [abs_mul, abs_mul, abs_of_nonneg hw0, abs_of_nonneg (by linarith : 0 ≤ 1 - w)]
    _ ≤ w * 1 + (1 - w) * 1 := by gcongr
    _ = 1 := by ring

theorem average_inUnit {w : ℝ} (hw0 : 0 ≤ w) (hw1 : w ≤ 1) (h1 : InUnit c1) (h2 : InUnit c2) :
    InUnit (average c1 c2 w) :=
  ⟨abs_convex_le hw0 hw1 h1.1 h2.1, abs_convex_le hw0 hw1 h1.2.1 h2.2.1,
    abs_convex_le hw0 hw1 h1.2.2 h2.2.2⟩

/-- The weights of the channels add up to one. -/
theorem brightness_mem (h : InUnit c) : -1 ≤ brightness c ∧ brightness c ≤ 1 := by
  obtain ⟨hr, hg, hb⟩ := h
  have hsquare {v : ℝ} (hv : |v| ≤ 1) : (1 + v) * (1 + v) ≤ 4 := by
    obtain ⟨hlow, hhigh⟩ := abs_le.mp hv
    nlinarith
  have hsum : 299 / 1000 * ((1 + c.r) * (1 + c.r)) + 587 / 1000 * ((1 + c.g) * (1 + c.g)) +
      114 / 1000 * ((1 + c.b) * (1 + c.b)) ≤ 4 := by
    linarith [hsquare hr, hsquare hg, hsquare hb]
  have hsqrt := Real.sqrt_le_sqrt hsum
  rw [show (4 : ℝ) = 2 ^ 2 by norm_num, Real.sqrt_sq (by norm_num)] at hsqrt
  have hnonneg := Real.sqrt_nonneg (299 / 1000 * ((1 + c.r) * (1 + c.r)) +
    587 / 1000 * ((1 + c.g) * (1 + c.g)) + 114 / 1000 * ((1 + c.b) * (1 + c.b)))
  simp only [brightness, Arithmetic.literal, Arithmetic.sqrt]
  push_cast
  constructor <;> linarith

theorem abs_well_le (x : ℝ) : |well x| ≤ 1 := by
  have hpow : 1 ≤ (1 + x * x) ^ (8 : ℝ) :=
    Real.one_le_rpow (by nlinarith [mul_self_nonneg x]) (by norm_num)
  have hquotient : 2 / (1 + x * x) ^ (8 : ℝ) ≤ 2 := by
    rw [div_le_iff₀ (by linarith)]
    linarith
  have hpos : 0 < 2 / (1 + x * x) ^ (8 : ℝ) := by positivity
  have hwell : well x = 1 - 2 / (1 + x * x) ^ (8 : ℝ) := by
    simp only [well, Arithmetic.literal, Arithmetic.pow]
    push_cast
    rfl
  rw [hwell, abs_le]
  constructor <;> linarith

theorem abs_tent_le {x : ℝ} (h : |x| ≤ 1) : |tent x| ≤ 1 := by
  have hnonneg := abs_nonneg x
  simp only [tent, Arithmetic.literal, Arithmetic.abs]
  push_cast
  rw [abs_le]
  constructor <;> linarith

theorem abs_modulo_le {x y : ℝ} (hy0 : y ≠ 0) (hy : |y| ≤ 1) : |modulo x y| ≤ 1 := by
  have hfract : modulo x y = y * Int.fract (x / y) := by
    simp only [modulo, Arithmetic.floor]
    rw [← Int.self_sub_floor]
    field_simp
  rw [hfract, abs_mul, abs_of_nonneg (Int.fract_nonneg (x / y))]
  exact mul_le_one₀ hy (Int.fract_nonneg _) (Int.fract_lt_one _).le

theorem Sum_inUnit (h1 : InUnit c1) (h2 : InUnit c2) : InUnit (Sum c1 c2) := by
  refine average_inUnit ?_ ?_ h1 h2 <;> norm_num [Arithmetic.literal]

theorem Mul_inUnit (h1 : InUnit c1) (h2 : InUnit c2) : InUnit (Mul c1 c2) := by
  have hmul {a b : ℝ} (ha : |a| ≤ 1) (hb : |b| ≤ 1) : |a * b| ≤ 1 := by
    rw [abs_mul]
    exact mul_le_one₀ ha (abs_nonneg b) hb
  exact ⟨hmul h1.1 h2.1, hmul h1.2.1 h2.2.1, hmul h1.2.2 h2.2.2⟩

theorem Not_inUnit (h : InUnit c) : InUnit (Not c) := by
  simpa only [InUnit, Not, abs_neg] using h

theorem Mod_inUnit (h2 : InUnit c2) : InUnit (Mod c1 c2) := by
  rw [Mod]
  split_ifs with hzero
  · simp [InUnit, Arithmetic.literal]
  · simp only [Arithmetic.eq, Arithmetic.literal, Rat.cast_zero, Bool.or_eq_true,
      decide_eq_true_eq, not_or] at hzero
    obtain ⟨⟨hr, hg⟩, hb⟩ := hzero
    exact ⟨abs_modulo_le hr h2.1, abs_modulo_le hg h2.2.1, abs_modulo_le hb h2.2.2⟩

theorem Tent_inUnit (h : InUnit c) : InUnit (Tent c) :=
  ⟨abs_tent_le h.1, abs_tent_le h.2.1, abs_tent_le h.2.2⟩

theorem Well_inUnit (c : Channels ℝ) : InUnit (Well c) :=
  ⟨abs_well_le _, abs_well_le _, abs_well_le _⟩

theorem Sin_inUnit (phase freq : ℝ) (c : Channels ℝ) : InUnit (Sin phase freq c) :=
  ⟨Real.abs_sin_le_one _, Real.abs_sin_le_one _, Real.abs_sin_le_one _⟩

/-- The brightness of a colour is a weight. -/
theorem Mix_inUnit (h : InUnit c) (h1 : InUnit c1) (h2 : InUnit c2) : InUnit (Mix c c1 c2) := by
  obtain ⟨hlow, hhigh⟩ := brightness_mem h
  refine average_inUnit ?_ ?_ h1 h2
  all_goals
    simp only [Arithmetic.literal]
    push_cast
    linarith

theorem Level_inUnit (treshold : ℝ) (c : Channels ℝ) (h1 : InUnit c1) (h2 : InUnit c2) :
    InUnit (Level treshold c c1 c2) := by
  have hchoice {b : Bool} {p q : ℝ} (hp : |p| ≤ 1) (hq : |q| ≤ 1) :
      |if b then p else q| ≤ 1 := by
    split_ifs
    · exact hp
    · exact hq
  exact ⟨hchoice h1.1 h2.1, hchoice h1.2.1 h2.2.1, hchoice h1.2.2 h2.2.2⟩

theorem Closest_inUnit (c : Channels ℝ) (h1 : InUnit c1) (h2 : InUnit c2) :
    InUnit (Closest c c1 c2) := by
  rw [Closest]
  split_ifs
  · exact h1
  · exact h2

end Helper

section Constants

/-- A constant that is not too large does not become too large by rounding. -/
theorem abs_constantValue_le {c : ℚ} (h : |c| ≤ 1) : |(constantValue c : ℝ)| ≤ 1 := by
  have hproduct : |c * 10000| ≤ (10000 : ℕ) := by
    rw [abs_mul]
    norm_num
    linarith
  obtain ⟨hlow, hhigh⟩ := abs_le.mp (abs_nearest_le (nearest_natCast_of_lt (by decide)) hproduct)
  have hk : (tenThousandths c).natAbs ≤ 10000 := by
    have hle : tenThousandths c ≤ 10000 := by
      refine Int.lt_add_one_iff.mp (Int.floor_lt.mpr ?_)
      push_cast at hhigh ⊢
      linarith
    have hge : -10000 ≤ tenThousandths c := by
      refine Int.le_floor.mpr ?_
      push_cast at hlow ⊢
      linarith
    omega
  have hliteral : |((((tenThousandths c).natAbs / 10 ^ 4 : ℚ)) : ℝ)| ≤ 1 := by
    have hcast : ((tenThousandths c).natAbs : ℝ) ≤ 10000 := by exact_mod_cast hk
    push_cast
    rw [abs_of_nonneg (by positivity), div_le_one (by positivity)]
    linarith
  simp only [constantValue, fixedValue, Arithmetic.literal]
  split_ifs
  · rwa [abs_neg]
  · exact hliteral

theorem parseColor_mem (hex : String) :
    (0 ≤ (parseColor hex).r ∧ (parseColor hex).r < 256) ∧
      (0 ≤ (parseColor hex).g ∧ (parseColor hex).g < 256) ∧
        0 ≤ (parseColor hex).b ∧ (parseColor hex).b < 256 := by
  have hmod (n : ℤ) : 0 ≤ n % 256 ∧ n % 256 < 256 :=
    ⟨Int.emod_nonneg n (by decide), Int.emod_lt_of_pos n (by decide)⟩
  exact ⟨hmod _, hmod _, hmod _⟩

theorem abs_centered_le {i : ℤ} (h : 0 ≤ i ∧ i < 256) : |centered i| ≤ 1 := by
  have hi : ((i : ℚ) / 128) = (i : ℤ) / 2 ^ 7 := by norm_num
  have hsub : ((i : ℚ) / 2 ^ 7 - 1) = ((i - 128 : ℤ) : ℚ) / 2 ^ 7 := by
    push_cast
    ring
  have hlow : (0 : ℚ) ≤ i := by exact_mod_cast h.1
  have hhigh : (i : ℚ) < 256 := by exact_mod_cast h.2
  rw [centered, hi, nearest_dyadic 7 _ (by decide), hsub, nearest_dyadic 7 _ (by decide), abs_le]
  · push_cast
    constructor
    · rw [le_div_iff₀ (by positivity)]
      linarith
    · rw [div_le_iff₀ (by positivity)]
      linarith
  · rw [abs_lt]
    constructor <;> omega
  · rw [abs_lt]
    constructor <;> omega

theorem fourFifths_le_one : fourFifths ≤ 1 := by decide +kernel

theorem pi_le_four : pi ≤ 4 := by decide +kernel

end Constants

section Trees

open ExpressionTree

variable {k depth : ℕ} {t : ExpressionTree}

theorem abs_palette_le {hex : String} {c : Channels ℚ} (h : (palette hex c).InRange) :
    |c.r| ≤ 1 ∧ |c.g| ≤ 1 ∧ |c.b| ≤ 1 := by
  obtain ⟨hr, hg, hb⟩ := parseColor_mem hex
  obtain rfl : c = (parseColor hex).map centered := h
  exact ⟨abs_centered_le hr, abs_centered_le hg, abs_centered_le hb⟩

/-- The constants of a tree that was grown are small. -/
theorem ExpressionTree.Grown.constantsLe (h : Grown k depth t) : t.ConstantsLe (2 ^ 34) := by
  have hone : (1 : ℚ) ≤ 2 ^ 34 := by norm_num
  induction h with
  | @leaf t hterminal hrange =>
    cases t with
    | varX | varY | varT => trivial
    | palette hex c =>
      obtain ⟨hr, hg, hb⟩ := abs_palette_le hrange
      exact ⟨hr.trans hone, hg.trans hone, hb.trans hone⟩
    | random c => exact ⟨hrange.1.trans hone, hrange.2.1.trans hone, hrange.2.2.trans hone⟩
    | bw c => exact (hrange.trans fourFifths_le_one).trans hone
    | _ => exact absurd hterminal (by simp [operator, mem_terminals_iff, Operator.arity])
  | @node depth t _ hnonterminal _ hrange _ ih =>
    cases t with
    | varX | varY | varT | palette _ _ | random _ | bw _ =>
      exact absurd hnonterminal (by simp [operator, mem_nonterminals_iff, Operator.arity])
    | not e | tent e | well e => exact ih e (by simp [args])
    | sum e1 e2 | mul e1 e2 | mod e1 e2 => exact ⟨ih e1 (by simp [args]), ih e2 (by simp [args])⟩
    | sin phase freq e =>
      obtain ⟨⟨hphase0, hphase1⟩, hfreq0, hfreq1⟩ := hrange
      have hpi := pi_le_four
      refine ⟨abs_le.mpr ⟨?_, ?_⟩, abs_le.mpr ⟨?_, ?_⟩, ih e (by simp [args])⟩ <;> linarith
    | mix e e1 e2 | closest e e1 e2 =>
      exact ⟨ih e (by simp [args]), ih e1 (by simp [args]), ih e2 (by simp [args])⟩
    | level treshold e e1 e2 =>
      exact ⟨(hrange.trans fourFifths_le_one).trans hone, ih e (by simp [args]),
        ih e1 (by simp [args]), ih e2 (by simp [args])⟩

/-- A tree that was grown keeps the square. -/
theorem ExpressionTree.Grown.color_inUnit (h : Grown k depth t) {x y : ℝ} (hx : |x| ≤ 1)
    (hy : |y| ≤ 1) : InUnit (t.color x y) := by
  induction h with
  | @leaf t hterminal hrange =>
    cases t with
    | varX => exact ⟨hx, hx, hx⟩
    | varY => exact ⟨hy, hy, hy⟩
    | varT => simp [color, InUnit, Arithmetic.literal]
    | palette hex c =>
      obtain ⟨hr, hg, hb⟩ := abs_palette_le hrange
      exact ⟨abs_constantValue_le hr, abs_constantValue_le hg, abs_constantValue_le hb⟩
    | random c =>
      exact ⟨abs_constantValue_le hrange.1, abs_constantValue_le hrange.2.1,
        abs_constantValue_le hrange.2.2⟩
    | bw c =>
      have hc := abs_constantValue_le (hrange.trans fourFifths_le_one)
      exact ⟨hc, hc, hc⟩
    | _ => exact absurd hterminal (by simp [operator, mem_terminals_iff, Operator.arity])
  | @node depth t _ hnonterminal _ _ _ ih =>
    cases t with
    | varX | varY | varT | palette _ _ | random _ | bw _ =>
      exact absurd hnonterminal (by simp [operator, mem_nonterminals_iff, Operator.arity])
    | not e => exact Helper.Not_inUnit (ih e (by simp [args]))
    | tent e => exact Helper.Tent_inUnit (ih e (by simp [args]))
    | well e => exact Helper.Well_inUnit _
    | sum e1 e2 => exact Helper.Sum_inUnit (ih e1 (by simp [args])) (ih e2 (by simp [args]))
    | mul e1 e2 => exact Helper.Mul_inUnit (ih e1 (by simp [args])) (ih e2 (by simp [args]))
    | mod e1 e2 => exact Helper.Mod_inUnit (ih e2 (by simp [args]))
    | sin phase freq e => exact Helper.Sin_inUnit _ _ _
    | mix e e1 e2 =>
      exact Helper.Mix_inUnit (ih e (by simp [args])) (ih e1 (by simp [args]))
        (ih e2 (by simp [args]))
    | closest e e1 e2 =>
      exact Helper.Closest_inUnit _ (ih e1 (by simp [args])) (ih e2 (by simp [args]))
    | level treshold e e1 e2 =>
      exact Helper.Level_inUnit _ _ (ih e1 (by simp [args])) (ih e2 (by simp [args]))

end Trees

end RandomArt.Formula
