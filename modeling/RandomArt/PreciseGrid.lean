import RandomArt.FallibleFold
import Mathlib.Algebra.Order.Field.Basic
import Mathlib.Algebra.Order.Field.Rat
import Mathlib.Tactic.Linarith
import Mathlib.Tactic.NormNum

/-!
# Plot regions in the proportions of their pixels

A region whose ratio of height to width differs from that of the pixels is fitted or filled, by
scaling one of its sides. The scale is applied to both borders of the side as they are, so the
side is scaled about the origin and not about its own middle.
-/

namespace RandomArt.PreciseGrid

open FallibleFold

structure Region where
  bottom : ℚ
  top : ℚ
  left : ℚ
  right : ℚ
  deriving DecidableEq

namespace Region

def height (region : Region) : ℚ := region.top - region.bottom

def width (region : Region) : ℚ := region.right - region.left

/-- Height over width. -/
def ratio (region : Region) : ℚ := region.height / region.width

def Proper (region : Region) : Prop := region.left < region.right ∧ region.bottom < region.top

def Within (inner outer : Region) : Prop :=
  outer.bottom ≤ inner.bottom ∧ inner.top ≤ outer.top ∧
    outer.left ≤ inner.left ∧ inner.right ≤ outer.right

def ContainsOrigin (region : Region) : Prop :=
  (region.bottom ≤ 0 ∧ 0 ≤ region.top) ∧ region.left ≤ 0 ∧ 0 ≤ region.right

end Region

inductive Failure where
  | zeroDivision
  | ratioMismatch (pixelRatio ratio : ℚ)
  | unknownMode (fixBy : String)
  deriving DecidableEq

section Model

def quotient (x y : ℚ) : Except Failure ℚ := if y = 0 then .error .zeroDivision else .ok (x / y)

def divideHeight (fixScale : ℚ) (region : Region) : Except Failure Region := do
  let top ← quotient region.top fixScale
  let bottom ← quotient region.bottom fixScale
  return { region with bottom, top }

def multiplyWidth (fixScale : ℚ) (region : Region) : Region :=
  { region with left := region.left * fixScale, right := region.right * fixScale }

/-- Fix a region of other proportions by scaling one of its sides. -/
def fixProportions (pixelRatio ratio : ℚ) (region : Region) (fixBy : String) :
    Except Failure Region := do
  let fixScale ← quotient ratio pixelRatio
  if fixBy = "to_fit" then
    if pixelRatio < ratio then divideHeight fixScale region
    else .ok (multiplyWidth fixScale region)
  else if fixBy = "to_fill" then
    if pixelRatio > ratio then divideHeight fixScale region
    else .ok (multiplyWidth fixScale region)
  else .error (.unknownMode fixBy)

/-- The mode is `matched` when the caller names none. -/
def checkProportions (pixelWidth pixelHeight : ℚ) (region : Region) (fixBy : String) :
    Except Failure Region := do
  let pixelRatio ← quotient pixelHeight pixelWidth
  let ratio ← quotient region.height region.width
  if ratio = pixelRatio then .ok region
  else if fixBy = "matched" then .error (.ratioMismatch pixelRatio ratio)
  else fixProportions pixelRatio ratio region fixBy

end Model

section Scale

def multiplyHeight (c : ℚ) (region : Region) : Region :=
  { region with bottom := region.bottom * c, top := region.top * c }

variable {x y c : ℚ}

theorem le_mul_iff_nonpos (hc : c < 1) : x ≤ x * c ↔ x ≤ 0 := by
  constructor
  · intro h
    by_contra hpos
    nlinarith [mul_pos (not_le.mp hpos) (sub_pos.mpr hc)]
  · intro h
    nlinarith [mul_nonneg (neg_nonneg.mpr h) (sub_pos.mpr hc).le]

/-- A side that is shrunk about the origin stays within itself when the origin is on it. -/
theorem shrunk_within_iff (hc : c < 1) : (x ≤ x * c ∧ y * c ≤ y) ↔ (x ≤ 0 ∧ 0 ≤ y) := by
  have hy := le_mul_iff_nonpos (x := -y) hc
  rw [neg_mul, neg_le_neg_iff, neg_nonpos] at hy
  rw [le_mul_iff_nonpos hc, hy]

theorem stretched_within_iff (hc : 1 < c) : (x * c ≤ x ∧ y ≤ y * c) ↔ (x ≤ 0 ∧ 0 ≤ y) := by
  have hpos : 0 < c := one_pos.trans hc
  have hinv : c⁻¹ < 1 := inv_lt_one_of_one_lt₀ hc
  have hshrunk := shrunk_within_iff (x := x * c) (y := y * c) hinv
  rw [mul_inv_cancel_right₀ hpos.ne', mul_inv_cancel_right₀ hpos.ne'] at hshrunk
  have hneg := mul_nonneg_iff_of_pos_right (b := -x) hpos
  rw [neg_mul, neg_nonneg, neg_nonneg] at hneg
  rw [hshrunk, hneg, mul_nonneg_iff_of_pos_right hpos]

theorem divideHeight_eq (hc : c ≠ 0) (region : Region) :
    divideHeight c region = .ok (multiplyHeight c⁻¹ region) := by
  simp only [divideHeight, quotient, if_neg hc, multiplyHeight, div_eq_mul_inv]
  rfl

theorem ratio_multiplyHeight (region : Region) (c : ℚ) :
    (multiplyHeight c region).ratio = region.ratio * c := by
  simp only [Region.ratio, Region.height, Region.width, multiplyHeight, ← sub_mul,
    mul_div_right_comm]

theorem ratio_multiplyWidth (region : Region) (c : ℚ) :
    (multiplyWidth c region).ratio = region.ratio / c := by
  simp only [Region.ratio, Region.height, Region.width, multiplyWidth, ← sub_mul, div_div]

theorem multiplyHeight_within_iff {region : Region} (hc : c < 1) :
    (multiplyHeight c region).Within region ↔ region.bottom ≤ 0 ∧ 0 ≤ region.top := by
  rw [← shrunk_within_iff hc]
  simp [Region.Within, multiplyHeight]

theorem multiplyWidth_within_iff {region : Region} (hc : c < 1) :
    (multiplyWidth c region).Within region ↔ region.left ≤ 0 ∧ 0 ≤ region.right := by
  rw [← shrunk_within_iff hc]
  simp [Region.Within, multiplyWidth]

theorem within_multiplyHeight_iff {region : Region} (hc : 1 < c) :
    region.Within (multiplyHeight c region) ↔ region.bottom ≤ 0 ∧ 0 ≤ region.top := by
  rw [← stretched_within_iff hc]
  simp [Region.Within, multiplyHeight]

theorem within_multiplyWidth_iff {region : Region} (hc : 1 < c) :
    region.Within (multiplyWidth c region) ↔ region.left ≤ 0 ∧ 0 ≤ region.right := by
  rw [← stretched_within_iff hc]
  simp [Region.Within, multiplyWidth]

end Scale

section Adjustment

/-- What the three modes should make of a region. -/
structure AdjustsCorrectly (pixelWidth pixelHeight : ℚ) (region : Region) : Prop where
  toFit : ∃ fitted, checkProportions pixelWidth pixelHeight region "to_fit" = .ok fitted ∧
    fitted.ratio = pixelHeight / pixelWidth ∧ fitted.Within region
  toFill : ∃ filled, checkProportions pixelWidth pixelHeight region "to_fill" = .ok filled ∧
    filled.ratio = pixelHeight / pixelWidth ∧ region.Within filled
  matched : region.ratio = pixelHeight / pixelWidth →
    checkProportions pixelWidth pixelHeight region "matched" = .ok region
  unmatched : region.ratio ≠ pixelHeight / pixelWidth →
    ∃ failure, checkProportions pixelWidth pixelHeight region "matched" = .error failure

variable {pixelWidth pixelHeight : ℚ} {region : Region}

theorem quotient_of_ne {x y : ℚ} (hy : y ≠ 0) : quotient x y = .ok (x / y) := if_neg hy

section Modes

variable (hw : 0 < pixelWidth) (hh : 0 < pixelHeight) (hproper : region.Proper)
include hw hproper

theorem checkProportions_eq (fixBy : String) :
    checkProportions pixelWidth pixelHeight region fixBy =
      if region.ratio = pixelHeight / pixelWidth then .ok region
      else if fixBy = "matched" then
        .error (.ratioMismatch (pixelHeight / pixelWidth) region.ratio)
      else fixProportions (pixelHeight / pixelWidth) region.ratio region fixBy := by
  have hwidth : region.width ≠ 0 := (sub_pos.mpr hproper.1).ne'
  rw [checkProportions]
  exact (bind_of_ok (quotient_of_ne hw.ne')).trans (bind_of_ok (quotient_of_ne hwidth))

omit hw in
theorem ratio_pos : 0 < region.ratio :=
  div_pos (sub_pos.mpr hproper.2) (sub_pos.mpr hproper.1)

omit hw hproper in
/-- The ratio comes out right, whichever side is scaled. -/
theorem ratio_scaled (p : ℚ) (hratio : region.ratio ≠ 0) :
    (multiplyHeight (region.ratio / p)⁻¹ region).ratio = p ∧
      (multiplyWidth (region.ratio / p) region).ratio = p := by
  rw [ratio_multiplyHeight, ratio_multiplyWidth, ← div_eq_mul_inv, div_div_cancel₀ hratio]
  exact ⟨rfl, rfl⟩

end Modes

section Fix

variable {p r : ℚ} (hp : 0 < p) (hr : 0 < r) (region : Region)
include hp hr

theorem fixProportions_toFit : fixProportions p r region "to_fit" =
    .ok (if p < r then multiplyHeight (r / p)⁻¹ region else multiplyWidth (r / p) region) := by
  rw [fixProportions]
  refine (bind_of_ok (quotient_of_ne hp.ne')).trans ?_
  rw [if_pos rfl, divideHeight_eq (div_pos hr hp).ne']
  split_ifs <;> rfl

theorem fixProportions_toFill : fixProportions p r region "to_fill" =
    .ok (if p > r then multiplyHeight (r / p)⁻¹ region else multiplyWidth (r / p) region) := by
  rw [fixProportions]
  refine (bind_of_ok (quotient_of_ne hp.ne')).trans ?_
  rw [if_neg (by decide), if_pos rfl, divideHeight_eq (div_pos hr hp).ne']
  split_ifs <;> rfl

variable {region} (hne : r ≠ p)
include hne

omit hr in
theorem fitted_within_iff :
    (if p < r then multiplyHeight (r / p)⁻¹ region
      else multiplyWidth (r / p) region).Within region ↔
      if p < r then region.bottom ≤ 0 ∧ 0 ≤ region.top else region.left ≤ 0 ∧ 0 ≤ region.right := by
  split_ifs with hlt
  · exact multiplyHeight_within_iff (inv_lt_one_of_one_lt₀ ((one_lt_div hp).mpr hlt))
  · exact multiplyWidth_within_iff ((div_lt_one hp).mpr (lt_of_le_of_ne (not_lt.mp hlt) hne))

theorem within_filled_iff :
    region.Within
        (if p > r then multiplyHeight (r / p)⁻¹ region else multiplyWidth (r / p) region) ↔
      if p > r then region.bottom ≤ 0 ∧ 0 ≤ region.top else region.left ≤ 0 ∧ 0 ≤ region.right := by
  split_ifs with hlt
  · exact within_multiplyHeight_iff ((one_lt_inv₀ (div_pos hr hp)).mpr ((div_lt_one hp).mpr hlt))
  · exact within_multiplyWidth_iff ((one_lt_div hp).mpr (lt_of_le_of_ne (not_lt.mp hlt) hne.symm))

/-- Together, fitting and filling scale both sides of a region. -/
theorem both_within_iff :
    ((if p < r then multiplyHeight (r / p)⁻¹ region else multiplyWidth (r / p) region).Within
        region ∧
      region.Within
        (if p > r then multiplyHeight (r / p)⁻¹ region else multiplyWidth (r / p) region)) ↔
      region.ContainsOrigin := by
  rw [fitted_within_iff hp hne, within_filled_iff hp hr hne, Region.ContainsOrigin]
  rcases lt_or_gt_of_ne hne with hlt | hlt
  · rw [if_neg hlt.not_gt, if_pos hlt, and_comm]
  · rw [if_pos hlt, if_neg hlt.not_gt]

end Fix

section Result

variable (hw : 0 < pixelWidth) (hh : 0 < pixelHeight) (hproper : region.Proper)
include hw hproper

theorem matched_unchanged (fixBy : String) (heq : region.ratio = pixelHeight / pixelWidth) :
    checkProportions pixelWidth pixelHeight region fixBy = .ok region := by
  rw [checkProportions_eq hw hproper, if_pos heq]

theorem matched_raises (hne : region.ratio ≠ pixelHeight / pixelWidth) :
    checkProportions pixelWidth pixelHeight region "matched" =
      .error (.ratioMismatch (pixelHeight / pixelWidth) region.ratio) := by
  rw [checkProportions_eq hw hproper, if_neg hne, if_pos rfl]

include hh

/-- In other proportions than the pixels, a region is adjusted correctly when it contains the
origin. -/
theorem adjusts_iff_containsOrigin (hne : region.ratio ≠ pixelHeight / pixelWidth) :
    AdjustsCorrectly pixelWidth pixelHeight region ↔ region.ContainsOrigin := by
  have hp : 0 < pixelHeight / pixelWidth := div_pos hh hw
  have hr := ratio_pos hproper
  have hfit : checkProportions pixelWidth pixelHeight region "to_fit" = _ :=
    (checkProportions_eq hw hproper _).trans
      ((if_neg hne).trans ((if_neg (by decide)).trans (fixProportions_toFit hp hr region)))
  have hfill : checkProportions pixelWidth pixelHeight region "to_fill" = _ :=
    (checkProportions_eq hw hproper _).trans
      ((if_neg hne).trans ((if_neg (by decide)).trans (fixProportions_toFill hp hr region)))
  obtain ⟨hheight, hwidth⟩ := ratio_scaled (pixelHeight / pixelWidth) hr.ne'
  rw [← both_within_iff hp hr hne]
  constructor
  · intro h
    obtain ⟨fitted, hfitted, -, hwithin⟩ := h.toFit
    obtain ⟨filled, hfilled, -, hwithin'⟩ := h.toFill
    rw [hfit, Except.ok.injEq] at hfitted
    rw [hfill, Except.ok.injEq] at hfilled
    rw [hfitted, hfilled]
    exact ⟨hwithin, hwithin'⟩
  · rintro ⟨hwithin, hwithin'⟩
    refine ⟨⟨_, hfit, ?_, hwithin⟩, ⟨_, hfill, ?_, hwithin'⟩, fun heq => absurd heq hne,
      fun hne => ⟨_, matched_raises hw hproper hne⟩⟩
    · split_ifs
      · exact hheight
      · exact hwidth
    · split_ifs
      · exact hheight
      · exact hwidth

/-- A region is adjusted correctly exactly when it has the proportions of the pixels already or
contains the origin. -/
theorem adjustsCorrectly_iff :
    AdjustsCorrectly pixelWidth pixelHeight region ↔
      region.ratio = pixelHeight / pixelWidth ∨ region.ContainsOrigin := by
  by_cases heq : region.ratio = pixelHeight / pixelWidth
  · have hself : region.Within region := ⟨le_rfl, le_rfl, le_rfl, le_rfl⟩
    have hok (fixBy : String) := matched_unchanged hw hproper fixBy heq
    rw [iff_true_intro (Or.inl heq), iff_true]
    exact ⟨⟨region, hok _, heq, hself⟩, ⟨region, hok _, heq, hself⟩, fun _ => hok _,
      fun hne => absurd heq hne⟩
  · rw [adjusts_iff_containsOrigin hw hh hproper heq, or_iff_right heq]

end Result

/-- A square away from the origin, and one around it. -/
def farSquare : Region := ⟨1, 2, 1, 2⟩

def middleSquare : Region := ⟨-1, 1, -1, 1⟩

theorem adjustsCorrectly_middleSquare : AdjustsCorrectly 2 1 middleSquare := by
  have hproper : middleSquare.Proper := by
    constructor <;> decide
  apply (adjustsCorrectly_iff two_pos one_pos hproper).mpr
  right
  refine ⟨⟨?_, ?_⟩, ?_, ?_⟩ <;> decide

theorem farSquare_not_adjustsCorrectly : farSquare.Proper ∧ ¬AdjustsCorrectly 2 1 farSquare := by
  have hproper : farSquare.Proper := by
    constructor <;> decide
  refine ⟨hproper, fun h => ?_⟩
  have hne : farSquare.ratio ≠ 1 / 2 := by
    norm_num [Region.ratio, Region.height, Region.width, farSquare]
  have horigin := (adjusts_iff_containsOrigin two_pos one_pos hproper hne).mp h
  exact absurd horigin.1.1 (by decide)

end Adjustment

end RandomArt.PreciseGrid
