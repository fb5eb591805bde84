import RandomArt.RegionMap
import Mathlib.Algebra.Order.Round
import Mathlib.Algebra.Order.Field.Rat
import Mathlib.Data.Rat.Floor
import Mathlib.Data.Nat.Cast.Field
import Mathlib.Tactic.Linarith
import Mathlib.Tactic.Positivity
import Mathlib.Tactic.FieldSimp

/-!
# Paint geometry

The geometry of a painting pairs the borders of a region with the pixel size of
its image. Border arithmetic is exact, so a quotient by an empty extent has no
counterpart here; every result below assumes borders with a proper extent.
-/

namespace RandomArt

structure PaintResolution where
  pixelWidth : ℕ
  pixelHeight : ℕ
  pixelSize : ℕ
  deriving DecidableEq

structure PlotMapGeometry where
  boundary : RegionBoundaries
  imageSize : PaintResolution
  deriving DecidableEq

namespace PaintGeometry

/-- The rejections of `assertValidPaintGeometry`, with the values their messages quote. -/
inductive GeometryError where
  | notDivisible (pixelWidth pixelHeight pixelSize : ℕ)
  | aspectMismatch (geometry : PlotMapGeometry) (spatialWidth spatialHeight : ℚ)
      (logicalWidth logicalHeight : ℚ) (idealWidth idealHeight : ℤ)
  deriving DecidableEq

def assertValidPaintGeometry (geometry : PlotMapGeometry) : Except GeometryError Unit :=
  let pixelWidth := geometry.imageSize.pixelWidth
  let pixelHeight := geometry.imageSize.pixelHeight
  let pixelSize := geometry.imageSize.pixelSize
  let spatialHeight := geometry.boundary.top - geometry.boundary.bottom
  let spatialWidth := geometry.boundary.right - geometry.boundary.left
  if 0 < pixelWidth % pixelSize ∨ 0 < pixelHeight % pixelSize then
    .error (.notDivisible pixelWidth pixelHeight pixelSize)
  else
    -- the two logical extents are named the wrong way round in the source
    let logicalHeight : ℚ := pixelWidth / pixelSize
    let logicalWidth : ℚ := pixelHeight / pixelSize
    let idealHeight : ℤ := round (logicalWidth / (spatialWidth / spatialHeight))
    let idealWidth : ℤ := round (logicalHeight * (spatialWidth / spatialHeight))
    if (idealWidth : ℚ) ≠ logicalWidth ∨ (idealHeight : ℚ) ≠ logicalHeight then
      .error (.aspectMismatch geometry spatialWidth spatialHeight logicalWidth logicalHeight
        idealWidth idealHeight)
    else .ok ()

def Accepts (geometry : PlotMapGeometry) : Prop := assertValidPaintGeometry geometry = .ok ()

instance (geometry : PlotMapGeometry) : Decidable (Accepts geometry) := by
  rw [Accepts]
  infer_instance

/-- `w` columns by `h` rows approximate the ratio of width to height as closely as
whole numbers can, seen from either side. -/
def AspectConsistent (w h : ℕ) (ratio : ℚ) : Prop :=
  (w : ℤ) = round (h * ratio) ∧ (h : ℤ) = round (w / ratio)

instance (w h : ℕ) (ratio : ℚ) : Decidable (AspectConsistent w h ratio) := by
  rw [AspectConsistent]
  infer_instance

/-- Width over height of the region. -/
def spatialRatio (boundary : RegionBoundaries) : ℚ :=
  (boundary.right - boundary.left) / (boundary.top - boundary.bottom)

/-- What the validation expects of its caller: whole logical pixels and a proper region. -/
structure WellFormed (geometry : PlotMapGeometry) : Prop where
  width_pos : 0 < geometry.imageSize.pixelWidth
  height_pos : 0 < geometry.imageSize.pixelHeight
  size_dvd_width : geometry.imageSize.pixelSize ∣ geometry.imageSize.pixelWidth
  size_dvd_height : geometry.imageSize.pixelSize ∣ geometry.imageSize.pixelHeight
  top_gt : geometry.boundary.bottom < geometry.boundary.top
  right_gt : geometry.boundary.left < geometry.boundary.right

def logicalColumns (geometry : PlotMapGeometry) : ℕ :=
  geometry.imageSize.pixelWidth / geometry.imageSize.pixelSize

def logicalRows (geometry : PlotMapGeometry) : ℕ :=
  geometry.imageSize.pixelHeight / geometry.imageSize.pixelSize

theorem spatialRatio_pos {geometry : PlotMapGeometry} (hg : WellFormed geometry) :
    0 < spatialRatio geometry.boundary :=
  div_pos (sub_pos.mpr hg.right_gt) (sub_pos.mpr hg.top_gt)

theorem pixelSize_pos {geometry : PlotMapGeometry} (hg : WellFormed geometry) :
    0 < geometry.imageSize.pixelSize :=
  Nat.pos_of_dvd_of_pos hg.size_dvd_width hg.width_pos

/-- The validation tests the aspect of the transposed image. -/
theorem accepts_iff {geometry : PlotMapGeometry} (hg : WellFormed geometry) :
    Accepts geometry ↔
      AspectConsistent (logicalRows geometry) (logicalColumns geometry)
        (spatialRatio geometry.boundary) := by
  have hcols : ((geometry.imageSize.pixelWidth : ℚ) / geometry.imageSize.pixelSize) =
      (logicalColumns geometry : ℚ) := (Nat.cast_div_charZero hg.size_dvd_width).symm
  have hrows : ((geometry.imageSize.pixelHeight : ℚ) / geometry.imageSize.pixelSize) =
      (logicalRows geometry : ℚ) := (Nat.cast_div_charZero hg.size_dvd_height).symm
  have hdvd : ¬(0 < geometry.imageSize.pixelWidth % geometry.imageSize.pixelSize ∨
      0 < geometry.imageSize.pixelHeight % geometry.imageSize.pixelSize) := by
    simp [Nat.mod_eq_zero_of_dvd hg.size_dvd_width, Nat.mod_eq_zero_of_dvd hg.size_dvd_height]
  unfold Accepts assertValidPaintGeometry AspectConsistent spatialRatio
  simp only [hdvd, if_false, hcols, hrows]
  have hcast : ∀ n : ℕ, (n : ℚ) = ((n : ℤ) : ℚ) := fun n => (Int.cast_natCast n).symm
  rw [hcast (logicalColumns geometry), hcast (logicalRows geometry)]
  simp only [ne_eq, Int.cast_inj]
  split_ifs with h
  · simp only [false_iff, not_and_or]
    exact h.imp (fun h' he => h' he.symm) (fun h' he => h' he.symm)
  · simp only [not_or, not_not] at h
    exact ⟨fun _ => ⟨h.1.symm, h.2.symm⟩, fun _ => rfl⟩

private theorem le_round_of_le {a : ℕ} {x : ℚ} (h : (a : ℚ) ≤ x) : (a : ℤ) ≤ round x := by
  have hmono : round ((a : ℤ) : ℚ) ≤ round x := by
    rw [round_eq, round_eq]
    exact Int.floor_le_floor (by push_cast; linarith)
  simpa using hmono

/-- Only a square image can match a ratio both upright and transposed. -/
theorem eq_of_aspectConsistent_swap {w h : ℕ} {ratio : ℚ} (hr : 0 < ratio)
    (hup : AspectConsistent w h ratio) (hswap : AspectConsistent h w ratio) : w = h := by
  have hw : (0 : ℚ) ≤ w := Nat.cast_nonneg w
  have hh : (0 : ℚ) ≤ h := Nat.cast_nonneg h
  rcases le_total 1 ratio with hge | hle
  · have hwh : (h : ℤ) ≤ w := hup.1 ▸ le_round_of_le (le_mul_of_one_le_right hh hge)
    have hhw : (w : ℤ) ≤ h := hswap.1 ▸ le_round_of_le (le_mul_of_one_le_right hw hge)
    omega
  · have hhw : (w : ℤ) ≤ h := hup.2 ▸ le_round_of_le (by rw [le_div_iff₀ hr]; nlinarith)
    have hwh : (h : ℤ) ≤ w := hswap.2 ▸ le_round_of_le (by rw [le_div_iff₀ hr]; nlinarith)
    omega

/-- An image with exactly the proportions of its region is consistent with them. -/
theorem aspectConsistent_of_exact {w h : ℕ} {ratio : ℚ} (hw : 0 < w) (hh : 0 < h)
    (hexact : (w : ℚ) / h = ratio) : AspectConsistent w h ratio := by
  have hw' : (w : ℚ) ≠ 0 := by positivity
  have hh' : (h : ℚ) ≠ 0 := by positivity
  subst hexact
  have hround : ∀ n : ℕ, round (n : ℚ) = (n : ℤ) := fun n => round_natCast n
  refine ⟨?_, ?_⟩
  · rw [mul_div_cancel₀ _ hh', hround]
  · rw [div_div_cancel₀ hw', hround]

end PaintGeometry

end RandomArt
