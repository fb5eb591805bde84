import Mathlib.Data.List.Basic
import Mathlib.Data.Rat.Defs
import Mathlib.Tactic.Ring

/-!
# Region maps and their plotters

A region map stores the coordinates of its pixels either once for every column
and row (uniform) or once for every pixel. `directPlotter` hands a plotter the
coordinates of a slice of the rows; an index outside a list reads as undefined.
-/

namespace RandomArt

structure RegionBoundaries where
  top : ℚ
  bottom : ℚ
  left : ℚ
  right : ℚ
  deriving DecidableEq

structure RegionMap (Coord : Type*) where
  pixelHeight : ℕ
  pixelWidth : ℕ
  pixelSize : ℕ
  columnOrderedXCoordinates : List Coord
  columnOrderedYCoordinates : List Coord
  isUniform : Bool
  regionBoundary : RegionBoundaries

/-- The receiver of a plot run: one `plot` for each pixel, then one `finish`. -/
structure RegionPlotter (σ Coord ε : Type*) where
  plot : σ → Option Coord → Option Coord → σ
  finish : σ → Except ε σ

namespace RegionMap

variable {Coord σ ε : Type*} (map : RegionMap Coord)

/-- The arguments of the `plot` calls that `directPlotter` makes, in order. -/
def plotCalls (fromY untilY : ℕ) : List (Option Coord × Option Coord) :=
  let xMax := map.pixelWidth
  let yMax := min untilY map.pixelHeight
  let xCols := map.columnOrderedXCoordinates
  let yCols := map.columnOrderedYCoordinates
  if map.isUniform then
    (List.range' fromY (yMax - fromY)).flatMap fun nextY =>
      (List.range xMax).map fun nextX => (xCols[nextX]?, yCols[nextY]?)
  else
    (List.range' (xMax * fromY) (xMax * yMax - xMax * fromY)).map fun ii => (xCols[ii]?, yCols[ii]?)

def directPlotter (plotter : RegionPlotter σ Coord ε) (start : σ) (fromY untilY : ℕ) :
    Except ε σ :=
  plotter.finish ((map.plotCalls fromY untilY).foldl (fun s c => plotter.plot s c.1 c.2) start)

/-- The coordinate lists have the lengths their storage shape calls for. -/
def Consistent : Prop :=
  if map.isUniform then
    map.columnOrderedXCoordinates.length = map.pixelWidth ∧
      map.columnOrderedYCoordinates.length = map.pixelHeight
  else
    map.columnOrderedXCoordinates.length = map.pixelWidth * map.pixelHeight ∧
      map.columnOrderedYCoordinates.length = map.pixelWidth * map.pixelHeight

instance : Decidable map.Consistent := by
  rw [Consistent]
  infer_instance

def sample (x y : ℕ) : Option Coord × Option Coord :=
  if map.isUniform then
    (map.columnOrderedXCoordinates[x]?, map.columnOrderedYCoordinates[y]?)
  else
    (map.columnOrderedXCoordinates[map.pixelWidth * y + x]?,
      map.columnOrderedYCoordinates[map.pixelWidth * y + x]?)

def rowCalls (y : ℕ) : List (Option Coord × Option Coord) :=
  (List.range map.pixelWidth).map fun x => map.sample x y

@[simp] theorem length_rowCalls (y : ℕ) : (map.rowCalls y).length = map.pixelWidth := by
  simp [rowCalls]

private theorem map_range'_mul {α : Type*} (f : ℕ → α) (w a n : ℕ) :
    (List.range' (w * a) (w * n)).map f =
      (List.range' a n).flatMap fun y => (List.range w).map fun x => f (w * y + x) := by
  induction n generalizing a with
  | zero => simp
  | succ n ih =>
    have hsplit : List.range' (w * a) (w * (n + 1)) =
        List.range' (w * a) w ++ List.range' (w * (a + 1)) (w * n) := by
      rw [Nat.mul_succ, Nat.mul_succ, Nat.add_comm (w * n), List.range'_append_1]
    rw [hsplit, List.map_append, ih, List.range'_succ, List.flatMap_cons, List.range'_eq_map_range,
      List.map_map]
    rfl

/-- A plot run visits the rows of its slice in order, and each row from left to right. -/
theorem plotCalls_eq (fromY untilY : ℕ) :
    map.plotCalls fromY untilY =
      (List.range' fromY (min untilY map.pixelHeight - fromY)).flatMap map.rowCalls := by
  rw [plotCalls]
  cases hu : map.isUniform with
  | true =>
    simp only [if_true]
    congr 1
    funext y
    simp [rowCalls, sample, hu]
  | false =>
    simp only [Bool.false_eq_true, if_false]
    rw [← Nat.mul_sub, map_range'_mul]
    congr 1
    funext y
    simp [rowCalls, sample, hu]

@[simp] theorem length_plotCalls (fromY untilY : ℕ) :
    (map.plotCalls fromY untilY).length =
      map.pixelWidth * (min untilY map.pixelHeight - fromY) := by
  rw [plotCalls_eq, List.length_flatMap]
  simp [Nat.mul_comm]

/-- Consecutive slices plot together what the slice covering both plots. -/
theorem plotCalls_append {a b c : ℕ} (hab : a ≤ b) (hbc : b ≤ c) (hc : b ≤ map.pixelHeight) :
    map.plotCalls a b ++ map.plotCalls b c = map.plotCalls a c := by
  simp only [plotCalls_eq]
  rw [← List.flatMap_append, Nat.min_eq_left hc]
  have hb : b = a + (b - a) := by omega
  have hstart : List.range' b (min c map.pixelHeight - b) =
      List.range' (a + (b - a)) (min c map.pixelHeight - b) := by rw [← hb]
  rw [hstart, List.range'_append_1]
  congr 2
  omega

/-- Every pixel of an image with consistent lists has both coordinates. -/
theorem sample_defined (hmap : map.Consistent) {x y : ℕ} (hx : x < map.pixelWidth)
    (hy : y < map.pixelHeight) : ∃ a b, map.sample x y = (some a, some b) := by
  rw [Consistent] at hmap
  rw [sample]
  split_ifs at hmap ⊢ with hu
  · exact ⟨_, _, by rw [List.getElem?_eq_getElem (hmap.1 ▸ hx),
      List.getElem?_eq_getElem (hmap.2 ▸ hy)]⟩
  · have hlt : map.pixelWidth * y + x < map.pixelWidth * map.pixelHeight := by
      have := Nat.mul_le_mul_left map.pixelWidth (Nat.succ_le_of_lt hy)
      rw [Nat.mul_succ] at this
      omega
    exact ⟨_, _, by rw [List.getElem?_eq_getElem (hmap.1 ▸ hlt),
      List.getElem?_eq_getElem (hmap.2 ▸ hlt)]⟩

theorem exists_coords_of_mem_plotCalls (hmap : map.Consistent) {a b : ℕ}
    {c : Option Coord × Option Coord} (hc : c ∈ map.plotCalls a b) :
    ∃ x y, c = (some x, some y) := by
  rw [plotCalls_eq] at hc
  obtain ⟨y, hy, hc⟩ := List.mem_flatMap.mp hc
  obtain ⟨x, hx, rfl⟩ := List.mem_map.mp hc
  have hy' := List.mem_range'_1.mp hy
  exact map.sample_defined hmap (List.mem_range.mp hx) (by omega)

end RegionMap

end RandomArt
