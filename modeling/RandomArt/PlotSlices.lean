import RandomArt.RegionMap
import Mathlib.Data.List.Chain
import Mathlib.Data.List.Nodup
import Mathlib.Data.List.ProdSigma
import Mathlib.Tactic.Push

/-!
# Slices of a plot run, and the old plotter

A region map is plotted in slices of its rows. Consecutive slices make the calls of the whole
run, which visits the grid row by row. The plotter that was in use before walks the lists in
loops of its own, whose counters start at -1 and are incremented before each test.
-/

namespace RandomArt.RegionMap

variable {Coord σ ε : Type*} (map : RegionMap Coord)

/-- The pixels of a map, row by row and each row from left to right, as row and column. -/
def gridPoints : List (ℕ × ℕ) := List.range map.pixelHeight ×ˢ List.range map.pixelWidth

section Slices

theorem plotCalls_of_height_le (fromY : ℕ) {untilY : ℕ} (h : map.pixelHeight ≤ untilY) :
    map.plotCalls fromY untilY = map.plotCalls fromY map.pixelHeight := by
  rw [plotCalls_eq, plotCalls_eq, Nat.min_eq_right h, Nat.min_self]

theorem plotCalls_self (fromY : ℕ) : map.plotCalls fromY fromY = [] := by
  have hempty : min fromY map.pixelHeight - fromY = 0 := by omega
  rw [plotCalls_eq, hempty]
  rfl

/-- Slices from cut to cut plot what the slice from the first to the last cut plots. -/
theorem flatMap_plotCalls {first last : ℕ} {cuts : List ℕ}
    (hchain : (first :: cuts).IsChain (· ≤ ·)) (hlast : (first :: cuts).getLast? = some last)
    (hle : last ≤ map.pixelHeight) :
    (((first :: cuts).zip cuts).flatMap fun cut => map.plotCalls cut.1 cut.2) =
      map.plotCalls first last := by
  induction cuts generalizing first with
  | nil =>
    obtain rfl : first = last := by simpa using hlast
    exact (map.plotCalls_self first).symm
  | cons next cuts ih =>
    obtain ⟨hstep, hrest⟩ := List.isChain_cons_cons.mp hchain
    rw [List.getLast?_cons_cons] at hlast
    have hnext : next ≤ last := by
      rcases List.mem_cons.mp (List.mem_of_getLast? hlast) with rfl | hmem
      · exact le_rfl
      · exact hrest.rel_cons hmem
    rw [List.zip_cons_cons, List.flatMap_cons, ih hrest hlast]
    exact map.plotCalls_append hstep hnext (hnext.trans hle)

theorem plotCalls_eq_map_gridPoints :
    map.plotCalls 0 map.pixelHeight =
      map.gridPoints.map fun point => map.sample point.2 point.1 := by
  rw [plotCalls_eq, Nat.min_self, Nat.sub_zero, ← List.range_eq_range', gridPoints]
  change _ = ((List.range map.pixelHeight).flatMap fun y =>
    (List.range map.pixelWidth).map (Prod.mk y)).map _
  rw [List.map_flatMap]
  congr 1
  funext y
  rw [rowCalls, List.map_map]
  rfl

theorem count_gridPoints (y x : ℕ) :
    map.gridPoints.count (y, x) = if y < map.pixelHeight ∧ x < map.pixelWidth then 1 else 0 := by
  have hnodup : map.gridPoints.Nodup := List.nodup_range.product List.nodup_range
  have hmem : (y, x) ∈ map.gridPoints ↔ y < map.pixelHeight ∧ x < map.pixelWidth := by
    simp [gridPoints]
  rw [hnodup.count]
  simp only [hmem]

/-- Plotting slice by slice: the calls of the slices are those of the whole run, they visit the
grid row by row, each pixel once and with both coordinates, and a slice ends with the image. -/
theorem plotCalls_sliced (hmap : map.Consistent) (cuts : List ℕ) (hchain : cuts.IsChain (· ≤ ·))
    (hfirst : cuts.head? = some 0) (hlast : cuts.getLast? = some map.pixelHeight) :
    ((cuts.zip cuts.tail).flatMap fun cut => map.plotCalls cut.1 cut.2) =
      map.plotCalls 0 map.pixelHeight ∧
    map.plotCalls 0 map.pixelHeight =
      (map.gridPoints.map fun point => map.sample point.2 point.1) ∧
    (∀ y x, map.gridPoints.count (y, x) =
      if y < map.pixelHeight ∧ x < map.pixelWidth then 1 else 0) ∧
    (∀ call ∈ map.plotCalls 0 map.pixelHeight, ∃ x y, call = (some x, some y)) ∧
    ∀ fromY untilY, map.pixelHeight ≤ untilY →
      map.plotCalls fromY untilY = map.plotCalls fromY map.pixelHeight := by
  refine ⟨?_, map.plotCalls_eq_map_gridPoints, map.count_gridPoints,
    fun call hcall => map.exists_coords_of_mem_plotCalls hmap hcall,
    fun fromY untilY h => map.plotCalls_of_height_le fromY h⟩
  cases cuts with
  | nil => cases hfirst
  | cons first cuts =>
    obtain rfl : first = 0 := by simpa using hfirst
    exact map.flatMap_plotCalls hchain hlast le_rfl

def threeRows : RegionMap ℕ where
  pixelHeight := 3
  pixelWidth := 2
  pixelSize := 1
  columnOrderedXCoordinates := [1, 2, 3, 4, 5, 6]
  columnOrderedYCoordinates := [7, 7, 8, 8, 9, 9]
  isUniform := false
  regionBoundary := ⟨9, 7, 1, 6⟩

theorem plotCalls_sliced_threeRows :
    (([0, 1, 1, 3].zip [1, 1, 3]).flatMap fun cut => threeRows.plotCalls cut.1 cut.2) =
      threeRows.plotCalls 0 3 :=
  (threeRows.plotCalls_sliced (by decide) [0, 1, 1, 3] (by decide) rfl rfl).1

end Slices

section OldPlotter

/-- The values that a counter takes in `while (++i < bound)`. -/
def increments (start bound : ℤ) : List ℤ :=
  (List.range (bound - 1 - start).toNat).map fun k : ℕ => start + 1 + (k : ℤ)

/-- An entry of a list; undefined before its start and after its end. -/
def coordinateAt (cols : List Coord) (i : ℤ) : Option Coord :=
  if 0 ≤ i then cols[i.toNat]? else none

def directUniform : List (Option Coord × Option Coord) :=
  (increments (-1) map.pixelHeight).flatMap fun nextY =>
    (increments (-1) map.pixelWidth).map fun nextX =>
      (coordinateAt map.columnOrderedXCoordinates nextX,
        coordinateAt map.columnOrderedYCoordinates nextY)

def loopFoxYI (ii iMax : ℤ) : List (Option Coord × Option Coord) :=
  (increments ii iMax).map fun ii =>
    (coordinateAt map.columnOrderedXCoordinates ii, coordinateAt map.columnOrderedYCoordinates ii)

/-- The remaining rows, from the running index on. -/
def variableRows : ℕ → ℤ → List (Option Coord × Option Coord)
  | 0, _ => []
  | rows + 1, ii =>
    map.loopFoxYI ii (ii + map.pixelWidth) ++ variableRows rows (ii + map.pixelWidth)

def directVariable : List (Option Coord × Option Coord) :=
  map.loopFoxYI 0 0 ++ map.variableRows map.pixelHeight (-1)

/-- The arguments of the `plot` calls that `oldDirectPlotter` makes, in order. -/
def oldPlotCalls : List (Option Coord × Option Coord) :=
  if map.isUniform then map.directUniform else map.directVariable

def oldDirectPlotter (plotter : RegionPlotter σ Coord ε) (start : σ) : Except ε σ :=
  plotter.finish (map.oldPlotCalls.foldl (fun s c => plotter.plot s c.1 c.2) start)

theorem increments_natCast (first bound : ℕ) :
    increments ((first : ℤ) - 1) bound = (List.range' first (bound - first)).map Nat.cast := by
  have hcount : ((bound : ℤ) - 1 - (first - 1)).toNat = bound - first := by omega
  rw [increments, hcount, List.range'_eq_map_range, List.map_map]
  apply List.map_congr_left
  intro k _
  push_cast [Function.comp_apply]
  ring

@[simp] theorem coordinateAt_natCast (cols : List Coord) (i : ℕ) :
    coordinateAt cols (i : ℤ) = cols[i]? := by
  simp [coordinateAt]

theorem directUniform_eq (h : map.isUniform = true) :
    map.directUniform = map.plotCalls 0 map.pixelHeight := by
  have hcount : ∀ n : ℕ, increments (-1) n = (List.range' 0 n).map Nat.cast := by
    intro n
    simpa using increments_natCast 0 n
  rw [directUniform, plotCalls, if_pos h, hcount, hcount, Nat.min_self, Nat.sub_zero,
    List.flatMap_map]
  congr 1
  funext y
  rw [List.map_map, ← List.range_eq_range']
  simp [Function.comp_def]

/-- A row of the old plotter stops before its last pixel. -/
theorem loopFoxYI_row (h : map.isUniform = false) (y : ℕ) :
    map.loopFoxYI ((map.pixelWidth * y : ℕ) - 1) ((map.pixelWidth * y : ℕ) - 1 + map.pixelWidth) =
      (map.rowCalls y).dropLast := by
  have hrow : map.rowCalls y = (List.range' (map.pixelWidth * y) map.pixelWidth).map fun ii =>
      (map.columnOrderedXCoordinates[ii]?, map.columnOrderedYCoordinates[ii]?) := by
    rw [rowCalls, List.range'_eq_map_range, List.map_map]
    congr 1
    funext x
    simp [sample, h]
  have hrun : increments ((map.pixelWidth * y : ℕ) - 1)
      ((map.pixelWidth * y : ℕ) - 1 + map.pixelWidth) =
        (List.range' (map.pixelWidth * y) map.pixelWidth).dropLast.map Nat.cast := by
    cases hw : map.pixelWidth with
    | zero => simp [increments]
    | succ w =>
      have hbound : (((w + 1) * y : ℕ) : ℤ) - 1 + (w + 1 : ℕ) = ((w + 1) * y + w : ℕ) := by
        push_cast
        ring
      rw [hbound, increments_natCast, Nat.add_sub_cancel_left, List.range'_concat,
        List.dropLast_concat]
  rw [loopFoxYI, hrun, hrow, List.map_map, List.map_dropLast]
  simp [Function.comp_def]

theorem directVariable_eq (h : map.isUniform = false) :
    map.directVariable =
      (List.range map.pixelHeight).flatMap fun y => (map.rowCalls y).dropLast := by
  have hrows : ∀ rows y : ℕ, map.variableRows rows ((map.pixelWidth * y : ℕ) - 1) =
      (List.range' y rows).flatMap fun y => (map.rowCalls y).dropLast := by
    intro rows
    induction rows with
    | zero => simp [variableRows]
    | succ rows ih =>
      intro y
      have hnext : ((map.pixelWidth * y : ℕ) : ℤ) - 1 + map.pixelWidth =
          (map.pixelWidth * (y + 1) : ℕ) - 1 := by
        push_cast
        ring
      rw [variableRows, loopFoxYI_row map h, hnext, ih, List.range'_succ, List.flatMap_cons]
  have hnone : map.loopFoxYI 0 0 = [] := rfl
  rw [directVariable, hnone, List.nil_append, List.range_eq_range', ← hrows]
  simp

/-- A plotter that keeps the calls made to it. -/
def recorder : RegionPlotter (List (Option Coord × Option Coord)) Coord String where
  plot calls x y := calls ++ [(x, y)]
  finish := .ok

theorem foldl_recorder (calls before : List (Option Coord × Option Coord)) :
    calls.foldl (fun s c => recorder.plot s c.1 c.2) before = before ++ calls := by
  induction calls generalizing before with
  | nil => rw [List.foldl_nil, List.append_nil]
  | cons call calls ih =>
    rw [List.foldl_cons, ih, recorder, List.append_assoc, List.singleton_append]

/-- No plotter tells the old from the new exactly when they make the same calls. -/
theorem oldDirectPlotter_eq_iff :
    (∀ (plotter : RegionPlotter (List (Option Coord × Option Coord)) Coord String) start,
      map.oldDirectPlotter plotter start = map.directPlotter plotter start 0 map.pixelHeight) ↔
    map.oldPlotCalls = map.plotCalls 0 map.pixelHeight := by
  constructor
  · intro h
    have hrecorded := h recorder []
    rw [oldDirectPlotter, directPlotter, foldl_recorder, foldl_recorder] at hrecorded
    exact Except.ok.inj hrecorded
  · intro h plotter start
    rw [oldDirectPlotter, directPlotter, h]

theorem oldPlotCalls_eq_iff :
    map.oldPlotCalls = map.plotCalls 0 map.pixelHeight ↔
      map.isUniform = true ∨ map.pixelWidth = 0 ∨ map.pixelHeight = 0 := by
  rw [oldPlotCalls]
  cases hu : map.isUniform with
  | true => simp [map.directUniform_eq hu]
  | false =>
    rw [if_neg (by simp), map.directVariable_eq hu]
    constructor
    · intro heq
      by_contra hpixels
      push Not at hpixels
      obtain ⟨-, hw, hh⟩ := hpixels
      have hlen := congrArg List.length heq
      simp only [length_plotCalls, List.length_flatMap, List.length_dropLast, length_rowCalls,
        List.map_const', List.length_range, List.sum_replicate_nat, Nat.min_self,
        Nat.sub_zero] at hlen
      have hfewer : map.pixelHeight * (map.pixelWidth - 1) < map.pixelHeight * map.pixelWidth :=
        Nat.mul_lt_mul_of_pos_left (by omega) (by omega)
      rw [hlen, Nat.mul_comm] at hfewer
      exact lt_irrefl _ hfewer
    · rintro (htrue | hw | hh)
      · cases htrue
      · have hrow : map.rowCalls = fun _ => [] := by
          funext y
          simp [rowCalls, hw]
        simp [plotCalls_eq, hrow, List.range_eq_range']
      · simp [plotCalls_eq, hh]

/-- The old plotter leaves out the last pixel of each row of a map that stores its pixels one by
one: it makes the same calls, on whatever plotter, where the map is uniform or has no pixels. -/
theorem oldPlotCalls_eq_plotCalls_iff :
    (map.oldPlotCalls = map.plotCalls 0 map.pixelHeight ↔
      map.isUniform = true ∨ map.pixelWidth = 0 ∨ map.pixelHeight = 0) ∧
    ((∀ (plotter : RegionPlotter (List (Option Coord × Option Coord)) Coord String) start,
        map.oldDirectPlotter plotter start = map.directPlotter plotter start 0 map.pixelHeight) ↔
      map.isUniform = true ∨ map.pixelWidth = 0 ∨ map.pixelHeight = 0) :=
  ⟨map.oldPlotCalls_eq_iff, map.oldDirectPlotter_eq_iff.trans map.oldPlotCalls_eq_iff⟩

/-- The old plotter plots three of the six pixels. -/
theorem oldPlotter_leaves_out_pixels : threeRows.Consistent ∧
    threeRows.oldPlotCalls ≠ threeRows.plotCalls 0 threeRows.pixelHeight := by
  decide

end OldPlotter

end RandomArt.RegionMap
