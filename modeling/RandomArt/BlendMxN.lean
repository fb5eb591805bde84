import RandomArt.RectPartition

/-!
# Blending a grid of tiles

Neighbouring tiles of a grid share a twelfth of their extent. The merged image is written
in nine families of regions: those that show one tile, those that blend two, and those
that blend four. A family is a table of regions of one shape, written as comprehensions
over the rows and columns it occurs in.
-/

namespace RandomArt.BlendMxN

open SpanPartition

def alignmentGrid : ℕ := 12

/-- The numbers from `a` up to, but not including, `b`. -/
def range (a b : ℕ) : List ℕ := List.range' a (b - a)

/-- A table of pairs, written as two nested comprehensions. -/
def table (xs ys : List ℕ) (f : ℕ → ℕ → ℕ × ℕ) : List (List (ℕ × ℕ)) :=
  xs.map fun x => ys.map (f x)

/-- A family of regions: for each source its tile and its origin in that tile, and the origin
in the merged image, all by instance. -/
structure RegionSpec where
  shape : ℕ × ℕ
  instances : ℕ × ℕ
  sourceIndex : List (List (List (ℕ × ℕ)))
  mergeFrom : List (List (List (ℕ × ℕ)))
  mergeTo : List (List (ℕ × ℕ))

/-- The tiles to merge: their number and their common size. -/
structure Grid where
  rowCount : ℕ
  colCount : ℕ
  rowHeightIn : ℕ
  colWidthIn : ℕ

namespace Grid

variable (g : Grid)

def rowCornerHeight : ℕ := g.rowHeightIn / alignmentGrid
def colCornerWidth : ℕ := g.colWidthIn / alignmentGrid
def rowOverlapHeight : ℕ := g.rowCornerHeight
def colOverlapWidth : ℕ := g.colCornerWidth
def rowCenterHeight : ℕ := g.rowHeightIn - 2 * g.rowCornerHeight
def colCenterWidth : ℕ := g.colWidthIn - 2 * g.colCornerWidth
def rowStepHeight : ℕ := g.rowHeightIn - g.rowOverlapHeight
def colStepWidth : ℕ := g.colWidthIn - g.colOverlapWidth

def mergedShape : ℕ × ℕ :=
  (g.rowCount * g.rowStepHeight + g.rowCornerHeight,
    g.colCount * g.colStepWidth + g.colCornerWidth)

def mergedInnerHeight : ℕ := g.mergedShape.1 - g.rowCornerHeight
def mergedInnerWidth : ℕ := g.mergedShape.2 - g.colCornerWidth
def sourceInnerHeight : ℕ := g.rowHeightIn - g.rowCornerHeight
def sourceInnerWidth : ℕ := g.colWidthIn - g.colCornerWidth

def cornerRegion : RegionSpec where
  shape := (g.rowCornerHeight, g.colCornerWidth)
  instances := (2, 2)
  sourceIndex := [table (range 0 2) (range 0 2) fun x y =>
    (x * (g.rowCount - 1), y * (g.colCount - 1))]
  mergeFrom := [table (range 0 2) (range 0 2) fun x y =>
    (x * g.sourceInnerHeight, y * g.sourceInnerWidth)]
  mergeTo := table (range 0 2) (range 0 2) fun x y =>
    (x * g.mergedInnerHeight, y * g.mergedInnerWidth)

def rowPerimeterRegion : RegionSpec where
  shape := (g.rowCenterHeight, g.colCornerWidth)
  instances := (g.rowCount, 2)
  sourceIndex := [table (range 0 g.rowCount) (range 0 2) fun x y => (x, y * (g.colCount - 1))]
  mergeFrom := [table (range 0 g.rowCount) (range 0 2) fun _ y =>
    (g.rowCornerHeight, y * g.sourceInnerWidth)]
  mergeTo := table (range 0 g.rowCount) (range 0 2) fun x y =>
    (g.rowCornerHeight + x * g.rowStepHeight, y * g.mergedInnerWidth)

def colPerimeterRegion : RegionSpec where
  shape := (g.rowCornerHeight, g.colCenterWidth)
  instances := (2, g.colCount)
  sourceIndex := [table (range 0 2) (range 0 g.colCount) fun x y => (x * (g.rowCount - 1), y)]
  mergeFrom := [table (range 0 2) (range 0 g.colCount) fun x _ =>
    (x * g.sourceInnerHeight, g.colCornerWidth)]
  mergeTo := table (range 0 2) (range 0 g.colCount) fun x y =>
    (x * g.mergedInnerHeight, g.colCornerWidth + y * g.colStepWidth)

def cellCenterRegion : RegionSpec where
  shape := (g.rowCenterHeight, g.colCenterWidth)
  instances := (g.rowCount, g.colCount)
  sourceIndex := [table (range 0 g.rowCount) (range 0 g.colCount) fun x y => (x, y)]
  mergeFrom := [table (range 0 g.rowCount) (range 0 g.colCount) fun _ _ =>
    (g.rowCornerHeight, g.colCornerWidth)]
  mergeTo := table (range 0 g.rowCount) (range 0 g.colCount) fun x y =>
    (g.rowCornerHeight + x * g.rowStepHeight, g.colCornerWidth + y * g.colStepWidth)

def rowPerimeterOverlapRegion : RegionSpec where
  shape := (g.rowOverlapHeight, g.colOverlapWidth)
  instances := (g.rowCount - 1, 2)
  sourceIndex := [
    table (range 0 (g.rowCount - 1)) (range 0 2) fun x y => (x, y * (g.colCount - 1)),
    table (range 1 g.rowCount) (range 0 2) fun x y => (x, y * (g.colCount - 1))]
  mergeFrom := [
    table (range 0 (g.rowCount - 1)) (range 0 2) fun _ y =>
      (g.rowStepHeight, y * g.sourceInnerWidth),
    table (range 1 g.rowCount) (range 0 2) fun _ y => (0, y * g.sourceInnerWidth)]
  mergeTo := table (range 1 g.rowCount) (range 0 2) fun x y =>
    (x * g.rowStepHeight, y * g.mergedInnerWidth)

def colPerimeterOverlapRegion : RegionSpec where
  shape := (g.rowOverlapHeight, g.colOverlapWidth)
  instances := (2, g.colCount - 1)
  sourceIndex := [
    table (range 0 2) (range 0 (g.colCount - 1)) fun x y => (x * (g.rowCount - 1), y),
    table (range 0 2) (range 1 g.colCount) fun x y => (x * (g.rowCount - 1), y)]
  mergeFrom := [
    table (range 0 2) (range 0 (g.colCount - 1)) fun x _ =>
      (x * g.sourceInnerHeight, g.colStepWidth),
    table (range 0 2) (range 1 g.colCount) fun x _ => (x * g.sourceInnerHeight, 0)]
  mergeTo := table (range 0 2) (range 1 g.colCount) fun x y =>
    (x * g.mergedInnerHeight, y * g.colStepWidth)

def sameRowInsideOverlapRegion : RegionSpec where
  shape := (g.rowCenterHeight, g.colOverlapWidth)
  instances := (g.rowCount, g.colCount - 1)
  sourceIndex := [
    table (range 0 g.rowCount) (range 0 (g.colCount - 1)) fun x y => (x, y),
    table (range 0 g.rowCount) (range 1 g.colCount) fun x y => (x, y)]
  mergeFrom := [
    table (range 0 g.rowCount) (range 0 (g.colCount - 1)) fun _ _ =>
      (g.rowOverlapHeight, g.colStepWidth),
    table (range 0 g.rowCount) (range 1 g.colCount) fun _ _ => (g.rowOverlapHeight, 0)]
  mergeTo := table (range 0 g.rowCount) (range 1 g.colCount) fun x y =>
    (x * g.rowStepHeight + g.rowOverlapHeight, y * g.colStepWidth)

def sameColInsideOverlapRegion : RegionSpec where
  shape := (g.rowOverlapHeight, g.colCenterWidth)
  instances := (g.rowCount - 1, g.colCount)
  sourceIndex := [
    table (range 0 (g.rowCount - 1)) (range 0 g.colCount) fun x y => (x, y),
    table (range 1 g.rowCount) (range 0 g.colCount) fun x y => (x, y)]
  mergeFrom := [
    table (range 0 (g.rowCount - 1)) (range 0 g.colCount) fun _ _ =>
      (g.rowStepHeight, g.colOverlapWidth),
    table (range 1 g.rowCount) (range 0 g.colCount) fun _ _ => (0, g.colOverlapWidth)]
  mergeTo := table (range 1 g.rowCount) (range 0 g.colCount) fun x y =>
    (x * g.rowStepHeight, y * g.colStepWidth + g.colOverlapWidth)

def inner4wayRegion : RegionSpec where
  shape := (g.rowOverlapHeight, g.colOverlapWidth)
  instances := (g.rowCount - 1, g.colCount - 1)
  sourceIndex := [
    table (range 0 (g.rowCount - 1)) (range 0 (g.colCount - 1)) fun x y => (x, y),
    table (range 1 g.rowCount) (range 0 (g.colCount - 1)) fun x y => (x, y),
    table (range 0 (g.rowCount - 1)) (range 1 g.colCount) fun x y => (x, y),
    table (range 1 g.rowCount) (range 1 g.colCount) fun x y => (x, y)]
  mergeFrom := [
    table (range 0 (g.rowCount - 1)) (range 0 (g.colCount - 1)) fun _ _ =>
      (g.rowStepHeight, g.colStepWidth),
    table (range 1 g.rowCount) (range 0 (g.colCount - 1)) fun _ _ => (0, g.colStepWidth),
    table (range 0 (g.rowCount - 1)) (range 1 g.colCount) fun _ _ => (g.rowStepHeight, 0),
    table (range 1 g.rowCount) (range 1 g.colCount) fun _ _ => (0, 0)]
  mergeTo := table (range 1 g.rowCount) (range 1 g.colCount) fun x y =>
    (x * g.rowStepHeight, y * g.colStepWidth)

/-- All families, in the order in which they are written. -/
def regions : List RegionSpec :=
  [g.cornerRegion, g.rowPerimeterRegion, g.colPerimeterRegion, g.cellCenterRegion,
    g.rowPerimeterOverlapRegion, g.colPerimeterOverlapRegion, g.sameRowInsideOverlapRegion,
    g.sameColInsideOverlapRegion, g.inner4wayRegion]

end Grid

def getSlices (fromPixels shape : ℕ × ℕ) : Rect :=
  ⟨⟨fromPixels.1, fromPixels.1 + shape.1⟩, ⟨fromPixels.2, fromPixels.2 + shape.2⟩⟩

/-- A rectangle of one of the tiles. -/
structure Part where
  tile : ℕ × ℕ
  slices : Rect
  deriving DecidableEq

/-- A rectangle of the merged image, with the parts that are blended into it. -/
structure Blend where
  toSlices : Rect
  parts : List Part
  deriving DecidableEq

/-- The entry of a table at an instance, if it is in the table. -/
def entry (rows : List (List (ℕ × ℕ))) (x y : ℕ) : Option (ℕ × ℕ) := do (← rows[x]?)[y]?

def RegionSpec.part (spec : RegionSpec) (x y : ℕ)
    (source : List (List (ℕ × ℕ)) × List (List (ℕ × ℕ))) : Option Part := do
  let tile ← entry source.1 x y
  let origin ← entry source.2 x y
  return ⟨tile, getSlices origin spec.shape⟩

/-- What an instance of a family reads and writes. -/
def RegionSpec.blend (spec : RegionSpec) (x y : ℕ) : Option Blend := do
  let parts ← (spec.sourceIndex.zip spec.mergeFrom).mapM (spec.part x y)
  let mergeTo ← entry spec.mergeTo x y
  return ⟨getSlices mergeTo spec.shape, parts⟩

/-- All instances of a family, row by row. -/
def RegionSpec.blends (spec : RegionSpec) : Option (List Blend) :=
  (range 0 spec.instances.1 ×ˢ range 0 spec.instances.2).mapM fun xy => spec.blend xy.1 xy.2

/-- Whether nested lists make an array of all its axes; an empty list hides the axes below it. -/
def hasAllAxes (tables : List (List (List (ℕ × ℕ)))) : Bool :=
  tables.all fun rows => !rows.isEmpty && rows.all (!·.isEmpty)

/-- Write the regions of a family; its tables cannot be reordered when axes are missing. -/
def applyRegionSpec (spec : RegionSpec) : Option (List Blend) :=
  if hasAllAxes spec.sourceIndex && hasAllAxes spec.mergeFrom then spec.blends else none

end RandomArt.BlendMxN
