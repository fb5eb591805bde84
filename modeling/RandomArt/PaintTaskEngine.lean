import RandomArt.GenModelArtist
import RandomArt.PaintingMessages

/-!
# Painting one part of an image

`performPaintTask` loads a region map, paints a range of its rows and packs the
bytes as text. The size check at its end is a parameter, so that the painting can
be studied apart from it.
-/

namespace RandomArt.PaintTaskEngine

open GenModelArtist PixelData

/-- The errors of a paint task; `outside` is one thrown by a provider or a repository. -/
inductive PaintFailure where
  | outside (message : String)
  | invalidArrayLength (length : ℤ)
  | unsupportedPixelSize (pixelSize : ℕ)
  | iterationMismatch (mismatch : IterationMismatch)
  | pixels (error : PixelsError)
  deriving DecidableEq

/-- What the engine is built with. Text seeds are decoded on the way to `createModel`, and
`loadRegionMap` parses the CID before it loads. -/
structure Engine (Coord : Type) where
  createModel : SeedData → SeedData → Except String (GenModel Coord)
  loadRegionMap : String → Except String (RegionMap Coord)

abbrev SizeCheck := RawPixelData → Except PixelsError Unit

variable {Coord : Type}

/-- Paint the rows of a fragment. The quotient by the pixel size is exact for the only size
that the artist accepts. -/
def paintFragment (genModel : GenModel Coord) (regionMap : RegionMap Coord)
    (canvasFragment : CanvasFragment) : Except PaintFailure RawPixelData :=
  let initialY := canvasFragment.fragmentFirstRow
  let finalY : ℤ := min ((regionMap.pixelHeight / regionMap.pixelSize : ℕ) : ℤ)
    (canvasFragment.fragmentLastRow + 1)
  let pixelCount : ℤ := (finalY - initialY) * regionMap.pixelWidth * regionMap.pixelSize
  if pixelCount < 0 then .error (.invalidArrayLength pixelCount)
  else if regionMap.pixelSize ≠ 1 then .error (.unsupportedPixelSize regionMap.pixelSize)
  else
    let canvas : Canvas := ⟨List.replicate pixelCount.toNat 0, 0⟩
    match regionMap.directPlotter
        (artist genModel (regionMap.pixelWidth / regionMap.pixelSize) initialY finalY)
        canvas initialY finalY.toNat with
    | .error mismatch => .error (.iterationMismatch mismatch)
    | .ok painted => .ok {
        data := painted.pixelData.flatMap littleEndian
        pixelWidth := some regionMap.pixelWidth
        pixelHeight := some (finalY - initialY) }

def performPaintTask (engine : Engine Coord) (checkSize : SizeCheck)
    (nextTask : PartialPaintRequest) : Except PaintFailure PartialPaintResult := do
  let genModel ← (engine.createModel nextTask.genSeed.seedPrefix
    nextTask.genSeed.seedSuffix).mapError .outside
  let regionMap ← (engine.loadRegionMap nextTask.plotDataRef.regionMapCID).mapError .outside
  let fragmentPixelsData ← paintFragment genModel regionMap nextTask.canvasFragment
  (checkSize fragmentPixelsData).mapError .pixels
  return {
    taskId := nextTask.taskId
    projectId := nextTask.projectId
    canvasFragment := nextTask.canvasFragment
    pixelDataString := fromPixelsData fragmentPixelsData }

def engineOf (genModel : GenModel Coord) (regionMap : RegionMap Coord) : Engine Coord where
  createModel := fun _ _ => .ok genModel
  loadRegionMap := fun _ => .ok regionMap

def noSizeCheck : SizeCheck := fun _ => .ok ()

def sizeCheck : SizeCheck := fun pixelsData => assertPixelsData pixelsData none

def paintedPixels (genModel : GenModel Coord) (regionMap : RegionMap Coord)
    (rows : SpanPartition.Span) : RawPixelData where
  data := paintedBytes genModel regionMap rows.first rows.stop
  pixelWidth := some regionMap.pixelWidth
  pixelHeight := some (rows.stop - rows.first : ℕ)

variable (genModel : GenModel Coord) (regionMap : RegionMap Coord)

theorem paintFragment_eq (hsize : regionMap.pixelSize = 1) {canvasFragment : CanvasFragment}
    (hrows : canvasFragment.rows.first < canvasFragment.rows.stop)
    (hinside : canvasFragment.rows.stop ≤ regionMap.pixelHeight) :
    paintFragment genModel regionMap canvasFragment =
      .ok (paintedPixels genModel regionMap canvasFragment.rows) := by
  have hlast : canvasFragment.fragmentLastRow + 1 = (canvasFragment.rows.stop : ℤ) := by
    simp only [CanvasFragment.rows] at hrows ⊢
    omega
  have hfinal : min (regionMap.pixelHeight : ℤ) (canvasFragment.fragmentLastRow + 1) =
      (canvasFragment.rows.stop : ℤ) := by
    rw [hlast]
    omega
  have hfirst : canvasFragment.fragmentFirstRow = canvasFragment.rows.first := rfl
  generalize canvasFragment.rows = rows at *
  have hheight : ((rows.stop : ℤ) - rows.first) = ((rows.stop - rows.first : ℕ) : ℤ) := by omega
  have hcount : ((rows.stop - rows.first : ℕ) : ℤ) * regionMap.pixelWidth * (1 : ℕ) =
      ((regionMap.pixelWidth * (rows.stop - rows.first) : ℕ) : ℤ) := by
    push_cast
    ring
  rw [paintFragment]
  simp only [hsize, Nat.div_one, hfinal, hfirst, hheight, hcount, Int.toNat_natCast,
    directPlotter_artist genModel regionMap hrows.le hinside]
  simp [paintedPixels, paintedBytes]
  omega

/-- A paint task comes down to painting its rows and checking the size. -/
theorem performPaintTask_engineOf (hsize : regionMap.pixelSize = 1) (checkSize : SizeCheck)
    {task : PartialPaintRequest}
    (hrows : task.canvasFragment.rows.first < task.canvasFragment.rows.stop)
    (hinside : task.canvasFragment.rows.stop ≤ regionMap.pixelHeight) :
    performPaintTask (engineOf genModel regionMap) checkSize task =
      match checkSize (paintedPixels genModel regionMap task.canvasFragment.rows) with
      | .error e => .error (.pixels e)
      | .ok _ => .ok {
          taskId := task.taskId
          projectId := task.projectId
          canvasFragment := task.canvasFragment
          pixelDataString :=
            fromPixelsData (paintedPixels genModel regionMap task.canvasFragment.rows) } := by
  simp only [performPaintTask, engineOf, Except.mapError,
    paintFragment_eq genModel regionMap hsize hrows hinside, bind, Except.bind]
  cases checkSize (paintedPixels genModel regionMap task.canvasFragment.rows) <;> rfl

end RandomArt.PaintTaskEngine
