import RandomArt.WorkerReplies

/-!
# The painting worker

The worker hands the request in its job to the task engine and replies with the part that the
engine has painted. The engine checks the size of what it has painted, and the check refuses
exactly the size that painting always has: whatever the engine is built with, each request that
is handled is replied to with an error.
-/

namespace RandomArt

open Envelope (Draws Handled Failure Method)

namespace PaintTaskEngine

open GenModelArtist PixelData

variable {Coord : Type}

theorem length_pixelData_foldl_plot (genModel : GenModel Coord)
    (calls : List (Option Coord × Option Coord)) (canvas : Canvas) :
    (calls.foldl (fun s c => plot genModel s c.1 c.2) canvas).pixelData.length =
      canvas.pixelData.length := by
  induction calls generalizing canvas with
  | nil => rfl
  | cons call calls ih => rw [List.foldl_cons, ih, plot, List.length_set]

/-- What is painted has four bytes for each pixel, for any rows of any map. -/
theorem expectedLength_of_paintFragment {genModel : GenModel Coord} {regionMap : RegionMap Coord}
    {canvasFragment : CanvasFragment} {pixelsData : RawPixelData}
    (h : paintFragment genModel regionMap canvasFragment = .ok pixelsData) :
    some (pixelsData.data.length : ℤ) = expectedLength pixelsData := by
  rw [paintFragment] at h
  simp only at h
  split_ifs at h with hnegative hsize
  split at h
  · cases h
  · next painted hpainted =>
    cases h
    simp only [RegionMap.directPlotter, artist, finish] at hpainted
    split_ifs at hpainted
    cases hpainted
    rw [not_not] at hsize
    simp only [length_flatMap_littleEndian, length_pixelData_foldl_plot, List.length_replicate,
      expectedLength, Option.map_some, Option.bind_some, Option.some.injEq]
    rw [hsize, Nat.cast_one, mul_one] at hnegative ⊢
    rw [Nat.cast_mul, Int.toNat_of_nonneg (not_lt.mp hnegative)]
    push_cast
    ring

/-- No request is ever painted. -/
theorem performPaintTask_refused (engine : Engine Coord) (nextTask : PartialPaintRequest) :
    ∃ failure, performPaintTask engine sizeCheck nextTask = .error failure := by
  rw [performPaintTask]
  rcases engine.createModel nextTask.genSeed.seedPrefix nextTask.genSeed.seedSuffix
    with message | genModel
  · exact ⟨_, rfl⟩
  rcases engine.loadRegionMap nextTask.plotDataRef.regionMapCID with message | regionMap
  · exact ⟨_, rfl⟩
  cases hpaint : paintFragment genModel regionMap nextTask.canvasFragment with
  | error failure =>
    refine ⟨failure, ?_⟩
    simp only [Except.mapError, bind, Except.bind, hpaint]
  | ok pixelsData =>
    refine ⟨.pixels (.incorrectDataSize pixelsData.pixelWidth pixelsData.pixelHeight
      pixelsData.data.length), ?_⟩
    simp only [Except.mapError, bind, Except.bind, hpaint]
    simp [sizeCheck, assertPixelsData, checkWidthHeight, expectedLength_of_paintFragment hpaint]

end PaintTaskEngine

namespace PaintingWorker

open PaintTaskEngine

/-- The worker with what it calls. `updateProgress` is that of its job, and `invalidEnvelope` the
error that it throws itself. -/
structure Worker (Obj Coord : Type) where
  runtime : Envelope.Runtime Obj
  taskEngine : Engine Coord
  requestOf : Obj → PartialPaintRequest
  hostValue : PartialPaintResult → Obj
  errorOf : PaintFailure → Obj
  invalidEnvelope : Obj
  updateProgress : Except Obj PUnit

variable {Obj Coord : Type} (worker : Worker Obj Coord)

def paint (handling : Envelope Obj) : Except Obj Obj := do
  let payload ← handling.getPayload.mapError (Envelope.thrownValue worker.runtime)
  let result ← (performPaintTask worker.taskEngine sizeCheck (worker.requestOf payload)).mapError
    worker.errorOf
  worker.updateProgress
  return worker.hostValue result

def process (beganAt : ℕ) (draws : Draws) (data : EnvelopeMemento Obj) :
    Except (Failure Obj) (Envelope Obj) := do
  let requestEnvelope ← Envelope.fromWire worker.runtime data ReleaseVersion.currentRelease none
  if !requestEnvelope.isMessage then throw (.thrown worker.invalidEnvelope)
  ((Envelope.handleWith worker.runtime beganAt draws (fun handling => ⟨[], paint worker handling⟩)
    none).exec requestEnvelope).1

theorem paint_refused {handling : Envelope Obj} {payload : Obj}
    (hpayload : handling.getPayload = .ok payload) :
    ∃ failure, paint worker handling = .error (worker.errorOf failure) := by
  obtain ⟨failure, hfailure⟩ := performPaintTask_refused worker.taskEngine
    (worker.requestOf payload)
  refine ⟨failure, ?_⟩
  rw [paint, hpayload]
  simp only [Except.mapError, bind, Except.bind, hfailure]

end PaintingWorker

end RandomArt
