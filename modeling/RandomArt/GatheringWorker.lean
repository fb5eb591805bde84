import RandomArt.Envelope
import RandomArt.FallibleFold
import RandomArt.PaintTaskEngine
import RandomArt.SliceWrites
import RandomArt.TaskResults

/-!
# Gathering painted parts

The worker writes the bytes of each part at the offset of its first row. Parts
painted over a partition of the rows rebuild the image in whatever order they
arrive; the size check that follows is studied on its own.
-/

namespace RandomArt.GatheringWorker

open GenModelArtist PixelData PaintTaskEngine SliceWrites FallibleFold

inductive GatherFailure (Obj : Type) where
  | envelope (failure : Envelope.Failure Obj)
  | invalidChild (taskId childKey : String)
  | noChildResults (taskId : String)
  | pixels (error : PixelsError)
  | offsetOutOfBounds

variable {Obj Coord : Type}

/-- Write one part into the image. A missing width makes the offset zero, as an array
write reads it. -/
def mergePart (destArray : List UInt8) (partResult : PartialPaintResult) :
    Except (GatherFailure Obj) (List UInt8) :=
  match toPixelsData partResult.pixelDataString with
  | .error e => .error (.pixels e)
  | .ok pixelData =>
    let firstRowOffset : ℤ :=
      partResult.canvasFragment.fragmentFirstRow * pixelData.pixelWidth.getD 0 * 4
    if firstRowOffset < 0 then .error .offsetOutOfBounds
    else
      match writeSlice destArray firstRowOffset.toNat pixelData.data with
      | none => .error .offsetOutOfBounds
      | some written => .ok written

abbrev Child (Obj : Type) := String × EnvelopeMemento Obj

/-- The part in a child's envelope; `partOf` reads a decoded payload. -/
def childPart (rt : Envelope.Runtime Obj) (partOf : Obj → PartialPaintResult) (taskId : String)
    (child : Child Obj) : Except (GatherFailure Obj) PartialPaintResult := do
  let childEnvelope ← (Envelope.fromWire rt child.2 ReleaseVersion.currentRelease none).mapError
    .envelope
  if !childEnvelope.isMessage then throw (.invalidChild taskId child.1)
  let payload ← childEnvelope.getPayload.mapError .envelope
  return partOf payload

def gatherChildPart (rt : Envelope.Runtime Obj) (partOf : Obj → PartialPaintResult)
    (taskId : String) (destArray : List UInt8) (child : Child Obj) :
    Except (GatherFailure Obj) (List UInt8) := do
  let partResult ← childPart rt partOf taskId child
  mergePart destArray partResult

structure StagingContext (Obj : Type) where
  imageData : Obj
  taskId : String
  projectId : Option String
  genSeed : GenModelSeed
  width : ℕ
  height : ℕ

/-- The worker with what it calls. A host value and what is read from it or made of it are
related by `requestOf`, `partOf`, `hostValue` and `errorOf`; `updateProgress n` is how the report
of progress ends that comes after `n` others. -/
structure Worker (Obj : Type) where
  runtime : Envelope.Runtime Obj
  requestOf : Obj → GatherPaintedPartsRequest Obj
  partOf : Obj → PartialPaintResult
  hostValue : GatherPaintedPartsResult Obj → Obj
  errorOf : GatherFailure Obj → Obj
  encodePixelsData : RawPixelData → Except Obj Obj
  stage : StagingContext Obj → Except Obj TaskResultRecord
  updateProgress : ℕ → Except Obj PUnit

variable (worker : Worker Obj)

/-- One turn of the loop over the children, and the progress reported after it. -/
def gatherNext (taskId : String) (destArray : List UInt8) (next : Child Obj × ℕ) :
    Except Obj (List UInt8) := do
  let written ← (gatherChildPart worker.runtime worker.partOf taskId destArray next.1).mapError
    worker.errorOf
  worker.updateProgress next.2
  return written

def assembleImage (checkSize : SizeCheck) (taskId : String) (pixelWidth pixelHeight : ℕ)
    (childData : List (Child Obj)) : Except Obj RawPixelData := do
  if childData.length = 0 then throw (worker.errorOf (.noChildResults taskId))
  let destArray := List.replicate (pixelWidth * pixelHeight * 4) 0
  let data ← childData.zipIdx.foldlM (gatherNext worker taskId) destArray
  let pixelsData : RawPixelData := ⟨data, some pixelWidth, some pixelHeight⟩
  (checkSize pixelsData).mapError fun e => worker.errorOf (.pixels e)
  return pixelsData

variable {worker} in
/-- Where no report of progress fails the loop, it has gathered the children. -/
theorem foldlM_of_gatherNext {taskId : String} {childData : List (Child Obj)} {n : ℕ}
    {destArray data : List UInt8}
    (h : (childData.zipIdx n).foldlM (gatherNext worker taskId) destArray = .ok data) :
    childData.foldlM (gatherChildPart worker.runtime worker.partOf taskId) destArray =
      .ok data := by
  induction childData generalizing n destArray with
  | nil =>
    cases h
    rfl
  | cons child childData ih =>
    rw [List.zipIdx_cons, List.foldlM_cons] at h
    obtain ⟨written, hnext, h⟩ := exists_of_bind_eq_ok h
    obtain ⟨written', hpart, hnext⟩ := exists_of_bind_eq_ok hnext
    obtain ⟨-, -, hnext⟩ := exists_of_bind_eq_ok hnext
    cases hnext
    rw [List.foldlM_cons, bind_of_ok (ok_of_mapError_eq_ok hpart), ih h]

theorem foldlM_gatherChildPart {rt : Envelope.Runtime Obj} {partOf : Obj → PartialPaintResult}
    {taskId : String} {childData : List (Child Obj)} {parts : List PartialPaintResult}
    (h : childData.mapM (childPart rt partOf taskId) = .ok parts) (destArray : List UInt8) :
    childData.foldlM (gatherChildPart rt partOf taskId) destArray =
      parts.foldlM mergePart destArray :=
  foldlM_of_mapM h destArray

end RandomArt.GatheringWorker
