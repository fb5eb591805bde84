import RandomArt.PixelData
import RandomArt.SpanPartition

/-!
# Painting messages

The values that painting jobs carry: seeds, references to plot data, row ranges of
an image, and the requests and results built from them.
-/

namespace RandomArt

/-- One half of a seed, as text or as bytes. -/
inductive SeedData where
  | text (encoded : String)
  | bytes (data : List UInt8)
  deriving DecidableEq

structure GenModelSeed where
  seedPrefix : SeedData
  seedSuffix : SeedData
  deriving DecidableEq

/-- A range of whole rows; the last row is included. -/
structure CanvasFragment where
  fragmentIndex : ℕ
  totalFragmentsCount : ℕ
  fragmentFirstRow : ℕ
  fragmentLastRow : ℤ
  pixelSize : ℕ
  deriving DecidableEq

/-- The rows of a fragment. -/
def CanvasFragment.rows (fragment : CanvasFragment) : SpanPartition.Span :=
  ⟨fragment.fragmentFirstRow, (fragment.fragmentLastRow + 1).toNat⟩

/-- A reference to plot data by name, by CID or by both. -/
structure PlotDataRef where
  regionMapName : Option String
  regionMapCID : Option String
  deriving DecidableEq

def PlotDataRef.isRefByName (ref : PlotDataRef) : Bool :=
  ref.regionMapName.isSome && ref.regionMapCID.isNone

/-- A reference whose CID has been used to load plot data. -/
structure PlotDataCIDRef where
  regionMapName : Option String
  regionMapCID : String
  isValidated : Bool
  deriving DecidableEq

structure PaintingTask (Domain Ref : Type) where
  genSeed : GenModelSeed
  plotDataRef : Ref
  domainExtension : Domain

structure PartialPaintRequest where
  taskId : String
  projectId : Option String
  genSeed : GenModelSeed
  plotDataRef : PlotDataCIDRef
  canvasFragment : CanvasFragment
  deriving DecidableEq

structure PartialPaintResult where
  taskId : String
  projectId : Option String
  canvasFragment : CanvasFragment
  pixelDataString : List Char
  deriving DecidableEq

structure GatherPaintedPartsRequest (Domain : Type) where
  taskId : String
  projectId : Option String
  paintTask : PaintingTask Domain PlotDataCIDRef
  paintGeometry : PlotMapGeometry
  expectedPartCount : ℕ

structure GatherProjectTasksRequest (ProjectDomain : Type) where
  projectId : String
  expectedTaskCount : ℕ
  projectDomain : ProjectDomain

/-- A request for several paintings over region maps that are named once. -/
structure MultiTaskRequestModel (Domain ProjectDomain : Type) where
  projectDomain : ProjectDomain
  regionMapNames : List (String × String)
  taskUnits : List (PaintingTask Domain PlotDataRef)

structure MultiPaintingProjectReply where
  projectId : String
  taskIds : List String
  acceptedAt : ℕ
  taskCount : ℕ
  deriving DecidableEq

end RandomArt
