import RandomArt.ChunkPlan
import RandomArt.EnvelopeLifecycle
import RandomArt.RegionMapLookup

/-!
# Submitting a project

A request becomes a tree of jobs: the project, one gather job for each task, and one
paint job for each chunk of a task. Ids are drawn from a factory as the envelopes
are created; the whole tree is enqueued at the end, in one piece.
-/

namespace RandomArt.FlowProducer

open ChunkPlan Envelope RegionMapLookup

def WORKLOAD_RANDOM_ART : String := "random-art"

structure FlowConfiguration where
  pixelsPerJob : ℕ
  scatterPartsQueue : String
  gatherPartsQueue : String
  gatherTasksQueue : String

/-- The bodies that the producer commits. -/
inductive Body (Domain ProjectDomain : Type) where
  | project (request : GatherProjectTasksRequest ProjectDomain)
  | gather (request : GatherPaintedPartsRequest Domain)
  | paint (request : PartialPaintRequest)

structure ChunkJob (Obj : Type) where
  name : String
  queueName : String
  data : Envelope Obj

structure TaskJob (Obj : Type) where
  name : String
  queueName : String
  data : Envelope Obj
  children : List (ChunkJob Obj)

structure ProjectFlow (Obj : Type) where
  name : String
  queueName : String
  data : Envelope Obj
  children : List (TaskJob Obj)

inductive ProducerFailure (Obj : Type) where
  | lookup (failure : LookupFailure)
  | envelope (failure : Failure Obj)
  | invalidArrayLength
  | queue (message : String)

/-- The producer with what it calls: the runtime of envelopes, the id factory, the clock, the
repository and the queue. `hostValue` is a body as a host value. -/
structure Producer (Obj Domain ProjectDomain Coord : Type) where
  config : FlowConfiguration
  regionMapRepo : Repository Coord
  runtime : Runtime Obj
  hostValue : Body Domain ProjectDomain → Obj
  ulid : ℕ → String
  now : ℕ → ℕ
  accepts : ProjectFlow Obj → Except String Unit

/-- The ids drawn so far, and the flows in the queue. -/
structure ProducerState (Obj : Type) where
  drawn : ℕ
  enqueued : List (ProjectFlow Obj)

abbrev Producing (Obj : Type) := Failing (ProducerFailure Obj) (ProducerState Obj)

variable {Obj Domain ProjectDomain Coord : Type}
variable (producer : Producer Obj Domain ProjectDomain Coord)

/-- Call a method of an envelope that the producer holds. -/
def callOn {α : Type} (envelope : Envelope Obj) (method : Method Obj α) :
    Producing Obj (α × Envelope Obj) :=
  match method.exec envelope with
  | (.ok a, envelope') => pure (a, envelope')
  | (.error failure, _) => throw (.envelope failure)

def drawUlid : Producing Obj PUnit := modify fun s => { s with drawn := s.drawn + 1 }

def createRoot : Producing Obj (Envelope Obj) := do
  let drawn := (← get).drawn
  drawUlid
  return createEnvelope (producer.ulid drawn) (producer.now drawn) WORKLOAD_RANDOM_ART
    ReleaseVersion.currentRelease none none none

def replyTo (envelope : Envelope Obj) : Producing Obj (Envelope Obj) := do
  let drawn := (← get).drawn
  let (child, _) ← callOn envelope
    (startReplying (producer.ulid drawn) (producer.now drawn) none none none)
  drawUlid
  return child

def commit (envelope : Envelope Obj) (body : Body Domain ProjectDomain) :
    Producing Obj (Envelope Obj) := do
  let (_, committed) ← callOn envelope (commitBody producer.runtime (producer.hostValue body))
  return committed

def createPaintPartJob (genSeed : GenModelSeed) (resolved : ResolvedRegionMap)
    (gatherEnvelope : Envelope Obj) (canvasFragment : CanvasFragment) :
    Producing Obj (ChunkJob Obj) := do
  let taskId := gatherEnvelope.trace.messageId
  let projectId := gatherEnvelope.trace.correlationId
  let chunkEnvelope ← replyTo producer gatherEnvelope
  let chunkEnvelope ← commit producer chunkEnvelope (.paint {
    taskId
    projectId := some projectId
    genSeed
    plotDataRef := resolved.cidRef
    canvasFragment })
  return {
    name := "chunk:" ++ taskId ++ ":" ++ toString canvasFragment.fragmentIndex
    queueName := producer.config.scatterPartsQueue
    data := chunkEnvelope }

/-- The gather job of one task with its paint jobs. When the number of chunks is no array length,
the array for them cannot be made. -/
def createTaskFlowChildren (genSeed : GenModelSeed) (resolved : ResolvedRegionMap)
    (paintingExtension : Domain) (projectEnvelope : Envelope Obj) :
    Producing Obj (String × TaskJob Obj) := do
  let imageSize := resolved.geometry.imageSize
  let count := chunkCount producer.config.pixelsPerJob imageSize.pixelWidth imageSize.pixelHeight
  let gatherEnvelope ← replyTo producer projectEnvelope
  let taskId := gatherEnvelope.trace.messageId
  let projectId := gatherEnvelope.trace.correlationId
  let gatherEnvelope ← commit producer gatherEnvelope (.gather {
    taskId
    projectId := some projectId
    paintTask := ⟨genSeed, resolved.cidRef, paintingExtension⟩
    paintGeometry := resolved.geometry
    expectedPartCount := (arrayLength count).getD 0 })
  match arrayLength count with
  | none => throw .invalidArrayLength
  | some chunks =>
    let fragments := canvasFragments chunks imageSize.pixelHeight imageSize.pixelSize
    let scatterJobs ← fragments.mapM (createPaintPartJob producer genSeed resolved gatherEnvelope)
    return (taskId, {
      name := "gather:" ++ taskId
      queueName := producer.config.gatherPartsQueue
      data := gatherEnvelope
      children := scatterJobs })

/-- The tasks in order, each resolved against the maps known so far. -/
def processTasks (projectEnvelope : Envelope Obj) :
    ℕ → ResolvedMaps → List (PaintingTask Domain PlotDataRef) →
      Producing Obj (List (String × TaskJob Obj))
  | _, _, [] => pure []
  | index, maps, taskUnit :: taskUnits => do
    let (resolved, maps') ← ofExcept
      ((resolveTask producer.regionMapRepo maps index taskUnit.plotDataRef).mapError .lookup)
    let child ← createTaskFlowChildren producer taskUnit.genSeed resolved
      taskUnit.domainExtension projectEnvelope
    let children ← processTasks projectEnvelope (index + 1) maps' taskUnits
    return child :: children

/-- Hand a flow to the queue, which takes all of it or throws. -/
def enqueue (flow : ProjectFlow Obj) : Producing Obj PUnit := do
  ofExcept ((producer.accepts flow).mapError .queue)
  modify fun s => { s with enqueued := s.enqueued ++ [flow] }

def submitProject (request : MultiTaskRequestModel Domain ProjectDomain) :
    Producing Obj MultiPaintingProjectReply := do
  let startTime := producer.now (← get).drawn
  let resolvedMaps ← ofExcept
    ((resolveRegionMaps producer.regionMapRepo request.regionMapNames).mapError .lookup)
  let projectEnvelope ← createRoot producer
  let projectId := projectEnvelope.trace.messageId
  let projectEnvelope ← commit producer projectEnvelope (.project {
    projectId
    expectedTaskCount := request.taskUnits.length
    projectDomain := request.projectDomain })
  let children ← processTasks producer projectEnvelope 0 resolvedMaps request.taskUnits
  enqueue producer {
    name := "project:" ++ projectId
    queueName := producer.config.gatherTasksQueue
    data := projectEnvelope
    children := children.map Prod.snd }
  return {
    projectId
    taskIds := children.map Prod.fst
    acceptedAt := startTime
    taskCount := request.taskUnits.length }

end RandomArt.FlowProducer
