import RandomArt.PixelBudget

/-!
# What a submission sends

All envelopes of an enqueued flow are sent by this release, and what the codec makes of their
payloads are the bodies that the producer has committed.
-/

namespace RandomArt.FlowProducer

open ChunkPlan Envelope RegionMapLookup Failing

variable {Obj Domain ProjectDomain Coord : Type}
variable (producer : Producer Obj Domain ProjectDomain Coord) (codec : EnvelopeCodec Obj)

/-- The workload's codec carries all bodies. -/
structure CarriesBodies : Prop where
  registered : producer.runtime.registry WORKLOAD_RANDOM_ART = some codec
  carries : ∀ body, ∃ payload,
    codec.encode (producer.hostValue body) ReleaseVersion.currentRelease = .ok payload ∧
      codec.decode payload ReleaseVersion.currentRelease = .ok (producer.hostValue body)

/-- The only header of an envelope that this release makes. -/
def releaseHeaders : List Header :=
  [⟨HDR_ENGINE_RELEASE, ReleaseVersion.currentRelease.toString⟩]

/-- An envelope that waits for its body. -/
structure Fresh (e : Envelope Obj) : Prop where
  workloadId : e.workloadId = WORKLOAD_RANDOM_ART
  headers : e.headers = releaseHeaders
  content : e.content = .awaitingPayload ⟨ReleaseVersion.currentRelease, none⟩

/-- An envelope with its body. -/
structure Sent (body : Body Domain ProjectDomain) (e : Envelope Obj) : Prop where
  workloadId : e.workloadId = WORKLOAD_RANDOM_ART
  headers : e.headers = releaseHeaders
  content : ∃ payload, e.content = .encoded payload false ∧
    codec.decode payload ReleaseVersion.currentRelease = .ok (producer.hostValue body)

/-- The gather job of a task and its paint jobs, all sent. -/
structure TaskJob.IsSent (task : TaskJob Obj) : Prop where
  gather : ∃ body, Sent producer codec body task.data
  paint : ∀ job ∈ task.children, ∃ body, Sent producer codec body job.data

theorem parse_currentRelease : ReleaseVersion.parse ReleaseVersion.currentRelease.toString =
    some ReleaseVersion.currentRelease := by decide +kernel

theorem releaseVersion_of_headers {e : Envelope Obj} (h : e.headers = releaseHeaders) :
    e.releaseVersion = .ok (some ReleaseVersion.currentRelease) := by
  rw [releaseVersion, h, releaseHeaders, List.find?_cons_of_pos (by simp)]
  simp only [parse_currentRelease]

variable {producer codec}

theorem Sent.releaseVersion {body : Body Domain ProjectDomain} {e : Envelope Obj}
    (h : Sent producer codec body e) :
    e.releaseVersion = .ok (some ReleaseVersion.currentRelease) :=
  releaseVersion_of_headers h.headers

theorem Sent.state {body : Body Domain ProjectDomain} {e : Envelope Obj}
    (h : Sent producer codec body e) : e.state = .encoded := by
  obtain ⟨payload, hcontent, -⟩ := h.content
  exact state_eq hcontent

theorem fresh_replyTo {body : Body Domain ProjectDomain} {e child : Envelope Obj}
    (hsent : Sent producer codec body e) {s s' : ProducerState Obj}
    (h : exec (replyTo producer e) s = (.ok child, s')) : Fresh child := by
  rw [exec_replyTo hsent.state hsent.releaseVersion] at h
  cases h
  exact ⟨hsent.workloadId, rfl, rfl⟩

theorem fresh_createRoot {root : Envelope Obj} {s s' : ProducerState Obj}
    (h : exec (createRoot producer) s = (.ok root, s')) : Fresh root := by
  cases h
  exact ⟨rfl, rfl, rfl⟩

variable (hcarries : CarriesBodies producer codec)
include hcarries

theorem sent_commit {e committed : Envelope Obj} (hfresh : Fresh e)
    {body : Body Domain ProjectDomain} {s s' : ProducerState Obj}
    (h : exec (commit producer e body) s = (.ok committed, s')) :
    Sent producer codec body committed := by
  obtain ⟨payload, hencode, hdecode⟩ := hcarries.carries body
  have hregistered : producer.runtime.registry e.workloadId = some codec := by
    rw [hfresh.workloadId, hcarries.registered]
  rw [exec_commit hfresh.content hregistered hencode] at h
  cases h
  exact ⟨hfresh.workloadId, hfresh.headers, payload, rfl, hdecode⟩

theorem sent_createPaintPartJob {genSeed : GenModelSeed} {resolved : ResolvedRegionMap}
    {gatherEnvelope : Envelope Obj} {body : Body Domain ProjectDomain}
    (hsent : Sent producer codec body gatherEnvelope) {canvasFragment : CanvasFragment}
    {job : ChunkJob Obj} {s s' : ProducerState Obj}
    (h : exec (createPaintPartJob producer genSeed resolved gatherEnvelope canvasFragment) s =
      (.ok job, s')) : ∃ paint, Sent producer codec paint job.data := by
  obtain ⟨chunk, s₁, hreply, h⟩ := exec_bind_ok h
  obtain ⟨committed, s₂, hcommit, h⟩ := exec_bind_ok h
  cases h
  exact ⟨_, sent_commit hcarries (fresh_replyTo hsent hreply) hcommit⟩

theorem sent_paintPartJobs {genSeed : GenModelSeed} {resolved : ResolvedRegionMap}
    {gatherEnvelope : Envelope Obj} {body : Body Domain ProjectDomain}
    (hsent : Sent producer codec body gatherEnvelope) {fragments : List CanvasFragment}
    {jobs : List (ChunkJob Obj)} {s s' : ProducerState Obj}
    (h : exec (fragments.mapM (createPaintPartJob producer genSeed resolved gatherEnvelope)) s =
      (.ok jobs, s')) : ∀ job ∈ jobs, ∃ paint, Sent producer codec paint job.data := by
  induction fragments generalizing s jobs with
  | nil =>
    cases h
    exact fun _ hjob => absurd hjob List.not_mem_nil
  | cons fragment fragments ih =>
    rw [List.mapM_cons] at h
    obtain ⟨job, s₁, hjob, h⟩ := exec_bind_ok h
    obtain ⟨rest, s₂, hrest, h⟩ := exec_bind_ok h
    cases h
    exact List.forall_mem_cons.mpr ⟨sent_createPaintPartJob hcarries hsent hjob, ih hrest⟩

theorem sent_createTaskFlowChildren {genSeed : GenModelSeed} {resolved : ResolvedRegionMap}
    {paintingExtension : Domain} {project : Envelope Obj} {body : Body Domain ProjectDomain}
    (hsent : Sent producer codec body project) {taskId : String} {task : TaskJob Obj}
    {s s' : ProducerState Obj}
    (h : exec (createTaskFlowChildren producer genSeed resolved paintingExtension project) s =
      (.ok (taskId, task), s')) : task.IsSent producer codec := by
  obtain ⟨gather, s₁, hreply, h⟩ := exec_bind_ok h
  obtain ⟨committed, s₂, hcommit, h⟩ := exec_bind_ok h
  have hgather := sent_commit hcarries (fresh_replyTo hsent hreply) hcommit
  generalize chunkCount producer.config.pixelsPerJob resolved.geometry.imageSize.pixelWidth
    resolved.geometry.imageSize.pixelHeight = count at h hgather
  cases hlength : arrayLength count with
  | none =>
    rw [hlength] at h
    cases h
  | some chunks =>
    rw [hlength] at h
    obtain ⟨jobs, s₃, hjobs, h⟩ := exec_bind_ok h
    cases h
    exact ⟨⟨_, hgather⟩, sent_paintPartJobs hcarries hgather hjobs⟩

theorem sent_processTasks {project : Envelope Obj} {body : Body Domain ProjectDomain}
    (hsent : Sent producer codec body project) {index : ℕ} {maps : ResolvedMaps}
    {taskUnits : List (PaintingTask Domain PlotDataRef)} {children : List (String × TaskJob Obj)}
    {s s' : ProducerState Obj}
    (h : exec (processTasks producer project index maps taskUnits) s = (.ok children, s')) :
    children.length = taskUnits.length ∧
      ∀ child ∈ children, child.2.IsSent producer codec := by
  induction taskUnits generalizing index maps s children with
  | nil =>
    cases h
    exact ⟨rfl, fun _ hchild => absurd hchild List.not_mem_nil⟩
  | cons taskUnit taskUnits ih =>
    obtain ⟨⟨resolved, maps'⟩, s₁, hresolve, h⟩ := exec_bind_ok h
    obtain ⟨⟨taskId, task⟩, s₂, htask, h⟩ := exec_bind_ok h
    obtain ⟨rest, s₃, hrest, h⟩ := exec_bind_ok h
    cases h
    obtain ⟨hlength, hall⟩ := ih hrest
    exact ⟨congrArg (· + 1) hlength, List.forall_mem_cons.mpr
      ⟨sent_createTaskFlowChildren hcarries hsent htask, hall⟩⟩

/-- The flow of a submission that returns. -/
theorem sent_submitProject {request : MultiTaskRequestModel Domain ProjectDomain}
    {reply : MultiPaintingProjectReply} {s s' : ProducerState Obj}
    (h : exec (submitProject producer request) s = (.ok reply, s')) :
    ∃ flow, s'.enqueued = s.enqueued ++ [flow] ∧
      flow.children.length = request.taskUnits.length ∧
      Sent producer codec (.project ⟨reply.projectId, request.taskUnits.length,
        request.projectDomain⟩) flow.data ∧
      ∀ task ∈ flow.children, task.IsSent producer codec := by
  obtain ⟨maps, root, project, children, s₁, s₂, s₃, -, hroot, hcommit, hchildren, hqueue, rfl⟩ :=
    submitProject_steps producer h
  have hproject := sent_commit hcarries (fresh_createRoot hroot) hcommit
  obtain ⟨rfl, -⟩ := createRoot_ok producer hroot
  obtain ⟨rfl, -, -⟩ := commit_ok producer hcommit
  obtain ⟨hlength, hall⟩ := sent_processTasks hcarries hproject hchildren
  obtain ⟨-, -, -, -, hquiet⟩ := processTasks_ok producer hchildren
  refine ⟨_, (enqueue_ok producer hqueue).trans (by rw [hquiet]; rfl),
    by simpa [flowOf] using hlength,
    hproject, ?_⟩
  intro task htask
  obtain ⟨child, hchild, rfl⟩ := List.mem_map.mp htask
  exact hall child hchild

end RandomArt.FlowProducer
