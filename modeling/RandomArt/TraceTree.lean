import RandomArt.FallibleFold
import RandomArt.FlowProducer

/-!
# The trace tree of a project

Each envelope of a submitted project names the project as its correlation and its
parent as its cause. The ids are the ones drawn from the factory, one for each
envelope in the order of creation, so they differ from each other. Nothing reaches
the queue unless all tasks were resolved and all envelopes committed.
-/

namespace RandomArt.FlowProducer

open ChunkPlan Envelope RegionMapLookup Failing

variable {Obj Domain ProjectDomain Coord : Type}
variable (producer : Producer Obj Domain ProjectDomain Coord)

section Quiet

/-- Nothing is put into the queue. -/
def SameQueue (s s' : ProducerState Obj) : Prop := s'.enqueued = s.enqueued

theorem SameQueue.refl (s : ProducerState Obj) : SameQueue s s := rfl

theorem SameQueue.trans (a b c : ProducerState Obj) (hab : SameQueue a b) (hbc : SameQueue b c) :
    SameQueue a c := Eq.trans hbc hab

abbrev Quiet {α : Type} (m : Producing Obj α) : Prop := Maintains (fun _ => True) SameQueue m

private theorem Quiet.bind {α β : Type} {m : Producing Obj α} {f : α → Producing Obj β}
    (hm : Quiet m) (hf : ∀ a, Quiet (f a)) : Quiet (m >>= f) :=
  Maintains.bind SameQueue.trans hm hf

private theorem Quiet.pure {α : Type} (a : α) : Quiet (Pure.pure a : Producing Obj α) :=
  Maintains.pure SameQueue.refl a

private theorem quiet_get : Quiet (get : Producing Obj (ProducerState Obj)) :=
  Maintains.get SameQueue.refl

theorem quiet_callOn {α : Type} (envelope : Envelope Obj) (method : Method Obj α) :
    Quiet (callOn envelope method) := by
  unfold callOn
  split
  · exact .pure _
  · exact Maintains.throw SameQueue.refl _

theorem quiet_drawUlid : Quiet (drawUlid : Producing Obj PUnit) := fun _ _ => ⟨trivial, rfl⟩

theorem quiet_replyTo (envelope : Envelope Obj) : Quiet (replyTo producer envelope) :=
  .bind quiet_get fun _ => .bind (quiet_callOn _ _) fun _ => .bind quiet_drawUlid fun _ => .pure _

theorem quiet_commit (envelope : Envelope Obj) (body : Body Domain ProjectDomain) :
    Quiet (commit producer envelope body) :=
  .bind (quiet_callOn _ _) fun _ => .pure _

theorem quiet_createPaintPartJob (genSeed : GenModelSeed) (resolved : ResolvedRegionMap)
    (gatherEnvelope : Envelope Obj) (canvasFragment : CanvasFragment) :
    Quiet (createPaintPartJob producer genSeed resolved gatherEnvelope canvasFragment) :=
  .bind (quiet_replyTo _ _) fun _ => .bind (quiet_commit _ _ _) fun _ => .pure _

theorem quiet_createTaskFlowChildren (genSeed : GenModelSeed) (resolved : ResolvedRegionMap)
    (paintingExtension : Domain) (projectEnvelope : Envelope Obj) :
    Quiet (createTaskFlowChildren producer genSeed resolved paintingExtension projectEnvelope) := by
  refine .bind (quiet_replyTo _ _) fun _ => .bind (quiet_commit _ _ _) fun _ => ?_
  split
  · exact Maintains.throw SameQueue.refl _
  · refine .bind (Maintains.mapM SameQueue.refl SameQueue.trans _ fun _ _ => ?_) fun _ => .pure _
    exact quiet_createPaintPartJob producer genSeed resolved _ _

theorem quiet_processTasks (projectEnvelope : Envelope Obj) (index : ℕ) (maps : ResolvedMaps)
    (taskUnits : List (PaintingTask Domain PlotDataRef)) :
    Quiet (processTasks producer projectEnvelope index maps taskUnits) := by
  induction taskUnits generalizing index maps with
  | nil => exact .pure _
  | cons taskUnit taskUnits ih =>
    refine .bind (Maintains.ofExcept SameQueue.refl _) fun resolved => ?_
    exact .bind (quiet_createTaskFlowChildren _ _ _ _ _) fun _ => .bind (ih _ _) fun _ => .pure _

theorem quiet_createRoot : Quiet (createRoot producer) :=
  .bind quiet_get fun _ => .bind quiet_drawUlid fun _ => .pure _

theorem submitProject_abortsWithin (request : MultiTaskRequestModel Domain ProjectDomain) :
    AbortsWithin SameQueue (submitProject producer request) := by
  refine .bind SameQueue.trans quiet_get fun _ => ?_
  refine .bind SameQueue.trans (Maintains.ofExcept SameQueue.refl _) fun _ => ?_
  refine .bind SameQueue.trans (quiet_createRoot _) fun _ => ?_
  refine .bind SameQueue.trans (quiet_commit _ _ _) fun _ => ?_
  refine .bind SameQueue.trans (quiet_processTasks _ _ _ _ _) fun children => ?_
  intro s e s' h
  simp only [enqueue, exec_bind, exec_ofExcept] at h
  generalize Except.mapError ProducerFailure.queue _ = answer at h
  cases answer with
  | error failure =>
    cases h
    rfl
  | ok _ => cases h

end Quiet

section Tree

/-- The envelope's encoded payload is what the workload's codec makes of the body. -/
def Carries (envelope : Envelope Obj) (body : Body Domain ProjectDomain) : Prop :=
  ∃ codec version payload, producer.runtime.registry envelope.workloadId = some codec ∧
    codec.encode (producer.hostValue body) version = .ok payload ∧
    envelope.content = .encoded payload false

/-- A paint job of a task: caused by its gather job, with the task's id and seed. -/
structure IsChunkOf (task : Envelope Obj) (genSeed : GenModelSeed) (job : ChunkJob Obj) :
    Prop where
  correlation : job.data.trace.correlationId = task.trace.correlationId
  causation : job.data.trace.causationId = task.trace.messageId
  carries : ∃ request : PartialPaintRequest, Carries producer job.data (.paint request) ∧
    request.taskId = task.trace.messageId ∧ request.genSeed = genSeed

/-- The gather job of a task: caused by the project, with the task's seed and extension, and
with one paint job for each part it expects. -/
structure IsTaskOf (project : Envelope Obj) (taskUnit : PaintingTask Domain PlotDataRef)
    (task : TaskJob Obj) : Prop where
  correlation : task.data.trace.correlationId = project.trace.correlationId
  causation : task.data.trace.causationId = project.trace.messageId
  carries : ∃ request : GatherPaintedPartsRequest Domain,
    Carries producer task.data (.gather request) ∧
    request.taskId = task.data.trace.messageId ∧
    request.paintTask.genSeed = taskUnit.genSeed ∧
    request.paintTask.domainExtension = taskUnit.domainExtension ∧
    request.expectedPartCount = task.children.length
  chunks : ∀ job ∈ task.children, IsChunkOf producer task.data taskUnit.genSeed job

def TaskJob.envelopes (task : TaskJob Obj) : List (Envelope Obj) :=
  task.data :: task.children.map ChunkJob.data

def ProjectFlow.envelopes (flow : ProjectFlow Obj) : List (Envelope Obj) :=
  flow.data :: flow.children.flatMap TaskJob.envelopes

def nextUlids (s : ProducerState Obj) (n : ℕ) : List String :=
  (List.range' s.drawn n).map producer.ulid

def ProducerState.draw (s : ProducerState Obj) (n : ℕ) : ProducerState Obj :=
  { s with drawn := s.drawn + n }

@[simp] theorem draw_draw (s : ProducerState Obj) (m n : ℕ) :
    (s.draw m).draw n = s.draw (m + n) := by
  simp [ProducerState.draw, Nat.add_assoc]

@[simp] theorem nextUlids_one (s : ProducerState Obj) :
    nextUlids producer s 1 = [producer.ulid s.drawn] := rfl

theorem nextUlids_add (s : ProducerState Obj) (m n : ℕ) :
    nextUlids producer s (m + n) = nextUlids producer s m ++ nextUlids producer (s.draw m) n := by
  simp [nextUlids, ProducerState.draw, ← List.map_append, List.range'_append_1]

theorem replyTo_ok {envelope child : Envelope Obj} {s s' : ProducerState Obj}
    (h : exec (replyTo producer envelope) s = (.ok child, s')) :
    s' = s.draw 1 ∧ child.trace =
      ⟨envelope.trace.correlationId, envelope.trace.messageId, producer.ulid s.drawn⟩ := by
  obtain ⟨_, _, hget, h⟩ := exec_bind_ok h
  cases hget
  obtain ⟨⟨child', e'⟩, s₁, hcall, h⟩ := exec_bind_ok h
  cases h
  obtain ⟨-, hchild⟩ := startReplying_cases (producer.ulid s.drawn) (producer.now s.drawn) none
    none none envelope
  rw [callOn] at hcall
  rcases hx : (startReplying (producer.ulid s.drawn) (producer.now s.drawn) none none none).exec
    envelope with ⟨result, e''⟩
  rw [hx] at hcall hchild
  cases result with
  | error failure => cases hcall
  | ok a =>
    cases hcall
    exact ⟨rfl, (hchild child rfl).2.2⟩

theorem commit_ok {envelope committed : Envelope Obj} {body : Body Domain ProjectDomain}
    {s s' : ProducerState Obj}
    (h : exec (commit producer envelope body) s = (.ok committed, s')) :
    s' = s ∧ committed.trace = envelope.trace ∧ Carries producer committed body := by
  obtain ⟨⟨_, e'⟩, s₁, hcall, h⟩ := exec_bind_ok h
  cases h
  rw [callOn] at hcall
  obtain ⟨e₁, ⟨headers, rfl⟩, ⟨failure, hx⟩ | ⟨config, codec, payload, -, hcodec, hencode, hx⟩⟩ :=
    commitBody_cases producer.runtime (producer.hostValue body) envelope
  · rw [hx] at hcall
    cases hcall
  · rw [hx] at hcall
    cases hcall
    exact ⟨rfl, rfl, codec, config.releaseVersion, payload, hcodec, hencode, rfl⟩

theorem createPaintPartJob_ok {genSeed : GenModelSeed} {resolved : ResolvedRegionMap}
    {gatherEnvelope : Envelope Obj} {canvasFragment : CanvasFragment} {job : ChunkJob Obj}
    {s s' : ProducerState Obj}
    (h : exec (createPaintPartJob producer genSeed resolved gatherEnvelope canvasFragment) s =
      (.ok job, s')) :
    s' = s.draw 1 ∧ job.data.trace.messageId = producer.ulid s.drawn ∧
      IsChunkOf producer gatherEnvelope genSeed job := by
  obtain ⟨chunk, s₁, hreply, h⟩ := exec_bind_ok h
  obtain ⟨committed, s₂, hcommit, h⟩ := exec_bind_ok h
  cases h
  obtain ⟨rfl, htrace⟩ := replyTo_ok producer hreply
  obtain ⟨rfl, hsame, hcarries⟩ := commit_ok producer hcommit
  rw [htrace] at hsame
  exact ⟨rfl, by rw [hsame], by rw [hsame], by rw [hsame], _, hcarries, rfl, rfl⟩

/-- The paint jobs of a task draw one id each. -/
theorem mapM_createPaintPartJob_ok {genSeed : GenModelSeed} {resolved : ResolvedRegionMap}
    {gatherEnvelope : Envelope Obj} {fragments : List CanvasFragment} {jobs : List (ChunkJob Obj)}
    {s s' : ProducerState Obj}
    (h : exec (fragments.mapM (createPaintPartJob producer genSeed resolved gatherEnvelope)) s =
      (.ok jobs, s')) :
    s' = s.draw fragments.length ∧ jobs.length = fragments.length ∧
      jobs.map (·.data.trace.messageId) = nextUlids producer s fragments.length ∧
      ∀ job ∈ jobs, IsChunkOf producer gatherEnvelope genSeed job := by
  induction fragments generalizing s jobs with
  | nil =>
    cases h
    exact ⟨rfl, rfl, rfl, by simp⟩
  | cons fragment fragments ih =>
    rw [List.mapM_cons] at h
    obtain ⟨job, s₁, hjob, h⟩ := exec_bind_ok h
    obtain ⟨rest, s₂, hrest, h⟩ := exec_bind_ok h
    cases h
    obtain ⟨rfl, hid, hchunk⟩ := createPaintPartJob_ok producer hjob
    obtain ⟨rfl, hlen, hids, hchunks⟩ := ih hrest
    refine ⟨by rw [draw_draw, List.length_cons, Nat.add_comm], by simp [hlen], ?_, ?_⟩
    · rw [List.length_cons, Nat.add_comm, nextUlids_add, nextUlids_one, List.map_cons, hid, hids]
      rfl
    · exact List.forall_mem_cons.mpr ⟨hchunk, hchunks⟩

/-- A task draws the id of its gather job first, and then those of its paint jobs. -/
theorem createTaskFlowChildren_ok {taskUnit : PaintingTask Domain PlotDataRef}
    {resolved : ResolvedRegionMap} {project : Envelope Obj} {taskId : String}
    {task : TaskJob Obj} {s s' : ProducerState Obj}
    (h : exec (createTaskFlowChildren producer taskUnit.genSeed resolved
      taskUnit.domainExtension project) s = (.ok (taskId, task), s')) :
    s' = s.draw task.envelopes.length ∧ taskId = task.data.trace.messageId ∧
      task.envelopes.map (·.trace.messageId) = nextUlids producer s task.envelopes.length ∧
      IsTaskOf producer project taskUnit task := by
  obtain ⟨gather, s₁, hreply, h⟩ := exec_bind_ok h
  obtain ⟨committed, s₂, hcommit, h⟩ := exec_bind_ok h
  obtain ⟨rfl, htrace⟩ := replyTo_ok producer hreply
  obtain ⟨rfl, hsame, hcarries⟩ := commit_ok producer hcommit
  cases hcount : arrayLength (chunkCount producer.config.pixelsPerJob
      resolved.geometry.imageSize.pixelWidth resolved.geometry.imageSize.pixelHeight) with
  | none =>
    rw [hcount] at h
    cases h
  | some count =>
    rw [hcount] at h
    rw [hcount] at hcarries
    obtain ⟨jobs, s₃, hjobs, h⟩ := exec_bind_ok h
    cases h
    obtain ⟨rfl, hlen, hids, hchunks⟩ := mapM_createPaintPartJob_ok producer hjobs
    rw [length_canvasFragments] at hlen
    have hid : gather.trace.messageId = committed.trace.messageId := by rw [hsame]
    refine ⟨?_, hid, ?_, ?_, ?_, ?_, hchunks⟩
    · simp [TaskJob.envelopes, hlen, Nat.add_comm]
    · have hchildren : nextUlids producer (s.draw 1) jobs.length =
          jobs.map (·.data.trace.messageId) := by rw [hids, length_canvasFragments, hlen]
      simp only [TaskJob.envelopes, List.length_cons, List.length_map, List.map_cons,
        List.map_map, Nat.add_comm jobs.length 1, nextUlids_add, nextUlids_one, hchildren]
      rw [← hid, htrace]
      rfl
    · rw [hsame, htrace]
    · rw [hsame, htrace]
    · exact ⟨_, hcarries, hid, rfl, rfl, hlen.symm⟩

/-- The gather jobs match the tasks one by one, and their ids follow in order. -/
theorem processTasks_ok {project : Envelope Obj} {index : ℕ} {maps : ResolvedMaps}
    {taskUnits : List (PaintingTask Domain PlotDataRef)} {children : List (String × TaskJob Obj)}
    {s s' : ProducerState Obj}
    (h : exec (processTasks producer project index maps taskUnits) s = (.ok children, s')) :
    (∃ resolved, resolveTasks producer.regionMapRepo index maps
        (taskUnits.map (·.plotDataRef)) = .ok resolved) ∧
      children.map Prod.fst = children.map (·.2.data.trace.messageId) ∧
      ((children.map Prod.snd).flatMap TaskJob.envelopes).map (·.trace.messageId) =
        nextUlids producer s ((children.map Prod.snd).flatMap TaskJob.envelopes).length ∧
      List.Forall₂ (IsTaskOf producer project) taskUnits (children.map Prod.snd) ∧
      s'.enqueued = s.enqueued := by
  induction taskUnits generalizing index maps s children with
  | nil =>
    cases h
    exact ⟨⟨[], rfl⟩, rfl, rfl, .nil, rfl⟩
  | cons taskUnit taskUnits ih =>
    obtain ⟨⟨resolved, maps'⟩, s₁, hresolve, h⟩ := exec_bind_ok h
    obtain ⟨⟨taskId, task⟩, s₂, htask, h⟩ := exec_bind_ok h
    obtain ⟨rest, s₃, hrest, h⟩ := exec_bind_ok h
    cases h
    rw [exec_ofExcept] at hresolve
    obtain ⟨hresolve, rfl⟩ := Prod.mk.inj hresolve
    obtain ⟨rfl, hid, hids, hisTask⟩ := createTaskFlowChildren_ok producer htask
    obtain ⟨⟨others, hothers⟩, hfst, hrestIds, hforall, hqueue⟩ := ih hrest
    refine ⟨⟨resolved :: others, ?_⟩, ?_, ?_, .cons hisTask hforall, hqueue⟩
    · cases hone : resolveTask producer.regionMapRepo maps index taskUnit.plotDataRef with
      | error e =>
        rw [hone] at hresolve
        cases hresolve
      | ok found =>
        rw [hone] at hresolve
        cases hresolve
        simp [resolveTasks, hone, hothers, Except.map]
    · simp [hid, hfst]
    · rw [List.map_cons, List.flatMap_cons, List.map_append, List.length_append, nextUlids_add,
        hids, hrestIds]

theorem createRoot_ok {root : Envelope Obj} {s s' : ProducerState Obj}
    (h : exec (createRoot producer) s = (.ok root, s')) :
    s' = s.draw 1 ∧ root.trace =
      ⟨producer.ulid s.drawn, producer.ulid s.drawn, producer.ulid s.drawn⟩ := by
  cases h
  exact ⟨rfl, rfl⟩

theorem enqueue_ok {flow : ProjectFlow Obj} {s s' : ProducerState Obj}
    (h : exec (enqueue producer flow) s = (.ok ⟨⟩, s')) :
    s'.enqueued = s.enqueued ++ [flow] := by
  obtain ⟨_, s₁, hanswer, h⟩ := exec_bind_ok h
  rw [exec_ofExcept] at hanswer
  obtain ⟨-, rfl⟩ := Prod.mk.inj hanswer
  cases h
  rfl

private theorem exists_of_forall₂ {α β : Type} {R : α → β → Prop} {xs : List α} {ys : List β}
    (h : List.Forall₂ R xs ys) {y : β} (hy : y ∈ ys) : ∃ x, R x y := by
  induction h with
  | nil => cases hy
  | cons hxy _ ih =>
    rcases List.mem_cons.mp hy with rfl | hy
    · exact ⟨_, hxy⟩
    · exact ih hy

/-- The region maps of all tasks, in order. -/
def resolveRequest (request : MultiTaskRequestModel Domain ProjectDomain) :
    Except LookupFailure (List ResolvedRegionMap) := do
  let maps ← resolveRegionMaps producer.regionMapRepo request.regionMapNames
  resolveTasks producer.regionMapRepo 0 maps (request.taskUnits.map (·.plotDataRef))

/-- The flow of a submitted request, with the reply that announces it. -/
structure IsTraceTree (request : MultiTaskRequestModel Domain ProjectDomain)
    (reply : MultiPaintingProjectReply) (flow : ProjectFlow Obj) : Prop where
  root : flow.data.trace.messageId = reply.projectId
  correlation : ∀ e ∈ flow.envelopes, e.trace.correlationId = reply.projectId
  distinct : (flow.envelopes.map (·.trace.messageId)).Nodup
  taskIds : reply.taskIds = flow.children.map (·.data.trace.messageId)
  tasks : List.Forall₂ (IsTaskOf producer flow.data) request.taskUnits flow.children

def flowOf (projectId : String) (project : Envelope Obj) (children : List (String × TaskJob Obj)) :
    ProjectFlow Obj where
  name := "project:" ++ projectId
  queueName := producer.config.gatherTasksQueue
  data := project
  children := children.map Prod.snd

theorem submitProject_steps {request : MultiTaskRequestModel Domain ProjectDomain}
    {reply : MultiPaintingProjectReply} {s s' : ProducerState Obj}
    (h : exec (submitProject producer request) s = (.ok reply, s')) :
    ∃ maps root project children s₁ s₂ s₃,
      resolveRegionMaps producer.regionMapRepo request.regionMapNames = .ok maps ∧
      exec (createRoot producer) s = (.ok root, s₁) ∧
      exec (commit producer root (.project ⟨root.trace.messageId, request.taskUnits.length,
        request.projectDomain⟩)) s₁ = (.ok project, s₂) ∧
      exec (processTasks producer project 0 maps request.taskUnits) s₂ = (.ok children, s₃) ∧
      exec (enqueue producer (flowOf producer root.trace.messageId project children)) s₃ =
        (.ok ⟨⟩, s') ∧
      reply = ⟨root.trace.messageId, children.map Prod.fst, producer.now s.drawn,
        request.taskUnits.length⟩ := by
  obtain ⟨_, _, hget, h⟩ := exec_bind_ok h
  cases hget
  obtain ⟨maps, s₁, hmaps, h⟩ := exec_bind_ok h
  obtain ⟨root, s₂, hroot, h⟩ := exec_bind_ok h
  obtain ⟨project, s₃, hcommit, h⟩ := exec_bind_ok h
  obtain ⟨children, s₄, hchildren, h⟩ := exec_bind_ok h
  obtain ⟨_, s₅, hqueue, h⟩ := exec_bind_ok h
  cases h
  rw [exec_ofExcept] at hmaps
  obtain ⟨hmaps, rfl⟩ := Prod.mk.inj hmaps
  cases hfound : resolveRegionMaps producer.regionMapRepo request.regionMapNames with
  | error e =>
    rw [hfound] at hmaps
    cases hmaps
  | ok found =>
    rw [hfound] at hmaps
    cases hmaps
    exact ⟨_, root, project, children, _, _, _, rfl, hroot, hcommit, hchildren, hqueue, rfl⟩

/-- A submission that returns has enqueued one flow, the trace tree of its request. -/
theorem submitProject_ok (hulid : Function.Injective producer.ulid)
    {request : MultiTaskRequestModel Domain ProjectDomain} {reply : MultiPaintingProjectReply}
    {s s' : ProducerState Obj}
    (h : exec (submitProject producer request) s = (.ok reply, s')) :
    (∃ resolved, resolveRequest producer request = .ok resolved) ∧
      ∃ flow, s'.enqueued = s.enqueued ++ [flow] ∧ IsTraceTree producer request reply flow := by
  obtain ⟨maps, root, project, children, s₁, s₂, s₃, hmaps, hroot, hcommit, hchildren, hqueue,
    rfl⟩ := submitProject_steps producer h
  obtain ⟨rfl, htrace⟩ := createRoot_ok producer hroot
  obtain ⟨rfl, hsame, -⟩ := commit_ok producer hcommit
  obtain ⟨⟨resolved, hresolved⟩, hfst, hids, hforall, hquiet⟩ := processTasks_ok producer hchildren
  rw [htrace] at hsame
  refine ⟨⟨resolved, (FallibleFold.bind_of_ok hmaps).trans hresolved⟩, _,
    (enqueue_ok producer hqueue).trans (by rw [hquiet]; rfl),
    ⟨?_, ?_, ?_, ?_, hforall⟩⟩
  · change project.trace.messageId = root.trace.messageId
    rw [hsame, htrace]
  · have hroot : project.trace.correlationId = root.trace.messageId := by rw [hsame, htrace]
    intro e he
    rcases List.mem_cons.mp he with rfl | he
    · exact hroot
    · obtain ⟨task, htask, he⟩ := List.mem_flatMap.mp he
      obtain ⟨taskUnit, htaskOf⟩ := exists_of_forall₂ hforall htask
      rcases List.mem_cons.mp he with rfl | he
      · exact htaskOf.correlation.trans hroot
      · obtain ⟨job, hjob, rfl⟩ := List.mem_map.mp he
        exact ((htaskOf.chunks job hjob).correlation.trans htaskOf.correlation).trans hroot
  · have hall : (project :: (children.map Prod.snd).flatMap TaskJob.envelopes).map
        (·.trace.messageId) = nextUlids producer s
          (1 + ((children.map Prod.snd).flatMap TaskJob.envelopes).length) := by
      rw [List.map_cons, hids, nextUlids_add, nextUlids_one, hsame]
      rfl
    change ((project :: (children.map Prod.snd).flatMap TaskJob.envelopes).map
      (·.trace.messageId)).Nodup
    rw [hall]
    exact List.Nodup.map hulid List.nodup_range'
  · simpa [flowOf, List.map_map] using hfst

/-- The trace tree of a submitted project: what a returning submission enqueues is the trace
tree of its request, and a request with a task that does not resolve enqueues nothing. -/
theorem project_trace_tree (hulid : Function.Injective producer.ulid)
    (request : MultiTaskRequestModel Domain ProjectDomain) (s : ProducerState Obj) :
    (∀ reply s', exec (submitProject producer request) s = (.ok reply, s') →
      ∃ flow, s'.enqueued = s.enqueued ++ [flow] ∧ IsTraceTree producer request reply flow) ∧
    (∀ failure s', exec (submitProject producer request) s = (.error failure, s') →
      s'.enqueued = s.enqueued) ∧
    (∀ failure, resolveRequest producer request = .error failure →
      ∃ f s', exec (submitProject producer request) s = (.error f, s') ∧
        s'.enqueued = s.enqueued) := by
  refine ⟨fun reply s' h => (submitProject_ok producer hulid h).2,
    fun failure s' h => submitProject_abortsWithin producer request s failure s' h, ?_⟩
  intro failure hfailure
  rcases hexec : exec (submitProject producer request) s with ⟨result, s'⟩
  cases result with
  | ok reply =>
    obtain ⟨⟨resolved, hresolved⟩, -⟩ := submitProject_ok producer hulid hexec
    rw [hfailure] at hresolved
    cases hresolved
  | error f => exact ⟨f, s', rfl, submitProject_abortsWithin producer request s f s' hexec⟩

def unaryUlid (n : ℕ) : String := String.ofList (List.replicate n 'u')

theorem unaryUlid_injective : Function.Injective unaryUlid := by
  intro m n h
  have hlen := congrArg (fun id : String => id.toList.length) h
  simpa [unaryUlid] using hlen

/-- A producer that knows one square region map and gives eight pixels to a job. -/
def squareProducer : Producer ℕ Unit Unit ℕ where
  config := ⟨8, "scatter", "gather", "tasks"⟩
  regionMapRepo := fun cid =>
    if cid = "square-cid" then
      .ok ⟨4, 4, 1, List.range 4, List.range 4, true, ⟨1, 0, 0, 1⟩⟩
    else .error "not found"
  runtime := echoRuntime
  hostValue := fun _ => 0
  ulid := unaryUlid
  now := id
  accepts := fun _ => .ok ()

/-- Two tasks on the square map, one by name and one by the given CID. -/
def squareRequest (cid : String) : MultiTaskRequestModel Unit Unit where
  projectDomain := ()
  regionMapNames := [("square", "square-cid")]
  taskUnits := [⟨⟨.text "a", .text "b"⟩, ⟨some "square", none⟩, ()⟩,
    ⟨⟨.text "c", .text "d"⟩, ⟨none, some cid⟩, ()⟩]

/-- Two square tasks are enqueued as one trace tree; with an unknown CID nothing is. -/
theorem project_trace_tree_square :
    (∃ reply s' flow, exec (submitProject squareProducer (squareRequest "square-cid")) ⟨0, []⟩ =
        (.ok reply, s') ∧ s'.enqueued = [flow] ∧
        IsTraceTree squareProducer (squareRequest "square-cid") reply flow) ∧
      ∃ f s', exec (submitProject squareProducer (squareRequest "other-cid")) ⟨0, []⟩ =
        (.error f, s') ∧ s'.enqueued = [] := by
  obtain ⟨htree, -, -⟩ := project_trace_tree squareProducer unaryUlid_injective
    (squareRequest "square-cid") ⟨0, []⟩
  obtain ⟨-, -, hnothing⟩ := project_trace_tree squareProducer unaryUlid_injective
    (squareRequest "other-cid") ⟨0, []⟩
  constructor
  · have hok : (exec (submitProject squareProducer (squareRequest "square-cid"))
        ⟨0, []⟩).1.isOk = true := by decide +kernel
    rcases hexec : exec (submitProject squareProducer (squareRequest "square-cid")) ⟨0, []⟩
      with ⟨result, s'⟩
    rw [hexec] at hok
    cases result with
    | error f => cases hok
    | ok reply =>
      obtain ⟨flow, hflow, hisTree⟩ := htree reply s' hexec
      exact ⟨reply, s', flow, rfl, hflow, hisTree⟩
  · have hfails : (resolveRequest squareProducer (squareRequest "other-cid")).isOk = false := by
      decide +kernel
    cases hresolve : resolveRequest squareProducer (squareRequest "other-cid") with
    | ok resolved =>
      rw [hresolve] at hfails
      cases hfails
    | error failure => exact hnothing failure hresolve

end Tree

end RandomArt.FlowProducer
