import RandomArt.FailedParts
import RandomArt.JobQueue
import RandomArt.ScatterGather
import Mathlib.Data.List.Forall2
import Mathlib.Data.Set.Basic

/-!
# The run of a project

The jobs of an enqueued flow are taken by the workers of a pool, in any order in which each job
comes after the jobs it waits for. No order and no pool make a painting: in every state that is
reached, all chunks and all tasks have been replied to with errors, and the project reports that
every one of its tasks has failed.
-/

namespace RandomArt.ProjectRun

open Envelope FlowProducer WorkerReplies
open GatheringWorker (Child Unmessaged)
open ProjectGathering (failedCounters PROJECT_MANIFEST_FILENAME)

variable {Obj Domain ProjectDomain Coord : Type}

/-- The jobs of a flow: the project, its tasks, and the chunks of a task. -/
inductive Job where
  | project
  | task (index : ℕ)
  | chunk (index part : ℕ)
  deriving DecidableEq

namespace Job

variable (flow : ProjectFlow Obj)

def data : Job → Option (Envelope Obj)
  | project => some flow.data
  | task index => flow.children[index]?.map TaskJob.data
  | chunk index part =>
    flow.children[index]?.bind fun task => task.children[part]?.map ChunkJob.data

/-- The jobs that a job waits for. -/
def children : Job → List Job
  | project => (List.range flow.children.length).map task
  | task index =>
    (List.range (flow.children[index]?.elim 0 (·.children.length))).map (chunk index)
  | chunk _ _ => []

def height : Job → ℕ
  | project => 2
  | task _ => 1
  | chunk _ _ => 0

theorem height_lt (job : Job) : ∀ child ∈ job.children flow, height child < height job := by
  intro child hchild
  cases job with
  | project =>
    obtain ⟨_, -, rfl⟩ := List.mem_map.mp hchild
    exact Nat.one_lt_two
  | task index =>
    obtain ⟨_, -, rfl⟩ := List.mem_map.mp hchild
    exact Nat.zero_lt_one
  | chunk index part => cases hchild

theorem data_isSome_of_mem_children {job child : Job} (hchild : child ∈ job.children flow) :
    (child.data flow).isSome := by
  cases job with
  | project =>
    obtain ⟨index, hindex, rfl⟩ := List.mem_map.mp hchild
    rw [List.mem_range] at hindex
    rw [data, List.getElem?_eq_getElem hindex]
    rfl
  | task index =>
    obtain ⟨part, hpart, rfl⟩ := List.mem_map.mp hchild
    rw [List.mem_range] at hpart
    cases htask : flow.children[index]? with
    | none =>
      rw [htask] at hpart
      cases hpart
    | some task =>
      rw [htask] at hpart
      rw [data, htask, Option.bind_some, List.getElem?_eq_getElem hpart]
      rfl
  | chunk index part => cases hchild

theorem waited_of_isSome {job : Job} (hjob : (job.data flow).isSome) (hne : job ≠ project) :
    job ∈ project.children flow ∨
      ∃ parent ∈ project.children flow, job ∈ parent.children flow := by
  obtain ⟨e, hdata⟩ := Option.isSome_iff_exists.mp hjob
  cases job with
  | project => exact absurd rfl hne
  | task index =>
    obtain ⟨task, htask, -⟩ := Option.map_eq_some_iff.mp hdata
    obtain ⟨hindex, -⟩ := List.getElem?_eq_some_iff.mp htask
    exact Or.inl (List.mem_map.mpr ⟨index, List.mem_range.mpr hindex, rfl⟩)
  | chunk index part =>
    obtain ⟨task, htask, hpart⟩ := Option.bind_eq_some_iff.mp hdata
    obtain ⟨chunk, hchunk, -⟩ := Option.map_eq_some_iff.mp hpart
    obtain ⟨hindex, -⟩ := List.getElem?_eq_some_iff.mp htask
    obtain ⟨hlt, -⟩ := List.getElem?_eq_some_iff.mp hchunk
    refine Or.inr ⟨.task index, List.mem_map.mpr ⟨index, List.mem_range.mpr hindex, rfl⟩, ?_⟩
    refine List.mem_map.mpr ⟨part, List.mem_range.mpr ?_, rfl⟩
    rw [htask]
    exact hlt

theorem ne_project_of_mem_children {job child : Job} (hchild : child ∈ job.children flow) :
    child ≠ project := by
  rintro rfl
  have hlt := height_lt flow job project hchild
  cases job <;> simp only [height] at hlt <;> omega

end Job

/-- The workers that take jobs: some paint chunks, some gather the parts of a task, and some
gather the tasks of a project. -/
structure Pool (Obj Coord : Type) where
  painters : Set (PaintingWorker.Worker Obj Coord)
  gatherers : Set (GatheringWorker.Worker Obj)
  collectors : Set (ProjectGathering.Worker Obj)

/-- What a job is given for the jobs that it has waited for: their replies, in any order and
under any keys. -/
def Collected (done : Job → Option (Envelope Obj)) (waited : List Job)
    (childData : List (Child Obj)) : Prop :=
  ∃ order : List Job, order.Perm waited ∧
    List.Forall₂ (fun job child => ∃ reply, done job = some reply ∧ reply.toJSON = .ok child.2)
      order childData

inductive Gives (flow : ProjectFlow Obj) (pool : Pool Obj Coord)
    (done : Job → Option (Envelope Obj)) : Job → Envelope Obj → Prop where
  | paints {index part : ℕ} {e reply : Envelope Obj} {memento : EnvelopeMemento Obj}
      {worker : PaintingWorker.Worker Obj Coord} {beganAt : ℕ} {draws : Draws}
      (hdata : (Job.chunk index part).data flow = some e) (hjson : e.toJSON = .ok memento)
      (hworker : worker ∈ pool.painters)
      (hreturns : PaintingWorker.process worker beganAt draws memento = .ok reply) :
      Gives flow pool done (.chunk index part) reply
  | gathers {index : ℕ} {e reply : Envelope Obj} {memento : EnvelopeMemento Obj}
      {childData : List (Child Obj)} {worker : GatheringWorker.Worker Obj} {beganAt : ℕ}
      {draws : Draws} (hdata : (Job.task index).data flow = some e)
      (hjson : e.toJSON = .ok memento)
      (hchildren : Collected done ((Job.task index).children flow) childData)
      (hworker : worker ∈ pool.gatherers)
      (hreturns : GatheringWorker.process worker beganAt draws ⟨memento, .ok childData⟩ =
        .ok reply) : Gives flow pool done (.task index) reply
  | collects {e reply : Envelope Obj} {memento : EnvelopeMemento Obj}
      {childData : List (Child Obj)} {worker : ProjectGathering.Worker Obj} {beganAt : ℕ}
      {draws : Draws} (hdata : Job.project.data flow = some e) (hjson : e.toJSON = .ok memento)
      (hchildren : Collected done (Job.project.children flow) childData)
      (hworker : worker ∈ pool.collectors)
      (hreturns : ProjectGathering.process worker beganAt draws ⟨memento, .ok childData⟩ =
        .ok reply) : Gives flow pool done .project reply

def queue (flow : ProjectFlow Obj) (pool : Pool Obj Coord) : JobQueue Job (Envelope Obj) where
  children := Job.children flow
  height := Job.height
  height_lt := Job.height_lt flow
  gives job done reply := Gives flow pool done job reply

section Conforming

variable (producer : Producer Obj Domain ProjectDomain Coord) (codec : EnvelopeCodec Obj)

/-- Whatever the worker throws is an error, or can be made one. -/
def ThrowsErrors {Failure : Type} (errorOf : Failure → Obj) : Prop :=
  ∀ failure, ∃ error, producer.runtime.asError (errorOf failure) = .ok error

/-- A worker that reads the request of a project as it was sent. -/
structure ReadsProject (worker : ProjectGathering.Worker Obj) : Prop where
  runtime : worker.runtime = producer.runtime
  projectId : ∀ request, (worker.requestOf (producer.hostValue (.project request))).projectId =
    request.projectId
  expectedTaskCount : ∀ request,
    (worker.requestOf (producer.hostValue (.project request))).expectedTaskCount =
      request.expectedTaskCount
  encodes : ∀ result, ∃ payload,
    codec.encode (worker.hostValue result) ReleaseVersion.currentRelease = .ok payload
  errors : ThrowsErrors producer worker.errorOf
  writes : ∀ path manifest thrown, worker.write path manifest = .error thrown →
    ∃ error, producer.runtime.asError thrown = .ok error
  progress : ∀ n thrown, worker.updateProgress n = .error thrown →
    ∃ error, producer.runtime.asError thrown = .ok error

/-- A pool whose workers share the runtime of the producer. -/
structure Conforms (pool : Pool Obj Coord) : Prop where
  carries : CarriesBodies producer codec
  encodesErrors : EncodesErrors producer.runtime codec
  painters : ∀ worker ∈ pool.painters,
    worker.runtime = producer.runtime ∧ ThrowsErrors producer worker.errorOf
  gatherers : ∀ worker ∈ pool.gatherers,
    worker.runtime = producer.runtime ∧ ThrowsErrors producer worker.errorOf
  collectors : ∀ worker ∈ pool.collectors, ReadsProject producer codec worker

structure Staffed (pool : Pool Obj Coord) : Prop where
  painters : pool.painters.Nonempty
  gatherers : pool.gatherers.Nonempty
  collectors : pool.collectors.Nonempty

/-- What a worker reports of a project of which all tasks have failed. -/
def failedReport (worker : ProjectGathering.Worker Obj) (projectId : String) (taskCount : ℕ) :
    Obj :=
  worker.hostValue ⟨projectId, .empty, .empty, failedCounters taskCount⟩

/-- The manifest of a project of which all tasks have failed. -/
structure FailedManifest (projectId : String) (taskCount : ℕ)
    (manifest : ProjectManifest Obj Obj) : Prop where
  projectId : manifest.projectId = projectId
  counters : manifest.counters = failedCounters taskCount
  tasks : manifest.tasks = []

/-- How a project ends: with the report that all tasks have failed, once that is written in its
manifest; with an error where the manifest cannot be written, where it is but the progress of that
cannot be reported, or where there are no tasks. -/
inductive Concludes (pool : Pool Obj Coord) (projectId : String) (taskCount : ℕ)
    (request reply : Envelope Obj) : Prop where
  | reported {worker : ProjectGathering.Worker Obj} {manifest : ProjectManifest Obj Obj}
      (hworker : worker ∈ pool.collectors)
      (hmanifest : FailedManifest projectId taskCount manifest)
      (hwritten : worker.write (projectId ++ "/" ++ PROJECT_MANIFEST_FILENAME) manifest = .ok ⟨⟩)
      (hprogress : worker.updateProgress 0 = .ok ⟨⟩)
      (hreply : ResultReply codec (failedReport worker projectId taskCount) request reply)
  | unwritten {worker : ProjectGathering.Worker Obj} {manifest : ProjectManifest Obj Obj}
      {thrown : Obj} (hworker : worker ∈ pool.collectors)
      (hmanifest : FailedManifest projectId taskCount manifest)
      (hthrown : worker.write (projectId ++ "/" ++ PROJECT_MANIFEST_FILENAME) manifest =
        .error thrown) (hreply : ErrorReply request reply)
  | unannounced {worker : ProjectGathering.Worker Obj} {manifest : ProjectManifest Obj Obj}
      {thrown : Obj} (hworker : worker ∈ pool.collectors)
      (hmanifest : FailedManifest projectId taskCount manifest)
      (hwritten : worker.write (projectId ++ "/" ++ PROJECT_MANIFEST_FILENAME) manifest = .ok ⟨⟩)
      (hthrown : worker.updateProgress 0 = .error thrown) (hreply : ErrorReply request reply)
  | taskless (hnone : taskCount = 0) (hreply : ErrorReply request reply)

end Conforming

section Replies

variable {producer : Producer Obj Domain ProjectDomain Coord} {codec : EnvelopeCodec Obj}
variable {pool : Pool Obj Coord} (hconforms : Conforms producer codec pool)
include hconforms

variable {e : Envelope Obj} {memento : EnvelopeMemento Obj} {body : Body Domain ProjectDomain}
  (hsent : Sent producer codec body e) (hjson : e.toJSON = .ok memento)
include hsent hjson

theorem paints_error {worker : PaintingWorker.Worker Obj Coord} (hworker : worker ∈ pool.painters)
    (beganAt : ℕ) (draws : Draws) :
    ∃ reply, PaintingWorker.process worker beganAt draws memento = .ok reply ∧
      ErrorReply e reply := by
  obtain ⟨hruntime, herrors⟩ := hconforms.painters worker hworker
  obtain ⟨received, handling, hwire, hmessage, hworking, hhandled⟩ :=
    hsent.handled hconforms.carries hjson beganAt draws (PaintingWorker.paint worker)
  obtain ⟨failure, hfailure⟩ := PaintingWorker.paint_refused worker hworking.getPayload
  obtain ⟨error, herror⟩ := herrors failure
  obtain ⟨reply, hreply, hisError⟩ :=
    hworking.rejects hconforms.carries hconforms.encodesErrors herror draws
  refine ⟨reply, ?_, hisError⟩
  rw [← hreply, ← hfailure, ← hhandled, PaintingWorker.process, hruntime, hwire]
  simp only [bind, Except.bind, hmessage]
  rfl

theorem processWith_of_sent (beganAt : ℕ) (draws : Draws) (errorResult : Obj)
    (outcome : Envelope Obj → Except Obj Obj) :
    ∃ handling, Working producer body e handling ∧
      processWith producer.runtime beganAt draws errorResult
        (fun handling => ⟨[], outcome handling⟩) memento =
      ((replyWith producer.runtime draws none (outcome handling)).exec handling).1 := by
  obtain ⟨received, handling, hwire, hmessage, hworking, hhandled⟩ :=
    hsent.handled hconforms.carries hjson beganAt draws outcome
  refine ⟨handling, hworking, ?_⟩
  rw [processWith, hwire]
  simp only [hmessage, Bool.not_true, Bool.false_eq_true, if_false]
  rw [hhandled]

/-- A task whose parts have failed is replied to with an error. -/
theorem gathers_error {worker : GatheringWorker.Worker Obj} (hworker : worker ∈ pool.gatherers)
    {childData : List (Child Obj)}
    (hchildren : ∀ child ∈ childData, Unmessaged producer.runtime child) (beganAt : ℕ)
    (draws : Draws) :
    ∃ reply, GatheringWorker.process worker beganAt draws ⟨memento, .ok childData⟩ = .ok reply ∧
      ErrorReply e reply := by
  obtain ⟨hruntime, herrors⟩ := hconforms.gatherers worker hworker
  obtain ⟨handling, hworking, hprocess⟩ := processWith_of_sent hconforms hsent hjson beganAt draws
    (worker.hostValue GatheringWorker.errorResult)
    (GatheringWorker.gatherParts worker ⟨memento, .ok childData⟩)
  have hunmessaged : ∀ child ∈ childData, Unmessaged worker.runtime child := by
    rw [hruntime]
    exact hchildren
  obtain ⟨failure, hfailure⟩ := GatheringWorker.gatherParts_refused hworking.getPayload
    (show (GatherJob.mk memento (.ok childData)).childrenValues = .ok childData from rfl)
    hunmessaged
  obtain ⟨error, herror⟩ := herrors failure
  obtain ⟨reply, hreply, hisError⟩ :=
    hworking.rejects hconforms.carries hconforms.encodesErrors herror draws
  refine ⟨reply, ?_, hisError⟩
  rw [← hreply, ← hfailure, ← hprocess, GatheringWorker.process, hruntime]

omit hsent in
/-- A project whose tasks have failed ends with the report of that. -/
theorem collects_failures {worker : ProjectGathering.Worker Obj}
    (hworker : worker ∈ pool.collectors) {request : GatherProjectTasksRequest ProjectDomain}
    (hsent : Sent producer codec (.project request) e) {childData : List (Child Obj)}
    (hchildren : ∀ child ∈ childData, Unmessaged producer.runtime child)
    (hcount : childData.length = request.expectedTaskCount) (beganAt : ℕ) (draws : Draws) :
    ∃ reply, ProjectGathering.process worker beganAt draws ⟨memento, .ok childData⟩ = .ok reply ∧
      Concludes codec pool request.projectId request.expectedTaskCount e reply := by
  have hreads := hconforms.collectors worker hworker
  obtain ⟨handling, hworking, hprocess⟩ := processWith_of_sent hconforms hsent hjson beganAt draws
    (worker.hostValue ProjectGathering.errorResult)
    (ProjectGathering.gatherTasks worker ⟨memento, .ok childData⟩)
  rw [ProjectGathering.process, hreads.runtime, hprocess]
  have hpayload := hworking.getPayload
  by_cases hnone : childData = []
  · subst hnone
    obtain ⟨error, herror⟩ := hreads.errors (.noChildTaskResults request.projectId)
    have hrefused : ProjectGathering.gatherTasks worker ⟨memento, .ok []⟩ handling =
        .error (worker.errorOf (.noChildTaskResults request.projectId)) := by
      rw [ProjectGathering.gatherTasks, hpayload]
      simp only [Except.mapError, bind, Except.bind, ProjectGathering.collect, hreads.projectId]
      rfl
    obtain ⟨reply, hreply, hisError⟩ :=
      hworking.rejects hconforms.carries hconforms.encodesErrors herror draws
    rw [hrefused]
    exact ⟨reply, hreply, .taskless hcount.symm hisError⟩
  · have hunmessaged : ∀ child ∈ childData, Unmessaged worker.runtime child := by
      rw [hreads.runtime]
      exact hchildren
    have htasks := ProjectGathering.gatherTasks_unmessaged worker hpayload
      (show (GatherJob.mk memento (.ok childData)).childrenValues = .ok childData from rfl)
      hnone hunmessaged ((hreads.expectedTaskCount request).trans hcount.symm)
    rw [hreads.projectId, hcount] at htasks
    have hmanifest : FailedManifest request.projectId request.expectedTaskCount
        (ProjectGathering.projectManifest worker
          (worker.requestOf (producer.hostValue (.project request)))
          (ProjectGathering.failedTasks request.expectedTaskCount)) :=
      ⟨hreads.projectId request, rfl, rfl⟩
    rw [htasks]
    cases hwrite : worker.write (request.projectId ++ "/" ++ PROJECT_MANIFEST_FILENAME)
        (ProjectGathering.projectManifest worker
          (worker.requestOf (producer.hostValue (.project request)))
          (ProjectGathering.failedTasks request.expectedTaskCount)) with
    | error thrown =>
      obtain ⟨error, herror⟩ := hreads.writes _ _ _ hwrite
      obtain ⟨reply, hreply, hisError⟩ :=
        hworking.rejects hconforms.carries hconforms.encodesErrors herror draws
      exact ⟨reply, hreply, .unwritten hworker hmanifest hwrite hisError⟩
    | ok done =>
      cases hprogress : worker.updateProgress 0 with
      | error thrown =>
        obtain ⟨error, herror⟩ := hreads.progress _ _ hprogress
        obtain ⟨reply, hreply, hisError⟩ :=
          hworking.rejects hconforms.carries hconforms.encodesErrors herror draws
        exact ⟨reply, hreply, .unannounced hworker hmanifest hwrite hprogress hisError⟩
      | ok done =>
        have hreport : worker.hostValue (ProjectGathering.projectResult
            (worker.requestOf (producer.hostValue (.project request)))
            (ProjectGathering.failedTasks request.expectedTaskCount)) =
              failedReport worker request.projectId request.expectedTaskCount := by
          rw [ProjectGathering.projectResult, hreads.projectId]
          rfl
        obtain ⟨payload, hencode⟩ := hreads.encodes
          ⟨request.projectId, .empty, .empty, failedCounters request.expectedTaskCount⟩
        obtain ⟨reply, hreply, hresult⟩ := hworking.resolves hconforms.carries hencode draws
        rw [hreport]
        exact ⟨reply, hreply, .reported hworker hmanifest hwrite hprogress hresult⟩

end Replies

section Run

variable (producer : Producer Obj Domain ProjectDomain Coord) (codec : EnvelopeCodec Obj)

/-- The flow of a project, all of it sent. -/
structure SentFlow (request : GatherProjectTasksRequest ProjectDomain)
    (flow : ProjectFlow Obj) : Prop where
  project : Sent producer codec (.project request) flow.data
  tasks : ∀ task ∈ flow.children, task.IsSent producer codec
  taskCount : flow.children.length = request.expectedTaskCount

/-- What is known of the reply to a job: that of the project concludes it, and all others are
errors. -/
def Answers (pool : Pool Obj Coord) (request : GatherProjectTasksRequest ProjectDomain)
    (flow : ProjectFlow Obj) : Job → Envelope Obj → Prop
  | .project, reply =>
    Concludes codec pool request.projectId request.expectedTaskCount flow.data reply
  | .task index, reply => ∃ e, (Job.task index).data flow = some e ∧ ErrorReply e reply
  | .chunk index part, reply => ∃ e, (Job.chunk index part).data flow = some e ∧ ErrorReply e reply

variable {producer codec} {pool : Pool Obj Coord}
  {request : GatherProjectTasksRequest ProjectDomain} {flow : ProjectFlow Obj}

theorem Answers.isError {job : Job} {reply : Envelope Obj}
    (h : Answers codec pool request flow job reply) (hjob : job ≠ .project) :
    ∃ e, job.data flow = some e ∧ ErrorReply e reply := by
  cases job with
  | project => exact absurd rfl hjob
  | task index => exact h
  | chunk index part => exact h

theorem SentFlow.sent (hflow : SentFlow producer codec request flow) {job : Job} {e : Envelope Obj}
    (hdata : job.data flow = some e) : ∃ body, Sent producer codec body e := by
  cases job with
  | project =>
    cases hdata
    exact ⟨_, hflow.project⟩
  | task index =>
    obtain ⟨task, htask, rfl⟩ := Option.map_eq_some_iff.mp hdata
    exact (hflow.tasks task (List.mem_of_getElem? htask)).gather
  | chunk index part =>
    obtain ⟨task, htask, hpart⟩ := Option.bind_eq_some_iff.mp hdata
    obtain ⟨chunk, hchunk, rfl⟩ := Option.map_eq_some_iff.mp hpart
    exact (hflow.tasks task (List.mem_of_getElem? htask)).paint chunk (List.mem_of_getElem? hchunk)

theorem length_children_project : (Job.project.children flow).length = flow.children.length := by
  rw [Job.children, List.length_map, List.length_range]

theorem Collected.length_eq {done : Job → Option (Envelope Obj)} {waited : List Job}
    {childData : List (Child Obj)} (h : Collected done waited childData) :
    childData.length = waited.length := by
  obtain ⟨order, hperm, hforall⟩ := h
  rw [← hforall.length_eq, hperm.length_eq]

theorem exists_collected {done : Job → Option (Envelope Obj)} {waited : List Job}
    (hwaited : ∀ job ∈ waited, ∃ e reply, done job = some reply ∧ ErrorReply e reply) :
    ∃ childData, Collected done waited childData := by
  suffices h : ∃ childData, List.Forall₂ (fun job (child : Child Obj) =>
      ∃ reply, done job = some reply ∧ reply.toJSON = .ok child.2) waited childData by
    obtain ⟨childData, hforall⟩ := h
    exact ⟨childData, waited, .refl _, hforall⟩
  induction waited with
  | nil => exact ⟨[], .nil⟩
  | cons job waited ih =>
    rw [List.forall_mem_cons] at hwaited
    obtain ⟨⟨e, reply, hdone, herror⟩, hwaited⟩ := hwaited
    obtain ⟨payload, hcontent⟩ := herror.content
    obtain ⟨childData, hforall⟩ := ih hwaited
    exact ⟨("", mementoOf reply payload true) :: childData,
      .cons ⟨reply, hdone, toJSON_eq hcontent⟩ hforall⟩

variable (hconforms : Conforms producer codec pool)
include hconforms

/-- All that a job is given for jobs with error replies arrives without a message. -/
theorem Collected.unmessaged {done : Job → Option (Envelope Obj)} {waited : List Job}
    {childData : List (Child Obj)} (h : Collected done waited childData)
    (hanswered : ∀ job ∈ waited, ∃ e reply, done job = some reply ∧ ErrorReply e reply) :
    ∀ child ∈ childData, Unmessaged producer.runtime child := by
  obtain ⟨order, hperm, hforall⟩ := h
  have hall : ∀ job ∈ order, ∃ e reply, done job = some reply ∧ ErrorReply e reply :=
    fun job hjob => hanswered job (hperm.mem_iff.mp hjob)
  clear hperm hanswered
  induction hforall with
  | nil => exact fun _ hchild => absurd hchild List.not_mem_nil
  | cons hone _ ih =>
    rw [List.forall_mem_cons] at hall
    obtain ⟨e, reply, hdone, herror⟩ := hall.1
    obtain ⟨reply', hdone', hjson⟩ := hone
    rw [hdone] at hdone'
    cases hdone'
    exact List.forall_mem_cons.mpr ⟨herror.fromWire hconforms.carries hjson, ih hall.2⟩

variable (hflow : SentFlow producer codec request flow)
include hflow

/-- One more reply: where all replies that a job has waited for are known, its own is. -/
theorem answers_of_gives {job : Job} {done : Job → Option (Envelope Obj)} {result : Envelope Obj}
    (hanswered : ∀ child ∈ job.children flow, ∃ reply, done child = some reply ∧
      Answers codec pool request flow child reply)
    (hgives : Gives flow pool done job result) : Answers codec pool request flow job result := by
  have herrors : ∀ child ∈ job.children flow, ∃ e reply, done child = some reply ∧
      ErrorReply e reply := by
    intro child hchild
    obtain ⟨reply, hdone, hreply⟩ := hanswered child hchild
    obtain ⟨e, -, herror⟩ := hreply.isError (Job.ne_project_of_mem_children flow hchild)
    exact ⟨e, reply, hdone, herror⟩
  cases hgives with
  | paints hdata hjson hworker hreturns =>
    obtain ⟨body, hsent⟩ := hflow.sent hdata
    obtain ⟨reply, hreply, herror⟩ := paints_error hconforms hsent hjson hworker _ _
    rw [hreturns] at hreply
    cases hreply
    exact ⟨_, hdata, herror⟩
  | gathers hdata hjson hchildren hworker hreturns =>
    obtain ⟨body, hsent⟩ := hflow.sent hdata
    obtain ⟨reply, hreply, herror⟩ := gathers_error hconforms hsent hjson hworker
      (hchildren.unmessaged hconforms herrors) _ _
    rw [hreturns] at hreply
    cases hreply
    exact ⟨_, hdata, herror⟩
  | collects hdata hjson hchildren hworker hreturns =>
    cases hdata
    obtain ⟨reply, hreply, hconcludes⟩ := collects_failures hconforms hjson hworker hflow.project
      (hchildren.unmessaged hconforms herrors)
      (by rw [hchildren.length_eq, length_children_project, hflow.taskCount]) _ _
    rw [hreturns] at hreply
    cases hreply
    exact hconcludes

/-- In every state that is reached, all replies are known. -/
theorem answers_of_reaches {done : Job → Option (Envelope Obj)}
    (hreaches : (queue flow pool).Reaches done) {job : Job} {reply : Envelope Obj}
    (hdone : done job = some reply) : Answers codec pool request flow job reply := by
  refine hreaches.holds (P := Answers codec pool request flow) ?_ hdone
  intro job done result hchildren hgives
  exact answers_of_gives hconforms hflow hchildren hgives

theorem errors_of_ready {done : Job → Option (Envelope Obj)}
    (hreaches : (queue flow pool).Reaches done) {job : Job}
    (hready : (queue flow pool).Ready done job) :
    ∀ child ∈ job.children flow, ∃ e reply, done child = some reply ∧ ErrorReply e reply := by
  intro child hchild
  obtain ⟨reply, hreply⟩ := Option.isSome_iff_exists.mp (hready child hchild)
  obtain ⟨e, -, herror⟩ := (answers_of_reaches hconforms hflow hreaches hreply).isError
    (Job.ne_project_of_mem_children flow hchild)
  exact ⟨e, reply, hreply, herror⟩

/-- Every job that may run is replied to by a worker of a staffed pool. -/
theorem exists_gives (hstaffed : Staffed pool) {job : Job} {done : Job → Option (Envelope Obj)}
    (hjob : (job.data flow).isSome) (hreaches : (queue flow pool).Reaches done)
    (hready : (queue flow pool).Ready done job) :
    ∃ reply, Gives flow pool done job reply := by
  obtain ⟨e, hdata⟩ := Option.isSome_iff_exists.mp hjob
  obtain ⟨body, hsent⟩ := hflow.sent hdata
  obtain ⟨payload, hcontent, -⟩ := hsent.content
  have hjson := toJSON_eq hcontent
  have herrors := errors_of_ready hconforms hflow hreaches hready
  obtain ⟨childData, hcollected⟩ := exists_collected herrors
  have hunmessaged := hcollected.unmessaged hconforms herrors
  cases job with
  | project =>
    cases hdata
    obtain ⟨worker, hworker⟩ := hstaffed.collectors
    have hcount : childData.length = request.expectedTaskCount := by
      rw [hcollected.length_eq, length_children_project, hflow.taskCount]
    obtain ⟨reply, hreply, -⟩ := collects_failures hconforms hjson hworker hflow.project
      hunmessaged hcount 0 ⟨fun _ => "", id⟩
    exact ⟨reply, .collects rfl hjson hcollected hworker hreply⟩
  | task index =>
    obtain ⟨worker, hworker⟩ := hstaffed.gatherers
    obtain ⟨reply, hreply, -⟩ := gathers_error hconforms hsent hjson hworker hunmessaged 0
      ⟨fun _ => "", id⟩
    exact ⟨reply, .gathers hdata hjson hcollected hworker hreply⟩
  | chunk index part =>
    obtain ⟨worker, hworker⟩ := hstaffed.painters
    obtain ⟨reply, hreply, -⟩ := paints_error hconforms hsent hjson hworker 0 ⟨fun _ => "", id⟩
    exact ⟨reply, .paints hdata hjson hworker hreply⟩

end Run

/-- How far the run of a flow has come. -/
structure Fails (codec : EnvelopeCodec Obj) (pool : Pool Obj Coord) (projectId : String)
    (taskCount : ℕ) (flow : ProjectFlow Obj) (done : Job → Option (Envelope Obj)) : Prop where
  errors : ∀ job reply, job ≠ .project → done job = some reply →
    ∃ e, job.data flow = some e ∧ ErrorReply e reply
  concludes : ∀ reply, done .project = some reply →
    Concludes codec pool projectId taskCount flow.data reply
  complete : (done .project).isSome → ∀ job, (job.data flow).isSome → (done job).isSome
  goesOn : Staffed pool → ∃ done', (queue flow pool).Leads done done' ∧ (done' .project).isSome

/-- Submitting a project never ends in a painting: its flow is enqueued, and in whatever order
its jobs are taken, each chunk and each task is replied to with an error in the trace of its
request, and the project with the report that all its tasks have failed. A staffed pool always
gets that far. -/
theorem submitted_project_fails {producer : Producer Obj Domain ProjectDomain Coord}
    {codec : EnvelopeCodec Obj} {pool : Pool Obj Coord} (hconforms : Conforms producer codec pool)
    {submitted : MultiTaskRequestModel Domain ProjectDomain} {announced : MultiPaintingProjectReply}
    {s s' : ProducerState Obj}
    (h : Failing.exec (submitProject producer submitted) s = (.ok announced, s')) :
    ∃ flow, s'.enqueued = s.enqueued ++ [flow] ∧ ∀ done, (queue flow pool).Reaches done →
      Fails codec pool announced.projectId submitted.taskUnits.length flow done := by
  obtain ⟨flow, hqueued, hlength, hproject, htasks⟩ := sent_submitProject hconforms.carries h
  have hflow : SentFlow producer codec ⟨announced.projectId, submitted.taskUnits.length,
      submitted.projectDomain⟩ flow := ⟨hproject, htasks, hlength⟩
  refine ⟨flow, hqueued, fun done hreaches => ⟨?_, ?_, ?_, ?_⟩⟩
  · intro job reply hjob hdone
    exact (answers_of_reaches hconforms hflow hreaches hdone).isError hjob
  · intro reply hdone
    exact answers_of_reaches hconforms hflow hreaches hdone
  · intro hdone job hjob
    by_cases hne : job = .project
    · rw [hne]
      exact hdone
    · rcases Job.waited_of_isSome flow hjob hne with hwaited | ⟨parent, hparent, hwaited⟩
      · exact hreaches.waited hdone job hwaited
      · exact hreaches.waited (hreaches.waited hdone parent hparent) job hwaited
  · intro hstaffed
    refine JobQueue.Reaches.exists_leads (J := fun job => (job.data flow).isSome) ?_ ?_ hreaches rfl
    · exact fun job _ child hchild => Job.data_isSome_of_mem_children flow hchild
    · exact fun job done hjob hreaches hready =>
        exists_gives hconforms hflow hstaffed hjob hreaches hready

/-- A producer that knows the square map, and passes bodies through. -/
def squareBodyProducer : Producer (Body Unit Unit) Unit Unit ℕ :=
  { bodyProducer 8 with regionMapRepo := squareProducer.regionMapRepo }

/-- A body that stands for errors and for results that nobody reads. -/
def blankBody : Body Unit Unit := .project ⟨"", 0, ()⟩

def squarePainter : PaintingWorker.Worker (Body Unit Unit) ℕ where
  runtime := squareBodyProducer.runtime
  taskEngine := ⟨fun _ _ => .ok ScatterGather.gradientModel, squareProducer.regionMapRepo⟩
  requestOf := fun
    | .paint request => request
    | _ => ⟨"", none, ⟨.text "", .text ""⟩, ⟨none, "", true⟩, ⟨0, 0, 0, 0, 0⟩⟩
  hostValue := fun _ => blankBody
  errorOf := fun _ => blankBody
  invalidEnvelope := blankBody
  updateProgress := .ok ⟨⟩

def squareGatherer : GatheringWorker.Worker (Body Unit Unit) where
  runtime := squareBodyProducer.runtime
  requestOf := fun body => ⟨"", none, ⟨⟨.text "", .text ""⟩, ⟨none, "", true⟩, body⟩,
    ⟨⟨1, 0, 0, 1⟩, ⟨4, 4, 1⟩⟩, 2⟩
  partOf := fun _ => ⟨"", none, ⟨0, 0, 0, 0, 0⟩, []⟩
  hostValue := fun _ => blankBody
  errorOf := fun _ => blankBody
  encodePixelsData := fun _ => .ok blankBody
  stage := fun _ => .ok ⟨.ok, none, none⟩
  updateProgress := fun _ => .ok ⟨⟩

def squareCollector : ProjectGathering.Worker (Body Unit Unit) where
  runtime := squareBodyProducer.runtime
  requestOf := fun
    | .project request => ⟨request.projectId, request.expectedTaskCount, .project request⟩
    | body => ⟨"", 0, body⟩
  resultOf := fun _ => ⟨"", none, ⟨.ok, none, none⟩, none, none⟩
  hostValue := fun result => .project ⟨result.projectId, result.counters.numFatalErrors, ()⟩
  errorOf := fun _ => blankBody
  generatedAt := "now"
  write := fun _ _ => .ok ⟨⟩
  updateProgress := fun _ => .ok ⟨⟩

def squarePool : Pool (Body Unit Unit) ℕ :=
  ⟨{squarePainter}, {squareGatherer}, {squareCollector}⟩

def bodyCodec : EnvelopeCodec (Body Unit Unit) :=
  ⟨fun body _ => .ok body, fun body _ => .ok body⟩

private theorem conforms_squarePool : Conforms squareBodyProducer bodyCodec squarePool where
  carries := ⟨rfl, fun body => ⟨body, rfl, rfl⟩⟩
  encodesErrors := fun _ error _ _ => ⟨error, rfl⟩
  painters := by
    rintro worker rfl
    exact ⟨rfl, fun _ => ⟨blankBody, rfl⟩⟩
  gatherers := by
    rintro worker rfl
    exact ⟨rfl, fun _ => ⟨blankBody, rfl⟩⟩
  collectors := by
    rintro worker rfl
    exact ⟨rfl, fun _ => rfl, fun _ => rfl, fun _ => ⟨_, rfl⟩, fun _ => ⟨blankBody, rfl⟩,
      fun _ _ thrown _ => ⟨thrown, rfl⟩, fun _ thrown _ => ⟨thrown, rfl⟩⟩

private theorem returns_square :
    (Failing.exec (submitProject squareBodyProducer (squareRequest "square-cid"))
      ⟨0, []⟩).1.isOk = true := by decide +kernel

theorem submitted_square_fails :
    ∃ announced s', Failing.exec (submitProject squareBodyProducer (squareRequest "square-cid"))
        ⟨0, []⟩ = (.ok announced, s') ∧
      ∃ flow, s'.enqueued = [] ++ [flow] ∧ ∀ done, (queue flow squarePool).Reaches done →
        Fails bodyCodec squarePool announced.projectId 2 flow done := by
  have hok := returns_square
  rcases hexec : Failing.exec (submitProject squareBodyProducer (squareRequest "square-cid"))
    ⟨0, []⟩ with ⟨result, s'⟩
  rw [hexec] at hok
  cases result with
  | error failure => cases hok
  | ok announced => exact ⟨announced, s', rfl, submitted_project_fails conforms_squarePool hexec⟩

end RandomArt.ProjectRun
