import RandomArt.WorkerReplies

/-!
# Gathering the tasks of a project

The worker goes through the results of the tasks once and keeps three things: counters of the
outcomes, the entries of the manifest, and the results by task. They are kept in step: every
child is counted once, and every message has its entry and its result.
-/

namespace RandomArt.ProjectGathering

open FallibleFold WorkerReplies
open Envelope (Draws Failure)
open GatheringWorker (Child)

def PROJECT_MANIFEST_FILENAME : String := "project-manifest.json"

inductive ProjectFailure (Obj : Type) where
  | noChildTaskResults (projectId : String)
  | envelope (failure : Failure Obj)

/-- The worker with what it calls. Writing the manifest serializes it first; `updateProgress n` is
how the report of progress ends that comes after `n` others. -/
structure Worker (Obj : Type) where
  runtime : Envelope.Runtime Obj
  requestOf : Obj → GatherProjectTasksRequest Obj
  resultOf : Obj → GatherPaintedPartsResult Obj
  hostValue : GatherProjectTasksResult → Obj
  errorOf : ProjectFailure Obj → Obj
  generatedAt : String
  write : String → ProjectManifest Obj Obj → Except Obj PUnit
  updateProgress : ℕ → Except Obj PUnit

variable {Obj : Type} (worker : Worker Obj)

def startCounters (totalTaskCount : ℕ) : TaskCounters := ⟨totalTaskCount, 0, 0, 0, 0, 0, 0, 0⟩

def updateCounters (counters : TaskCounters) (result : TaskResultRecord) : TaskCounters :=
  match result.outcomeType with
  | .ok =>
    let completed := { counters with numCompleted := counters.numCompleted + 1 }
    if result.reportIfCompleted.isSome then
      { completed with numStaged := completed.numStaged + 1 }
    else completed
  | .ignored => { counters with numIgnored := counters.numIgnored + 1 }
  | .semanticError => { counters with numSemanticErrors := counters.numSemanticErrors + 1 }
  | .fatalError => { counters with numFatalErrors := counters.numFatalErrors + 1 }
  | .outOfRetries => { counters with numRetryFailures := counters.numRetryFailures + 1 }

def extractStagedFileRef (result : TaskResultRecord) : Option StagedFileRef :=
  if result.outcomeType ≠ .ok then none
  else result.reportIfCompleted.map fun report =>
    ⟨report.primaryPath, report.primaryObject, report.fileSizeKb⟩

def buildManifestEntry (part : GatherPaintedPartsResult Obj) : ProjectManifestEntry Obj where
  taskId := part.taskId
  outcomeType := part.result.outcomeType
  domainExtension := part.domainExtension
  regionMapName := part.regionMapName
  stagedFile := extractStagedFileRef part.result
  errorIfFailed := part.result.errorIfFailed

/-- What the loop over the children keeps. -/
structure Gathered (Obj : Type) where
  counters : TaskCounters
  manifestEntries : List (ProjectManifestEntry Obj)
  resultsByTask : PlainObject TaskResultRecord

/-- One child: a message is recorded, anything else counts as a fatal error. -/
def gatherChild (gathered : Gathered Obj) (child : Child Obj) : Except Obj (Gathered Obj) := do
  let childEnvelope ← (Envelope.fromWire worker.runtime child.2 ReleaseVersion.currentRelease
    none).mapError fun failure => worker.errorOf (.envelope failure)
  if !childEnvelope.isMessage then
    return { gathered with counters := { gathered.counters with
      numFatalErrors := gathered.counters.numFatalErrors + 1 } }
  let payload ← childEnvelope.getPayload.mapError fun failure => worker.errorOf (.envelope failure)
  let partResult := worker.resultOf payload
  -- Progress is reported for messages only, each of which has left an entry.
  worker.updateProgress gathered.manifestEntries.length
  return {
    counters := updateCounters gathered.counters partResult.result
    manifestEntries := gathered.manifestEntries ++ [buildManifestEntry partResult]
    resultsByTask := gathered.resultsByTask.assign partResult.taskId partResult.result }

/-- What the loop over the results of the tasks ends with. -/
def collect (request : GatherProjectTasksRequest Obj) (childData : List (Child Obj)) :
    Except Obj (Gathered Obj) := do
  if childData.length = 0 then throw (worker.errorOf (.noChildTaskResults request.projectId))
  runAll (gatherChild worker) childData ⟨startCounters request.expectedTaskCount, [], .empty⟩

def projectManifest (request : GatherProjectTasksRequest Obj) (gathered : Gathered Obj) :
    ProjectManifest Obj Obj where
  projectId := request.projectId
  generatedAt := worker.generatedAt
  counters := gathered.counters
  projectDomain := request.projectDomain
  tasks := gathered.manifestEntries

def projectResult (request : GatherProjectTasksRequest Obj) (gathered : Gathered Obj) :
    GatherProjectTasksResult where
  projectId := request.projectId
  resultsByTask := gathered.resultsByTask
  resultsByGroup := .empty
  counters := gathered.counters

def gatherTasks (job : GatherJob Obj) (handling : Envelope Obj) : Except Obj Obj := do
  let payload ← handling.getPayload.mapError (Envelope.thrownValue worker.runtime)
  let request := worker.requestOf payload
  let childData ← job.childrenValues
  let gathered ← collect worker request childData
  worker.write (request.projectId ++ "/" ++ PROJECT_MANIFEST_FILENAME)
    (projectManifest worker request gathered)
  worker.updateProgress gathered.manifestEntries.length
  return worker.hostValue (projectResult request gathered)

def errorResult : GatherProjectTasksResult where
  projectId := ""
  resultsByTask := .empty
  resultsByGroup := .empty
  counters := startCounters 0

def process (beganAt : ℕ) (draws : Draws) (job : GatherJob Obj) :
    Except (Failure Obj) (Envelope Obj) :=
  processWith worker.runtime beganAt draws (worker.hostValue errorResult)
    (fun handling => ⟨[], gatherTasks worker job handling⟩) job.data

section Conservation

def messagePart (child : Child Obj) : Option (GatherPaintedPartsResult Obj) :=
  match Envelope.fromWire worker.runtime child.2 ReleaseVersion.currentRelease none with
  | .ok childEnvelope =>
    match childEnvelope.content with
    | .decodedMessage payload _ => some (worker.resultOf payload)
    | _ => none
  | .error _ => none

/-- A child whose envelope is taken off the wire: a message, an error or an invalid one. -/
def Arrives (child : Child Obj) : Prop :=
  ∃ childEnvelope, Envelope.fromWire worker.runtime child.2 ReleaseVersion.currentRelease none =
    .ok childEnvelope

/-- The loop over some children, seen from what it has gathered: every child is counted once,
every message has its entry in order, and the results are those of the messages. -/
structure Conserves (children : List (Child Obj)) (gathered : Gathered Obj) : Prop where
  counted : gathered.counters.numCompleted + gathered.counters.numIgnored +
    gathered.counters.numSemanticErrors + gathered.counters.numFatalErrors +
    gathered.counters.numRetryFailures = children.length
  staged : gathered.counters.numStaged ≤ gathered.counters.numCompleted
  entries : gathered.manifestEntries =
    (children.filterMap (messagePart worker)).map buildManifestEntry
  keys : ∀ key, key ∈ gathered.resultsByTask.keys ↔
    ∃ part ∈ children.filterMap (messagePart worker), part.taskId = key

theorem extractStagedFileRef_isSome (result : TaskResultRecord) :
    (extractStagedFileRef result).isSome ↔
      result.outcomeType = .ok ∧ result.reportIfCompleted.isSome := by
  rw [extractStagedFileRef]
  by_cases h : result.outcomeType = .ok <;> simp [h]

theorem updateCounters_counted (counters : TaskCounters) (result : TaskResultRecord) :
    (updateCounters counters result).numCompleted + (updateCounters counters result).numIgnored +
        (updateCounters counters result).numSemanticErrors +
        (updateCounters counters result).numFatalErrors +
        (updateCounters counters result).numRetryFailures =
      counters.numCompleted + counters.numIgnored + counters.numSemanticErrors +
        counters.numFatalErrors + counters.numRetryFailures + 1 := by
  rw [updateCounters]
  cases result.outcomeType with
  | ok =>
    cases result.reportIfCompleted <;>
      simp only [Option.isSome_some, Option.isSome_none, Bool.false_eq_true, if_true, if_false] <;>
      omega
  | _ =>
    simp only
    omega

theorem updateCounters_staged {counters : TaskCounters} (result : TaskResultRecord)
    (h : counters.numStaged ≤ counters.numCompleted) :
    (updateCounters counters result).numStaged ≤ (updateCounters counters result).numCompleted := by
  rw [updateCounters]
  cases result.outcomeType with
  | ok =>
    cases result.reportIfCompleted <;>
      simp only [Option.isSome_some, Option.isSome_none, Bool.false_eq_true, if_true, if_false] <;>
      omega
  | _ => exact h

/-- What a child that arrives adds: a message is recorded, anything else counted as an error. -/
def recorded (gathered : Gathered Obj) (child : Child Obj) : Gathered Obj :=
  match messagePart worker child with
  | none => { gathered with counters := { gathered.counters with
      numFatalErrors := gathered.counters.numFatalErrors + 1 } }
  | some part => {
      counters := updateCounters gathered.counters part.result
      manifestEntries := gathered.manifestEntries ++ [buildManifestEntry part]
      resultsByTask := gathered.resultsByTask.assign part.taskId part.result }

/-- The reports of progress that the messages among some children bring, after `n` others. -/
def reports (n : ℕ) (childData : List (Child Obj)) : Except Obj PUnit :=
  forM (List.range' n (childData.filterMap (messagePart worker)).length) worker.updateProgress

theorem gatherChild_arrives {child : Child Obj} (h : Arrives worker child)
    (gathered : Gathered Obj) :
    gatherChild worker gathered child =
      (reports worker gathered.manifestEntries.length [child]).map fun _ =>
        recorded worker gathered child := by
  obtain ⟨childEnvelope, hwire⟩ := h
  rw [gatherChild, reports, recorded, List.filterMap_cons, messagePart, hwire]
  simp only [Except.mapError]
  cases hc : childEnvelope.content with
  | decodedMessage payload isError =>
    have hmessage : childEnvelope.isMessage = true := by
      simp [Envelope.isMessage, Envelope.isAccepted, Envelope.state_eq hc, EnvelopeData.state]
    have hpayload : childEnvelope.getPayload = .ok payload := by
      rw [Envelope.getPayload, hc]
    rw [bind_of_ok rfl, hmessage, hpayload]
    simp only [List.filterMap_nil, List.length_singleton, List.range'_one, List.forM_cons,
      List.forM_nil]
    cases worker.updateProgress gathered.manifestEntries.length <;> rfl
  | _ =>
    have hmessage : childEnvelope.isMessage = false := by
      simp [Envelope.isMessage, Envelope.state_eq hc, EnvelopeData.state]
    rw [bind_of_ok rfl, hmessage]
    rfl

theorem conserves_recorded {children : List (Child Obj)} {child : Child Obj}
    {gathered : Gathered Obj} (h : Conserves worker children gathered)
    (hordinary : ∀ part, messagePart worker child = some part →
      part.taskId ≠ PlainObject.protoKey) :
    Conserves worker (children ++ [child]) (recorded worker gathered child) := by
  rw [recorded]
  cases hpart : messagePart worker child with
  | none =>
    have hparts : (children ++ [child]).filterMap (messagePart worker) =
        children.filterMap (messagePart worker) := by
      simp [List.filterMap_append, hpart]
    refine ⟨?_, h.staged, ?_, ?_⟩
    · have hcounted := h.counted
      simp only [List.length_append, List.length_singleton]
      omega
    · rw [hparts]
      exact h.entries
    · rw [hparts]
      exact h.keys
  | some part =>
    have hparts : (children ++ [child]).filterMap (messagePart worker) =
        children.filterMap (messagePart worker) ++ [part] := by
      simp [List.filterMap_append, hpart]
    refine ⟨?_, updateCounters_staged part.result h.staged, ?_, ?_⟩
    · simp only [updateCounters_counted, h.counted, List.length_append, List.length_singleton]
    · rw [hparts, List.map_append, List.map_singleton]
      exact congrArg (· ++ [buildManifestEntry part]) h.entries
    · intro key
      simp only [PlainObject.mem_keys_assign, h.keys, hparts, List.mem_append,
        List.mem_singleton]
      constructor
      · rintro (⟨rfl, -⟩ | ⟨other, hother, rfl⟩)
        · exact ⟨part, Or.inr rfl, rfl⟩
        · exact ⟨other, Or.inl hother, rfl⟩
      · rintro ⟨other, hother | rfl, rfl⟩
        · exact Or.inr ⟨other, hother, rfl⟩
        · exact Or.inl ⟨rfl, hordinary other hpart⟩

theorem conserves_start (totalTaskCount : ℕ) :
    Conserves worker [] ⟨startCounters totalTaskCount, [], .empty⟩ where
  counted := rfl
  staged := le_refl 0
  entries := rfl
  keys key := by simp [PlainObject.keys, PlainObject.empty]

theorem conserves_foldl {children childData : List (Child Obj)} {gathered : Gathered Obj}
    (h : Conserves worker children gathered)
    (hordinary : ∀ part ∈ childData.filterMap (messagePart worker),
      part.taskId ≠ PlainObject.protoKey) :
    Conserves worker (children ++ childData) (childData.foldl (recorded worker) gathered) := by
  induction childData generalizing children gathered with
  | nil =>
    rw [List.append_nil]
    exact h
  | cons child childData ih =>
    rw [List.append_cons, List.foldl_cons]
    refine ih (conserves_recorded worker h fun part hpart => ?_) fun part hpart => ?_
    · exact hordinary part (List.mem_filterMap.mpr ⟨child, List.mem_cons_self, hpart⟩)
    · obtain ⟨other, hother, hmessage⟩ := List.mem_filterMap.mp hpart
      exact hordinary part (List.mem_filterMap.mpr ⟨other, List.mem_cons_of_mem _ hother, hmessage⟩)

theorem length_manifestEntries_recorded (gathered : Gathered Obj) (child : Child Obj) :
    (recorded worker gathered child).manifestEntries.length =
      gathered.manifestEntries.length + ([child].filterMap (messagePart worker)).length := by
  rw [recorded, List.filterMap_cons]
  cases messagePart worker child with
  | none => rfl
  | some part => exact List.length_append

theorem reports_cons (n : ℕ) (child : Child Obj) (childData : List (Child Obj)) :
    reports worker n (child :: childData) = (reports worker n [child]).bind fun _ =>
      reports worker (n + ([child].filterMap (messagePart worker)).length) childData := by
  have hsplit : (child :: childData).filterMap (messagePart worker) =
      [child].filterMap (messagePart worker) ++ childData.filterMap (messagePart worker) := by
    rw [← List.filterMap_append, List.singleton_append]
  rw [reports, hsplit, List.length_append, ← List.range'_append_1, List.forM_append]
  rfl

/-- The loop over children that all arrive records them, unless a report of progress fails. -/
theorem runAll_gatherChild {childData : List (Child Obj)}
    (harrive : ∀ child ∈ childData, Arrives worker child) (gathered : Gathered Obj) :
    runAll (gatherChild worker) childData gathered =
      (reports worker gathered.manifestEntries.length childData).map fun _ =>
        childData.foldl (recorded worker) gathered := by
  induction childData generalizing gathered with
  | nil => rfl
  | cons child childData ih =>
    rw [List.forall_mem_cons] at harrive
    rw [runAll, gatherChild_arrives worker harrive.1,
      reports_cons worker gathered.manifestEntries.length child childData]
    cases reports worker gathered.manifestEntries.length [child] with
    | error thrown => rfl
    | ok _ =>
      refine (ih harrive.2 _).trans ?_
      rw [length_manifestEntries_recorded]
      rfl

end Conservation

/-- What a manifest says of a part. -/
structure EntryOf (part : GatherPaintedPartsResult Obj) (entry : ProjectManifestEntry Obj) :
    Prop where
  taskId : entry.taskId = part.taskId
  outcomeType : entry.outcomeType = part.result.outcomeType
  stagedFile : entry.stagedFile.isSome ↔
    part.result.outcomeType = .ok ∧ part.result.reportIfCompleted.isSome

theorem entryOf_buildManifestEntry (part : GatherPaintedPartsResult Obj) :
    EntryOf part (buildManifestEntry part) :=
  ⟨rfl, rfl, extractStagedFileRef_isSome part.result⟩

/-- The results of the tasks of a project, all accounted for: unless a report of progress or the
manifest's writing fails, the manifest and the reply count every child once, list every message
once and in order, and key the results by task. Task ids are identifiers, none of which is the name
of the prototype. -/
theorem gatherTasks_conserves {job : GatherJob Obj} {handling : Envelope Obj} {payload : Obj}
    (hpayload : handling.getPayload = .ok payload) {childData : List (Child Obj)}
    (hchildren : job.childrenValues = .ok childData) (hnonempty : childData ≠ [])
    (harrive : ∀ child ∈ childData, Arrives worker child)
    (hordinary : ∀ part ∈ childData.filterMap (messagePart worker),
      part.taskId ≠ PlainObject.protoKey) :
    ∃ manifest result, gatherTasks worker job handling = (do
        reports worker 0 childData
        worker.write ((worker.requestOf payload).projectId ++ "/" ++ PROJECT_MANIFEST_FILENAME)
          manifest
        worker.updateProgress manifest.tasks.length
        return worker.hostValue result) ∧
      manifest.counters = result.counters ∧
      result.counters.numCompleted + result.counters.numIgnored +
        result.counters.numSemanticErrors + result.counters.numFatalErrors +
        result.counters.numRetryFailures = childData.length ∧
      result.counters.numStaged ≤ result.counters.numCompleted ∧
      List.Forall₂ EntryOf (childData.filterMap (messagePart worker)) manifest.tasks ∧
      ∀ key, key ∈ result.resultsByTask.keys ↔
        ∃ part ∈ childData.filterMap (messagePart worker), part.taskId = key := by
  have hrun := runAll_gatherChild worker harrive
    ⟨startCounters (worker.requestOf payload).expectedTaskCount, [], .empty⟩
  have hconserves := conserves_foldl worker
    (conserves_start worker (worker.requestOf payload).expectedTaskCount) hordinary
  have hlength : childData.length ≠ 0 := fun h => hnonempty (List.length_eq_zero_iff.mp h)
  have hcollect : collect worker (worker.requestOf payload) childData =
      (reports worker 0 childData).map fun _ => childData.foldl (recorded worker)
        ⟨startCounters (worker.requestOf payload).expectedTaskCount, [], .empty⟩ := by
    rw [collect, if_neg hlength]
    exact hrun
  refine ⟨projectManifest worker (worker.requestOf payload) _,
    projectResult (worker.requestOf payload) _, ?_, rfl, hconserves.counted,
    hconserves.staged, ?_, hconserves.keys⟩
  · rw [gatherTasks, hpayload, hchildren]
    simp only [Except.mapError, bind, Except.bind, hcollect]
    cases reports worker 0 childData <;> rfl
  · simp only [projectManifest, hconserves.entries]
    rw [List.forall₂_map_right_iff]
    exact List.forall₂_same.mpr fun part _ => entryOf_buildManifestEntry part

def taskWorker : Worker ℕ where
  runtime := Envelope.echoRuntime
  requestOf := fun _ => ⟨"p1", 2, 0⟩
  resultOf := fun _ =>
    ⟨"t1", none, ⟨.ok, some ⟨some "p1/t1.png", none, .finite 3⟩, none⟩, none, none⟩
  hostValue := fun _ => 0
  errorOf := fun _ => 0
  generatedAt := "now"
  write := fun _ _ => .ok ⟨⟩
  updateProgress := fun _ => .ok ⟨⟩

def taskChildren : List (Child ℕ) :=
  [("c1", Envelope.paintMemento), ("c2", { Envelope.paintMemento with isError := true })]

private theorem arrives_taskChildren : ∀ child ∈ taskChildren, Arrives taskWorker child := by
  intro child hchild
  have hversion : Envelope.remoteVersion child.2.headers = some ReleaseVersion.currentRelease := by
    rcases List.mem_cons.mp hchild with rfl | hchild
    · exact (show ReleaseVersion.parse "1.0.0" = _ by decide +kernel)
    · rw [List.mem_singleton.mp hchild]
      exact (show ReleaseVersion.parse "1.0.0" = _ by decide +kernel)
  exact ⟨_, Envelope.fromWire_decoded _ _ _ hversion (by decide) rfl rfl⟩

private theorem ordinary_taskChildren :
    ∀ part ∈ taskChildren.filterMap (messagePart taskWorker),
      part.taskId ≠ PlainObject.protoKey := by
  intro part hpart
  obtain ⟨child, -, hmessage⟩ := List.mem_filterMap.mp hpart
  rw [messagePart] at hmessage
  split at hmessage
  · split at hmessage
    · cases hmessage
      exact (show "t1" ≠ PlainObject.protoKey by decide)
    · cases hmessage
  · cases hmessage

theorem gatherTasks_conserves_taskChildren :
    ∃ manifest result, gatherTasks taskWorker ⟨Envelope.paintMemento, .ok taskChildren⟩
        Envelope.paintRequest = (do
          reports taskWorker 0 taskChildren
          taskWorker.write ((taskWorker.requestOf 5).projectId ++ "/" ++
            PROJECT_MANIFEST_FILENAME) manifest
          taskWorker.updateProgress manifest.tasks.length
          return taskWorker.hostValue result) ∧
      manifest.counters = result.counters ∧
      result.counters.numCompleted + result.counters.numIgnored +
        result.counters.numSemanticErrors + result.counters.numFatalErrors +
        result.counters.numRetryFailures = taskChildren.length ∧
      result.counters.numStaged ≤ result.counters.numCompleted ∧
      List.Forall₂ EntryOf (taskChildren.filterMap (messagePart taskWorker)) manifest.tasks ∧
      ∀ key, key ∈ result.resultsByTask.keys ↔
        ∃ part ∈ taskChildren.filterMap (messagePart taskWorker), part.taskId = key :=
  gatherTasks_conserves taskWorker rfl rfl (by simp [taskChildren]) arrives_taskChildren
    ordinary_taskChildren

/-- Neither gathering worker answers a job whose envelope is an error or invalid: both throw on
the state of the envelope, whatever they are built from. -/
theorem bad_messages_unanswered {rt : Envelope.Runtime Obj} {job : GatherJob Obj}
    {e : Envelope Obj}
    (hwire : Envelope.fromWire rt job.data ReleaseVersion.currentRelease none = .ok e)
    (hstate : e.state = .decodedError ∨ e.state = .invalid) (beganAt : ℕ) (draws : Draws) :
    (∀ worker : GatheringWorker.Worker Obj, worker.runtime = rt →
      ¬Replies (GatheringWorker.process worker beganAt draws job)) ∧
    (∀ worker : Worker Obj, worker.runtime = rt → ¬Replies (process worker beganAt draws job)) := by
  constructor
  · rintro worker rfl ⟨reply, hreply, -⟩
    rw [GatheringWorker.process, processWith_of_not_message hwire hstate] at hreply
    cases hreply
  · rintro worker rfl ⟨reply, hreply, -⟩
    rw [process, processWith_of_not_message hwire hstate] at hreply
    cases hreply

def errorJob : GatherJob ℕ := ⟨{ Envelope.paintMemento with isError := true }, .ok []⟩

private theorem fromWire_errorJob :
    Envelope.fromWire Envelope.echoRuntime errorJob.data ReleaseVersion.currentRelease none =
      .ok { Envelope.wireEnvelope errorJob.data with content := .decodedError 5 true } :=
  Envelope.fromWire_decoded _ _ _
    (show ReleaseVersion.parse "1.0.0" = some ReleaseVersion.currentRelease by decide +kernel)
    (by decide) rfl rfl

theorem bad_messages_unanswered_errorJob :
    (∀ worker : GatheringWorker.Worker ℕ, worker.runtime = Envelope.echoRuntime →
      ¬Replies (GatheringWorker.process worker 1 Envelope.countingDraws errorJob)) ∧
    (∀ worker : Worker ℕ, worker.runtime = Envelope.echoRuntime →
      ¬Replies (process worker 1 Envelope.countingDraws errorJob)) :=
  bad_messages_unanswered fromWire_errorJob (Or.inl rfl) 1 Envelope.countingDraws

/-- The envelope of the job is taken as an error, and the worker throws instead of replying. -/
theorem errorJob_unanswered :
    ∃ e, Envelope.fromWire taskWorker.runtime errorJob.data ReleaseVersion.currentRelease none =
        .ok e ∧ e.state = .decodedError ∧
      ¬Replies (process taskWorker 1 Envelope.countingDraws errorJob) := by
  refine ⟨_, fromWire_errorJob, rfl, ?_⟩
  rintro ⟨reply, hreply, -⟩
  cases (processWith_of_not_message fromWire_errorJob (Or.inl rfl)).symm.trans hreply

end RandomArt.ProjectGathering
