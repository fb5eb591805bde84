import RandomArt.SentJobs

/-!
# How the workers reply to failed parts

No part is ever painted, so each paint job is replied to with an error. A task cannot be put
together from errors, and is replied to with another one. The project counts them.
-/

namespace RandomArt

open Envelope (Draws)
open WorkerReplies FallibleFold

variable {Obj : Type}

namespace GatheringWorker

/-- A child that arrives without a message. -/
def Unmessaged (rt : Envelope.Runtime Obj) (child : Child Obj) : Prop :=
  ∃ received, Envelope.fromWire rt child.2 ReleaseVersion.currentRelease none = .ok received ∧
    received.isMessage = false

theorem childPart_of_unmessaged {rt : Envelope.Runtime Obj} {child : Child Obj}
    (h : Unmessaged rt child) (partOf : Obj → PartialPaintResult) (taskId : String) :
    childPart rt partOf taskId child = .error (.invalidChild taskId child.1) := by
  obtain ⟨received, hwire, hmessage⟩ := h
  rw [childPart, hwire]
  simp only [Except.mapError, bind, Except.bind, hmessage]
  rfl

variable {worker : Worker Obj} {childData : List (Child Obj)}

/-- Nothing is put together from children without messages: the first of them is thrown out before
any progress is reported. -/
theorem assembleImage_refused (h : ∀ child ∈ childData, Unmessaged worker.runtime child)
    (checkSize : PaintTaskEngine.SizeCheck) (taskId : String) (pixelWidth pixelHeight : ℕ) :
    ∃ failure, assembleImage worker checkSize taskId pixelWidth pixelHeight childData =
      .error (worker.errorOf failure) := by
  cases childData with
  | nil => exact ⟨_, rfl⟩
  | cons child rest =>
    refine ⟨.invalidChild taskId child.1, ?_⟩
    have hpart := childPart_of_unmessaged (h child List.mem_cons_self) worker.partOf taskId
    have hfold : (child :: rest).zipIdx.foldlM (gatherNext worker taskId)
        (List.replicate (pixelWidth * pixelHeight * 4) 0) =
          .error (worker.errorOf (.invalidChild taskId child.1)) := by
      rw [List.zipIdx_cons, List.foldlM_cons, gatherNext, gatherChildPart, hpart]
      rfl
    rw [assembleImage, if_neg (by simp)]
    simp only [hfold, bind, Except.bind]

theorem gatherParts_refused {job : GatherJob Obj} {handling : Envelope Obj} {payload : Obj}
    (hpayload : handling.getPayload = .ok payload) (hchildren : job.childrenValues = .ok childData)
    (h : ∀ child ∈ childData, Unmessaged worker.runtime child) :
    ∃ failure, gatherParts worker job handling = .error (worker.errorOf failure) := by
  obtain ⟨failure, hfailure⟩ := assembleImage_refused h PaintTaskEngine.sizeCheck
    (worker.requestOf payload).taskId (worker.requestOf payload).paintGeometry.imageSize.pixelWidth
    (worker.requestOf payload).paintGeometry.imageSize.pixelHeight
  refine ⟨failure, ?_⟩
  rw [gatherParts, hpayload, hchildren]
  simp only [Except.mapError, bind, Except.bind, hfailure]

end GatheringWorker

namespace ProjectGathering

open GatheringWorker (Child Unmessaged)

variable (worker : Worker Obj)

def failedCounters (taskCount : ℕ) : TaskCounters :=
  { startCounters taskCount with numFatalErrors := taskCount }

theorem gatherChild_unmessaged {child : Child Obj} (h : Unmessaged worker.runtime child)
    (gathered : Gathered Obj) :
    gatherChild worker gathered child = .ok { gathered with counters := { gathered.counters with
      numFatalErrors := gathered.counters.numFatalErrors + 1 } } := by
  obtain ⟨received, hwire, hmessage⟩ := h
  rw [gatherChild, hwire]
  simp only [Except.mapError, bind, Except.bind, hmessage]
  rfl

/-- Children without messages are only counted. -/
theorem runAll_unmessaged {childData : List (Child Obj)}
    (h : ∀ child ∈ childData, Unmessaged worker.runtime child) (gathered : Gathered Obj) :
    runAll (gatherChild worker) childData gathered = .ok { gathered with
      counters := { gathered.counters with
        numFatalErrors := gathered.counters.numFatalErrors + childData.length } } := by
  induction childData generalizing gathered with
  | nil => rfl
  | cons child rest ih =>
    rw [List.forall_mem_cons] at h
    rw [runAll_cons_ok (gatherChild_unmessaged worker h.1 gathered), ih h.2, List.length_cons]
    simp only [Nat.add_assoc, Nat.add_comm rest.length 1]

/-- What is gathered when all tasks have failed. -/
def failedTasks (taskCount : ℕ) : Gathered Obj := ⟨failedCounters taskCount, [], .empty⟩

theorem gatherTasks_unmessaged {job : GatherJob Obj} {handling : Envelope Obj} {payload : Obj}
    (hpayload : handling.getPayload = .ok payload) {childData : List (Child Obj)}
    (hchildren : job.childrenValues = .ok childData) (hnonempty : childData ≠ [])
    (h : ∀ child ∈ childData, Unmessaged worker.runtime child)
    (hcount : (worker.requestOf payload).expectedTaskCount = childData.length) :
    gatherTasks worker job handling = (do
      worker.write ((worker.requestOf payload).projectId ++ "/" ++ PROJECT_MANIFEST_FILENAME)
        (projectManifest worker (worker.requestOf payload) (failedTasks childData.length))
      worker.updateProgress 0
      return worker.hostValue (projectResult (worker.requestOf payload)
        (failedTasks childData.length))) := by
  have hlength : childData.length ≠ 0 := fun h => hnonempty (List.length_eq_zero_iff.mp h)
  have hcollect : collect worker (worker.requestOf payload) childData =
      .ok (failedTasks childData.length) := by
    rw [collect, if_neg hlength]
    refine (runAll_unmessaged worker h _).trans ?_
    rw [hcount, failedTasks, failedCounters, startCounters]
    simp only [Nat.zero_add]
  rw [gatherTasks, hpayload, hchildren]
  simp only [Except.mapError, bind, Except.bind, hcollect]
  rfl

end ProjectGathering

end RandomArt
