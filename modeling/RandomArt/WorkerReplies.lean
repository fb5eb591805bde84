import RandomArt.EnvelopeHandling
import RandomArt.GatheringWorker

/-!
# How the gathering workers reply

A worker takes the envelope of its job off the wire. A message is handled; for anything else
the worker sets out to reply with an error result, for which it has to begin the handling of an
envelope that is no message.
-/

namespace RandomArt

open Envelope (Draws Handled Failure Method)

variable {Obj : Type}

/-- A job of a queue: its envelope, and what asking for the results of its children gives. -/
structure GatherJob (Obj : Type) where
  data : EnvelopeMemento Obj
  childrenValues : Except Obj (List (GatheringWorker.Child Obj))

namespace WorkerReplies

def createErrorReply (rt : Envelope.Runtime Obj) (beganAt : ℕ) (draws : Draws)
    (errorResult : Obj) : Method Obj (Envelope Obj) := do
  Envelope.beginHandling beganAt
  let replyEnvelope ← Envelope.startReplying (draws.ulid 0) (draws.now 0) none none none
  let committed ← replyEnvelope.applyTo (Envelope.commitBody rt errorResult)
  let _ ← Envelope.endHandling (draws.now 1)
  return committed

/-- What a worker does with the envelope of its job. -/
def processWith (rt : Envelope.Runtime Obj) (beganAt : ℕ) (draws : Draws) (errorResult : Obj)
    (handler : Envelope Obj → Handled Obj) (memento : EnvelopeMemento Obj) :
    Except (Failure Obj) (Envelope Obj) :=
  match Envelope.fromWire rt memento ReleaseVersion.currentRelease none with
  | .error failure => .error failure
  | .ok requestEnvelope =>
    if !requestEnvelope.isMessage then
      ((createErrorReply rt beganAt draws errorResult).exec requestEnvelope).1
    else ((Envelope.handleWith rt beganAt draws handler none).exec requestEnvelope).1

def Replies (settled : Except (Failure Obj) (Envelope Obj)) : Prop :=
  ∃ reply, settled = .ok reply ∧ reply.state = .encoded

/-- An envelope that is no message cannot be handled, so there is no error reply to it. -/
theorem processWith_of_not_message {rt : Envelope.Runtime Obj} {beganAt : ℕ} {draws : Draws}
    {errorResult : Obj} {handler : Envelope Obj → Handled Obj} {memento : EnvelopeMemento Obj}
    {e : Envelope Obj} (hwire : Envelope.fromWire rt memento ReleaseVersion.currentRelease none =
      .ok e) (hstate : e.state = .decodedError ∨ e.state = .invalid) :
    processWith rt beganAt draws errorResult handler memento =
      .error (.stateViolation [.decodedMessage] e.state) := by
  have hmessage : e.isMessage = false := by
    rcases hstate with h | h <;> simp [Envelope.isMessage, h]
  have hbegin : (Envelope.beginHandling beganAt).exec e =
      (.error (.stateViolation [.decodedMessage] e.state), e) := by
    rw [Envelope.beginHandling]
    simp only [Failing.exec_bind, Failing.exec_get]
    cases hc : e.content <;> rw [Envelope.state_eq hc] at hstate ⊢ <;>
      first
      | rfl
      | simp [EnvelopeData.state] at hstate
  rw [processWith, hwire]
  simp only [hmessage, Bool.not_false, if_true]
  rw [createErrorReply, Failing.exec_bind, hbegin]

end WorkerReplies

namespace GatheringWorker

open WorkerReplies

variable (worker : Worker Obj)

/-- Put the image of a task together from its children, and stage it. -/
def gatherParts (job : GatherJob Obj) (handling : Envelope Obj) : Except Obj Obj := do
  let payload ← handling.getPayload.mapError (Envelope.thrownValue worker.runtime)
  let request := worker.requestOf payload
  let imageSize := request.paintGeometry.imageSize
  let childData ← job.childrenValues
  let pixelsData ← assembleImage worker PaintTaskEngine.sizeCheck request.taskId
    imageSize.pixelWidth imageSize.pixelHeight childData
  let imageData ← worker.encodePixelsData pixelsData
  let result ← worker.stage {
    imageData
    taskId := request.taskId
    projectId := request.projectId
    genSeed := request.paintTask.genSeed
    width := imageSize.pixelWidth
    height := imageSize.pixelHeight }
  worker.updateProgress childData.length
  return worker.hostValue {
    taskId := request.taskId
    projectId := request.projectId
    result
    domainExtension := some request.paintTask.domainExtension
    regionMapName := request.paintTask.plotDataRef.regionMapName }

def errorResult : GatherPaintedPartsResult Obj where
  taskId := ""
  projectId := none
  result := ⟨.fatalError, none, some "Invalid or error envelope received"⟩
  domainExtension := none
  regionMapName := none

def process (beganAt : ℕ) (draws : Draws) (job : GatherJob Obj) :
    Except (Failure Obj) (Envelope Obj) :=
  processWith worker.runtime beganAt draws (worker.hostValue errorResult)
    (fun handling => ⟨[], gatherParts worker job handling⟩) job.data

end GatheringWorker

end RandomArt
