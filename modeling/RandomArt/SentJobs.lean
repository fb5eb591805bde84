import RandomArt.PaintingWorker
import RandomArt.ProjectGathering
import RandomArt.SentProject

/-!
# Working on what has been sent

A worker takes the envelope of its job off the wire as a message and hands the body that was
committed to its handler. Where the handler rejects, the reply is an error, and an envelope with
an error is no message to whoever waits for it.
-/

namespace RandomArt.FlowProducer

open Envelope WorkerReplies
open GatheringWorker (Child)

variable {Obj Domain ProjectDomain Coord : Type}
variable {producer : Producer Obj Domain ProjectDomain Coord} {codec : EnvelopeCodec Obj}

def mementoOf (e : Envelope Obj) (payload : Obj) (isError : Bool) : EnvelopeMemento Obj where
  trace := e.trace
  workloadId := e.workloadId
  headers := e.headers
  spanTiming := e.spanTiming
  payload
  isError

theorem toJSON_eq {e : Envelope Obj} {payload : Obj} {isError : Bool}
    (h : e.content = .encoded payload isError) : e.toJSON = .ok (mementoOf e payload isError) := by
  rw [toJSON, h]
  rfl

/-- A reply in the trace of what it replies to. -/
structure InTrace (request reply : Envelope Obj) : Prop where
  workloadId : reply.workloadId = WORKLOAD_RANDOM_ART
  headers : reply.headers = releaseHeaders
  correlationId : reply.trace.correlationId = request.trace.correlationId
  causationId : reply.trace.causationId = request.trace.messageId

structure ErrorReply (request reply : Envelope Obj) : Prop extends InTrace request reply where
  content : ∃ payload, reply.content = .encoded payload true

/-- A reply whose payload is the encoding of a result. -/
structure ResultReply (codec : EnvelopeCodec Obj) (result : Obj) (request reply : Envelope Obj) :
    Prop extends InTrace request reply where
  content : ∃ payload, reply.content = .encoded payload false ∧
    codec.encode result ReleaseVersion.currentRelease = .ok payload

theorem remoteVersion_releaseHeaders :
    remoteVersion releaseHeaders = some ReleaseVersion.currentRelease := by
  rw [remoteVersion, releaseHeader, releaseHeaders, List.find?_cons_of_pos (by simp)]
  exact parse_currentRelease

/-- The envelope of a job while its handler works on it. -/
structure Working (producer : Producer Obj Domain ProjectDomain Coord)
    (body : Body Domain ProjectDomain) 
    (request handling : Envelope Obj) : Prop where
  content : handling.content = .handling (producer.hostValue body) false
  trace : handling.trace = request.trace
  workloadId : handling.workloadId = WORKLOAD_RANDOM_ART
  headers : handling.headers = releaseHeaders

section Working

variable {body : Body Domain ProjectDomain} {request handling : Envelope Obj}
  (hworking : Working producer body request handling)
include hworking

theorem Working.releaseVersion :
    handling.releaseVersion = .ok (some ReleaseVersion.currentRelease) :=
  releaseVersion_of_headers hworking.headers

theorem Working.getPayload : handling.getPayload = .ok (producer.hostValue body) := by
  rw [Envelope.getPayload, hworking.content]

theorem Working.registered (hcarries : CarriesBodies producer codec) :
    producer.runtime.registry handling.workloadId = some codec := by
  rw [hworking.workloadId, hcarries.registered]

theorem Working.inTrace (messageId : String) (now : ℕ) (content : EnvelopeData Obj) :
    InTrace request { startedReply handling ReleaseVersion.currentRelease messageId now none with
      content } where
  workloadId := hworking.workloadId
  headers := rfl
  correlationId := hworking.trace ▸ rfl
  causationId := hworking.trace ▸ rfl

end Working

section Handling

variable (hcarries : CarriesBodies producer codec)
include hcarries

variable {e : Envelope Obj} {body : Body Domain ProjectDomain} {memento : EnvelopeMemento Obj}

/-- What was sent is received as a message with its body. -/
theorem Sent.fromWire (hsent : Sent producer codec body e) (hjson : e.toJSON = .ok memento) :
    Envelope.fromWire producer.runtime memento ReleaseVersion.currentRelease none =
      .ok { wireEnvelope memento with
        content := .decodedMessage (producer.hostValue body) false } := by
  obtain ⟨payload, hcontent, hdecode⟩ := hsent.content
  rw [toJSON_eq hcontent] at hjson
  cases hjson
  have hversion : remoteVersion e.headers = some ReleaseVersion.currentRelease := by
    rw [hsent.headers, remoteVersion_releaseHeaders]
  have hcodec : producer.runtime.registry e.workloadId = some codec := by
    rw [hsent.workloadId, hcarries.registered]
  exact fromWire_decoded producer.runtime (mementoOf e payload false) _ hversion (by decide) hcodec
    hdecode

/-- A handler that calls nothing settles for a reply. -/
theorem Sent.handled (hsent : Sent producer codec body e) (hjson : e.toJSON = .ok memento)
    (beganAt : ℕ) (draws : Draws) (outcome : Envelope Obj → Except Obj Obj) :
    ∃ received handling, Envelope.fromWire producer.runtime memento ReleaseVersion.currentRelease
        none = .ok received ∧ received.isMessage = true ∧
      Working producer body e handling ∧
      (handleWith producer.runtime beganAt draws (fun handling => ⟨[], outcome handling⟩)
        none).exec received =
        (replyWith producer.runtime draws none (outcome handling)).exec handling := by
  have hwire := hsent.fromWire hcarries hjson
  obtain ⟨payload, hcontent, -⟩ := hsent.content
  rw [toJSON_eq hcontent] at hjson
  cases hjson
  refine ⟨_, { wireEnvelope (mementoOf e payload false) with
    content := .handling (producer.hostValue body) false
    spanTiming := { e.spanTiming with handlingStartedAt := some beganAt } }, hwire, rfl,
    ⟨rfl, rfl, hsent.workloadId, hsent.headers⟩, rfl⟩

section Outcomes

variable {request handling : Envelope Obj} (hworking : Working producer body request handling)
include hworking

theorem Working.rejects (herrors : EncodesErrors producer.runtime codec) {value error : Obj}
    (hvalue : producer.runtime.asError value = .ok error) (draws : Draws) :
    ∃ reply, ((replyWith producer.runtime draws none (.error value)).exec handling).1 =
      .ok reply ∧ ErrorReply request reply := by
  have hcodec := hworking.registered hcarries
  rw [exec_replyWith_of_failure draws none hworking.content hworking.releaseVersion hcodec rfl]
  rcases exec_replyWithError draws value hworking.content hworking.releaseVersion hcodec herrors
    with ⟨thrown, hthrown, -⟩ | ⟨error', encoded, -, hexec⟩
  · rw [hvalue] at hthrown
    cases hthrown
  · rw [hexec]
    exact ⟨_, rfl, hworking.inTrace _ _ _, encoded, rfl⟩

theorem Working.resolves {result payload : Obj}
    (hencode : codec.encode result ReleaseVersion.currentRelease = .ok payload) (draws : Draws) :
    ∃ reply, ((replyWith producer.runtime draws none (.ok result)).exec handling).1 =
      .ok reply ∧ ResultReply codec result request reply := by
  have hcodec := hworking.registered hcarries
  have hcommit : (commitBody producer.runtime result).exec (startedReply handling
      ReleaseVersion.currentRelease (draws.ulid 0) (draws.now 0) none) = (.ok ⟨⟩,
        { startedReply handling ReleaseVersion.currentRelease (draws.ulid 0) (draws.now 0) none
          with content := .encoded payload false }) := by
    rw [commitBody, Failing.exec_bind, Failing.exec_get]
    simp only [startedReply, Failing.exec_bind, Failing.exec_get, exec_getCodec, hcodec,
      exec_throwing, hencode]
    rfl
  rw [replyWith, Failing.exec_tryCatch, Failing.exec_bind, exec_throwing]
  simp only
  rw [replyWithBody, Failing.exec_bind,
    Envelope.exec_startReplying hworking.content hworking.releaseVersion]
  simp only [Failing.exec_bind, applyTo, hcommit, Failing.exec_pure,
    exec_endHandling hworking.content]
  exact ⟨_, rfl, hworking.inTrace _ _ _, payload, rfl, hencode⟩

end Outcomes

end Handling

theorem ErrorReply.fromWire (hcarries : CarriesBodies producer codec)
    {request reply : Envelope Obj} {memento : EnvelopeMemento Obj}
    (hreply : ErrorReply request reply) (hjson : reply.toJSON = .ok memento) :
    ∃ received, Envelope.fromWire producer.runtime memento ReleaseVersion.currentRelease none =
      .ok received ∧ received.isMessage = false := by
  obtain ⟨payload, hcontent⟩ := hreply.content
  rw [toJSON_eq hcontent] at hjson
  cases hjson
  have hversion : remoteVersion reply.headers = some ReleaseVersion.currentRelease := by
    rw [hreply.headers, remoteVersion_releaseHeaders]
  have hcodec : producer.runtime.registry reply.workloadId = some codec := by
    rw [hreply.workloadId, hcarries.registered]
  cases hdecode : codec.decode payload ReleaseVersion.currentRelease with
  | ok value =>
    exact ⟨_, fromWire_decoded producer.runtime (mementoOf reply payload true) _ hversion
      (by decide) hcodec hdecode, rfl⟩
  | error thrown =>
    have hreadable : VersionReadable reply.headers := by
      intro text htext hparse
      rw [remoteVersion, htext, Option.bind_some, hparse] at hversion
      cases hversion
    have hfailed : codec.decode payload ((remoteVersion reply.headers).getD
        ReleaseVersion.currentRelease) = .error thrown := by
      rw [hversion]
      exact hdecode
    obtain ⟨content, hwire, -, hinvalid⟩ := fromWire_of_readable producer.runtime
      (mementoOf reply payload true) ReleaseVersion.currentRelease none hreadable
    have hstate : content.state = .invalid := hinvalid.mpr (.decodeFailed hcodec hfailed)
    exact ⟨_, hwire, by simp [isMessage, state, hstate]⟩

end RandomArt.FlowProducer
