import RandomArt.FailingSteps
import RandomArt.ReleaseVersion
import Mathlib.Data.List.Basic

/-!
# Envelopes

An envelope carries one message through its lifecycle. Methods change the content
in place and may throw partway; codecs, the text of errors, the clock and the id
factory lie outside and are parameters. All host values are of one type `Obj`.
-/

namespace RandomArt

structure Header where
  key : String
  value : String
  deriving DecidableEq

structure TraceIdentifier where
  correlationId : String
  causationId : String
  messageId : String
  deriving DecidableEq

structure SpanTiming where
  createdAt : ℕ
  handlingStartedAt : Option ℕ
  handlingEndedAt : Option ℕ
  deriving DecidableEq

inductive MessageLifecycle where
  | awaitingPayload
  | encoded
  | received
  | decodedMessage
  | decodedError
  | invalid
  | handling
  | exhausted
  deriving DecidableEq

structure OutboundConfig where
  releaseVersion : ReleaseVersion
  metadataMap : Option (List (String × String))

/-- The content of an envelope, one shape for each lifecycle state. -/
inductive EnvelopeData (Obj : Type) where
  | awaitingPayload (outboundConfig : OutboundConfig)
  | encoded (payload : Obj) (isError : Bool)
  | received (payload : Obj) (isError : Bool)
  | decodedMessage (payload : Obj) (isError : Bool)
  | decodedError (payload : Obj) (isError : Bool)
  | invalid (payload : Obj) (isError : Bool)
  | handling (payload : Obj) (isError : Bool)
  | exhausted (payload : Obj) (isError : Bool)

namespace EnvelopeData

variable {Obj : Type}

def state : EnvelopeData Obj → MessageLifecycle
  | awaitingPayload _ => .awaitingPayload
  | encoded _ _ => .encoded
  | received _ _ => .received
  | decodedMessage _ _ => .decodedMessage
  | decodedError _ _ => .decodedError
  | invalid _ _ => .invalid
  | handling _ _ => .handling
  | exhausted _ _ => .exhausted

def payload : EnvelopeData Obj → Option Obj
  | awaitingPayload _ => none
  | encoded p _ | received p _ | decodedMessage p _ | decodedError p _ | invalid p _
  | handling p _ | exhausted p _ => some p

def isError : EnvelopeData Obj → Option Bool
  | awaitingPayload _ => none
  | encoded _ b | received _ b | decodedMessage _ b | decodedError _ b | invalid _ b
  | handling _ b | exhausted _ b => some b

end EnvelopeData

structure Envelope (Obj : Type) where
  trace : TraceIdentifier
  workloadId : String
  headers : List Header
  content : EnvelopeData Obj
  spanTiming : SpanTiming

structure EnvelopeMemento (Obj : Type) where
  trace : TraceIdentifier
  workloadId : String
  headers : List Header
  spanTiming : SpanTiming
  payload : Obj
  isError : Bool

/-- Serialization of one workload; either side may throw a value. -/
structure EnvelopeCodec (Obj : Type) where
  encode : Obj → ReleaseVersion → Except Obj Obj
  decode : Obj → ReleaseVersion → Except Obj Obj

abbrev Transformer (Obj : Type) := Obj → ReleaseVersion → Except Obj Obj

namespace Envelope

def HDR_ENGINE_RELEASE : String := "x-engine-release"

/-- What the methods throw: their own errors, or a value thrown by outside code. -/
inductive Failure (Obj : Type) where
  | stateViolation (expected : List MessageLifecycle) (actual : MessageLifecycle)
  | replyPairing
  | noReleaseVersion
  | noCodec (id : String)
  | malformedVersion
  | versionMismatch (remote localVersion : String)
  | undefinedEnvelope
  | thrown (value : Obj)

/-- The code that envelopes call but do not contain. -/
structure Runtime (Obj : Type) where
  registry : String → Option (EnvelopeCodec Obj)
  /-- A property of a value; none when it is undefined or null. -/
  field : Obj → String → Except Obj (Option Obj)
  stringify : Obj → Except Obj String
  /-- The error value that stands for a failure. -/
  errorValue : Failure Obj → Obj
  /-- A thrown value as an error: itself if it is one, else an error with its text. -/
  asError : Obj → Except Obj Obj

/-- A method body: it may throw, and keeps what it has changed. -/
abbrev Method (Obj : Type) := Failing (Failure Obj) (Envelope Obj)

variable {Obj : Type} (rt : Runtime Obj)

def state (envelope : Envelope Obj) : MessageLifecycle := envelope.content.state

def throwing {α : Type} (call : Except Obj α) : Method Obj α :=
  match call with
  | .ok a => pure a
  | .error value => throw (.thrown value)

def assertState (expected : List MessageLifecycle) : Method Obj PUnit := do
  let currentState := (← get).state
  if expected.contains currentState then pure () else throw (.stateViolation expected currentState)

def getCodec (id : String) : Method Obj (EnvelopeCodec Obj) :=
  match rt.registry id with
  | some codec => pure codec
  | none => throw (.noCodec id)

/-- The release version in the headers; reading a malformed one throws. -/
def releaseVersion (envelope : Envelope Obj) : Except (Failure Obj) (Option ReleaseVersion) :=
  match envelope.headers.find? (·.key == HDR_ENGINE_RELEASE) with
  | none => .ok none
  | some header =>
    match ReleaseVersion.parse header.value with
    | some version => .ok (some version)
    | none => .error .malformedVersion

def isAccepted (envelope : Envelope Obj) : Bool :=
  match envelope.state with
  | .invalid | .decodedMessage | .decodedError => true
  | _ => false

def isMessage (envelope : Envelope Obj) : Bool :=
  envelope.isAccepted && envelope.state == .decodedMessage

def isError (envelope : Envelope Obj) : Bool :=
  envelope.isAccepted && envelope.state == .decodedError

def getPayload (envelope : Envelope Obj) : Except (Failure Obj) Obj :=
  match envelope.content with
  | .decodedMessage payload _ | .handling payload _ => .ok payload
  | other => .error (.stateViolation [.decodedMessage, .handling] other.state)

/-- A new envelope that awaits its payload; `messageId` is the id drawn from the factory. -/
def createEnvelope (messageId : String) (now : ℕ) (workloadId : String)
    (releaseVersion : ReleaseVersion) (metadataMap : Option (List (String × String)))
    (correlationId causationId : Option String) : Envelope Obj where
  trace := {
    correlationId := correlationId.getD messageId
    causationId := (causationId <|> correlationId).getD messageId
    messageId }
  workloadId
  headers := [⟨HDR_ENGINE_RELEASE, releaseVersion.toString⟩]
  content := .awaitingPayload ⟨releaseVersion, metadataMap⟩
  spanTiming := ⟨now, none, none⟩

/-- The envelope rebuilt from its wire form, before it is accepted. -/
def wireEnvelope (memento : EnvelopeMemento Obj) : Envelope Obj where
  trace := memento.trace
  workloadId := memento.workloadId
  headers := memento.headers
  content := .received memento.payload memento.isError
  spanTiming := memento.spanTiming

/-- Decoding and migration of a received payload, the part whose errors are caught. -/
def decodeReceived (localVersion : ReleaseVersion) (shim : Option (Transformer Obj))
    (remoteVersion : Option ReleaseVersion) (payload : Obj) : Method Obj Obj := do
  let codec ← getCodec rt (← get).workloadId
  let rawDecoded ← throwing (codec.decode payload (remoteVersion.getD localVersion))
  match shim, remoteVersion with
  | some transform, some remote =>
    if localVersion.isEqual remote then pure rawDecoded
    else throwing (transform rawDecoded remote)
  | _, _ => pure rawDecoded

def setContent (content : EnvelopeData Obj) : Method Obj PUnit :=
  modify fun envelope => { envelope with content }

def thrownValue : Failure Obj → Obj
  | .thrown value => value
  | failure => rt.errorValue failure

def accept (localVersion : ReleaseVersion) (shim : Option (Transformer Obj)) :
    Method Obj PUnit := do
  match (← get).content with
  | .decodedMessage _ _ | .decodedError _ _ | .invalid _ _ => pure ()
  | .received payload isError =>
    match (← get).releaseVersion with
    | .error failure => throw failure
    | .ok remoteVersion =>
      if remoteVersion.any (fun remote => !localVersion.canHandle remote) then
        setContent (.invalid (rt.errorValue (.versionMismatch
          ((remoteVersion.map ReleaseVersion.toString).getD "") localVersion.toString)) true)
      else
        tryCatch
          (do
            let finalized ← decodeReceived rt localVersion shim remoteVersion payload
            if isError then setContent (.decodedError finalized true)
            else setContent (.decodedMessage finalized false))
          fun failure => setContent (.invalid (thrownValue rt failure) true)
  | other => throw (.stateViolation [.received] other.state)

def fromWire (memento : EnvelopeMemento Obj) (localVersion : ReleaseVersion)
    (shim : Option (Transformer Obj)) : Except (Failure Obj) (Envelope Obj) :=
  match (accept rt localVersion shim).exec (wireEnvelope memento) with
  | (.ok _, envelope) => .ok envelope
  | (.error failure, _) => .error failure

def beginHandling (now : ℕ) : Method Obj PUnit := do
  match (← get).content with
  | .decodedMessage payload _ =>
    modify fun envelope => { envelope with
      content := .handling payload false
      spanTiming := { envelope.spanTiming with handlingStartedAt := some now } }
  | other => throw (.stateViolation [.decodedMessage] other.state)

def endHandling (now : ℕ) : Method Obj SpanTiming := do
  match (← get).content with
  | .handling payload _ =>
    modify fun envelope => { envelope with
      spanTiming := { envelope.spanTiming with handlingEndedAt := some now }
      content := .exhausted payload false }
    return (← get).spanTiming
  | other => throw (.stateViolation [.handling] other.state)

/-- The workload and version of a reply: both given, or both taken from the envelope. -/
def replyTarget (envelope : Envelope Obj) (workloadId : Option String)
    (releaseVersion : Option ReleaseVersion) :
    Except (Failure Obj) (String × ReleaseVersion) :=
  match workloadId, releaseVersion with
  | some id, some version => .ok (id, version)
  | none, none =>
    match envelope.releaseVersion with
    | .error failure => .error failure
    | .ok none => .error .noReleaseVersion
    | .ok (some version) => .ok (envelope.workloadId, version)
  | _, _ => .error .replyPairing

/-- A child envelope, caused by this one. -/
def startReplying (messageId : String) (now : ℕ) (workloadId : Option String)
    (releaseVersion : Option ReleaseVersion) (metadataMap : Option (List (String × String))) :
    Method Obj (Envelope Obj) := do
  assertState [.handling, .encoded]
  let envelope ← get
  match envelope.replyTarget workloadId releaseVersion with
  | .error failure => throw failure
  | .ok (effectiveWorkloadId, effectiveVersion) =>
    return {
      trace := {
        correlationId := envelope.trace.correlationId
        causationId := envelope.trace.messageId
        messageId }
      workloadId := effectiveWorkloadId
      headers := [⟨HDR_ENGINE_RELEASE, effectiveVersion.toString⟩]
      content := .awaitingPayload ⟨effectiveVersion, metadataMap⟩
      spanTiming := ⟨now, none, none⟩ }

/-- Copy one payload field to a header, unless it is missing. -/
def pushHeader (encoded : Obj) (entry : String × String) : Method Obj PUnit := do
  match ← throwing (rt.field encoded entry.2) with
  | none => pure ()
  | some value =>
    let text ← throwing (rt.stringify value)
    modify fun envelope => { envelope with headers := envelope.headers ++ [⟨entry.1, text⟩] }

def commitBody (body : Obj) : Method Obj PUnit := do
  match (← get).content with
  | .awaitingPayload config =>
    let codec ← getCodec rt (← get).workloadId
    let encoded ← throwing (codec.encode body config.releaseVersion)
    (config.metadataMap.getD []).forM (pushHeader rt encoded)
    setContent (.encoded encoded false)
  | other => throw (.stateViolation [.awaitingPayload] other.state)

def commitError (error : Obj) : Method Obj PUnit := do
  match (← get).content with
  | .awaitingPayload config =>
    let codec ← getCodec rt (← get).workloadId
    let encoded ← throwing (codec.encode error config.releaseVersion)
    setContent (.encoded encoded true)
  | other => throw (.stateViolation [.awaitingPayload] other.state)

def toJSON (envelope : Envelope Obj) : Except (Failure Obj) (EnvelopeMemento Obj) :=
  match envelope.content with
  | .encoded payload isError => .ok {
      trace := envelope.trace
      workloadId := envelope.workloadId
      headers := envelope.headers
      spanTiming := envelope.spanTiming
      payload
      isError }
  | other => .error (.stateViolation [.encoded] other.state)

/-- A runtime whose one codec passes numbers through. -/
def echoRuntime : Runtime ℕ where
  registry := fun _ => some ⟨fun body _ => .ok body, fun body _ => .ok body⟩
  field := fun _ _ => .ok none
  stringify := fun _ => .ok ""
  errorValue := fun _ => 0
  asError := .ok

end Envelope
end RandomArt
