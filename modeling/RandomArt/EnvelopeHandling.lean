import RandomArt.EnvelopeAcceptance
import RandomArt.EnvelopeAtomicity
import RandomArt.EnvelopeRuns

/-!
# Handling a request and replying to it

`handleWith` as one call on its request. A handler is what it does to the request while it
runs, and how it settles; everything it may do other than ending the handling leaves the
request as it is. The reply is built twice when something fails: the second one carries the
error, which has to be made from whatever was thrown.
-/

namespace RandomArt.Envelope

variable {Obj : Type} (rt : Runtime Obj)

/-- The ids and times that a call draws, in order. -/
structure Draws where
  ulid : ℕ → String
  now : ℕ → ℕ

/-- What a handler does to its request, and what it resolves to or rejects with. -/
structure Handled (Obj : Type) where
  calls : List (MethodCall Obj)
  outcome : Except Obj Obj

def callAll (e : Envelope Obj) (calls : List (MethodCall Obj)) : Envelope Obj :=
  calls.foldl (fun e method => (call rt e method).2) e

/-- Call a method of another envelope; it is held as the method leaves it. -/
def applyTo (envelope : Envelope Obj) (method : Method Obj PUnit) : Method Obj (Envelope Obj) :=
  match method.exec envelope with
  | (.ok _, envelope') => pure envelope'
  | (.error failure, _) => throw failure

/-- What `handleWith` does once its handler has resolved. -/
def replyWithBody (draws : Draws) (metadataMap : Option (List (String × String)))
    (result : Obj) : Method Obj (Envelope Obj) := do
  let reply ← startReplying (draws.ulid 0) (draws.now 0) none none metadataMap
  let committed ← applyTo reply (commitBody rt result)
  let _ ← endHandling (draws.now 1)
  return committed

/-- What `handleWith` does with everything that is thrown. -/
def replyWithError (draws : Draws) (failure : Failure Obj) : Method Obj (Envelope Obj) := do
  let reply ← startReplying (draws.ulid 1) (draws.now 2) none none none
  let error ← throwing (rt.asError (thrownValue rt failure))
  let committed ← applyTo reply (commitError rt error)
  let _ ← endHandling (draws.now 3)
  return committed

def replyWith (draws : Draws) (metadataMap : Option (List (String × String)))
    (outcome : Except Obj Obj) : Method Obj (Envelope Obj) :=
  tryCatch (throwing outcome >>= replyWithBody rt draws metadataMap) (replyWithError rt draws)

def handleWith (beganAt : ℕ) (draws : Draws) (handler : Envelope Obj → Handled Obj)
    (metadataMap : Option (List (String × String))) : Method Obj (Envelope Obj) := do
  beginHandling beganAt
  let handled := handler (← get)
  modify fun envelope => callAll rt envelope handled.calls
  replyWith rt draws metadataMap handled.outcome

section WhileHandling

/-- While a request is handled, nothing but the end of the handling changes it. -/
theorem call_handling {e : Envelope Obj} {payload : Obj} {isError : Bool}
    (h : e.content = .handling payload isError) {method : MethodCall Obj}
    (hmethod : ∀ now, method ≠ .endHandling now) : (call rt e method).2 = e := by
  cases method with
  | beginHandling now =>
    rcases beginHandling_cases now e with ⟨failure, hexec⟩ | ⟨_, _, hc, -⟩
    · rw [call, hexec]
    · rw [h] at hc
      cases hc
  | endHandling now => exact absurd rfl (hmethod now)
  | startReplying messageId now workloadId releaseVersion metadataMap =>
    exact (startReplying_cases messageId now workloadId releaseVersion metadataMap e).1
  | commitBody body =>
    have hrefused : ∀ config codec encoded, e.content = .awaitingPayload config →
        rt.registry e.workloadId = some codec →
        codec.encode body config.releaseVersion ≠ .ok encoded := by
      intro config codec encoded hc
      rw [h] at hc
      cases hc
    obtain ⟨failure, hexec⟩ := commitBody_refused rt hrefused
    rw [call, hexec]
  | commitError error =>
    rcases commitError_cases rt error e with ⟨failure, hexec⟩ | ⟨_, _, hc, -⟩
    · rw [call, hexec]
    · rw [h] at hc
      cases hc
  | toJSON => rfl

theorem callAll_handling {e : Envelope Obj} {payload : Obj} {isError : Bool}
    (h : e.content = .handling payload isError) {calls : List (MethodCall Obj)}
    (hcalls : ∀ now, MethodCall.endHandling now ∉ calls) : callAll rt e calls = e := by
  induction calls with
  | nil => rfl
  | cons method calls ih =>
    have hmethod : ∀ now, method ≠ .endHandling now := fun now heq =>
      hcalls now (heq ▸ List.mem_cons_self)
    rw [callAll, List.foldl_cons, call_handling rt h hmethod]
    exact ih fun now hmem => hcalls now (List.mem_cons_of_mem _ hmem)

end WhileHandling

section Replying

/-- The reply that a request of a known version starts. -/
def startedReply (request : Envelope Obj) (version : ReleaseVersion) (messageId : String)
    (now : ℕ) (metadataMap : Option (List (String × String))) : Envelope Obj where
  trace := ⟨request.trace.correlationId, request.trace.messageId, messageId⟩
  workloadId := request.workloadId
  headers := [⟨HDR_ENGINE_RELEASE, version.toString⟩]
  content := .awaitingPayload ⟨version, metadataMap⟩
  spanTiming := ⟨now, none, none⟩

theorem exec_startReplying {e : Envelope Obj} {payload : Obj} {isError : Bool}
    (h : e.content = .handling payload isError) {version : ReleaseVersion}
    (hversion : e.releaseVersion = .ok (some version)) (messageId : String) (now : ℕ)
    (metadataMap : Option (List (String × String))) :
    (startReplying messageId now none none metadataMap).exec e =
      (.ok (startedReply e version messageId now metadataMap), e) := by
  have hstate : e.state = .handling := state_eq h
  rw [startReplying, assertState]
  simp only [Failing.exec_bind, Failing.exec_get, hstate]
  rw [if_pos (by decide)]
  simp only [Failing.exec_pure, replyTarget, hversion]
  rfl

theorem exec_endHandling {e : Envelope Obj} {payload : Obj} {isError : Bool}
    (h : e.content = .handling payload isError) (now : ℕ) :
    (endHandling now).exec e = (.ok { e.spanTiming with handlingEndedAt := some now }, { e with
      spanTiming := { e.spanTiming with handlingEndedAt := some now }
      content := .exhausted payload false }) := by
  rcases endHandling_cases now e with ⟨failure, hexec⟩ | ⟨payload', isError', hc, hexec⟩
  · rw [endHandling] at hexec
    simp only [Failing.exec_bind, Failing.exec_get, h] at hexec
    cases hexec
  · rw [h] at hc
    cases hc
    exact hexec

/-- The value that committing a payload throws: that of its encoding, or of the first header
that cannot be read or serialized. -/
def commitFailure (codec : EnvelopeCodec Obj) (version : ReleaseVersion)
    (metadataMap : Option (List (String × String))) (payload : Obj) : Option Obj :=
  match codec.encode payload version with
  | .error value => some value
  | .ok encoded => (metadataMap.getD []).findSome? fun entry =>
    match headerText rt encoded entry with
    | .error value => some value
    | .ok _ => none

/-- The entries throw what the first of them that fails throws. -/
theorem exec_pushHeaders_result (encoded : Obj) (entries : List (String × String))
    (e : Envelope Obj) :
    (Failing.exec (entries.forM (pushHeader rt encoded)) e).1 =
      match entries.findSome? (fun entry =>
        match headerText rt encoded entry with
        | .error value => some value
        | .ok _ => none) with
      | some value => .error (.thrown value)
      | none => .ok ⟨⟩ := by
  induction entries generalizing e with
  | nil => rfl
  | cons entry entries ih =>
    change (Failing.exec (pushHeader rt encoded entry >>= fun _ =>
      entries.forM (pushHeader rt encoded)) e).1 = _
    rw [Failing.exec_bind, exec_pushHeader, List.findSome?_cons]
    cases headerText rt encoded entry with
    | error value => rfl
    | ok text => exact ih _

theorem applyTo_commitBody {reply : Envelope Obj} {config : OutboundConfig}
    {codec : EnvelopeCodec Obj} (hc : reply.content = .awaitingPayload config)
    (hcodec : rt.registry reply.workloadId = some codec) (payload : Obj) (e : Envelope Obj) :
    (applyTo reply (commitBody rt payload)).exec e =
        (match commitFailure rt codec config.releaseVersion config.metadataMap payload with
          | some value => .error (.thrown value)
          | none => .ok ((commitBody rt payload).exec reply).2, e) ∧
      (commitFailure rt codec config.releaseVersion config.metadataMap payload = none →
        ∃ encoded headers, ((commitBody rt payload).exec reply).2 =
          { reply with content := .encoded encoded false, headers }) := by
  rw [applyTo, commitFailure]
  cases hencode : codec.encode payload config.releaseVersion with
  | error value =>
    have hexec : (commitBody rt payload).exec reply = (.error (.thrown value), reply) := by
      rw [commitBody]
      simp only [Failing.exec_bind, Failing.exec_get, hc, exec_getCodec, hcodec, exec_throwing,
        hencode]
    rw [hexec]
    exact ⟨rfl, fun h => by cases h⟩
  | ok encoded =>
    have hresult : ((commitBody rt payload).exec reply).1 =
        (Failing.exec ((config.metadataMap.getD []).forM (pushHeader rt encoded)) reply).1 := by
      rw [commitBody]
      simp only [Failing.exec_bind, Failing.exec_get, hc, exec_getCodec, hcodec, exec_throwing,
        hencode]
      rcases Failing.exec ((config.metadataMap.getD []).forM (pushHeader rt encoded)) reply
        with ⟨result, reply'⟩
      cases result <;> rfl
    rw [exec_pushHeaders_result] at hresult
    simp only
    rcases commitBody_encoded rt hc hcodec hencode with ⟨-, hexec⟩ | ⟨-, failure, hexec⟩
    · rw [hexec] at hresult ⊢
      split at hresult
      · cases hresult
      · next hnone =>
        rw [hnone]
        exact ⟨rfl, fun _ => ⟨encoded, _, rfl⟩⟩
    · rw [hexec] at hresult ⊢
      split at hresult
      · next value hsome =>
        cases hresult
        rw [hsome]
        exact ⟨rfl, fun h => by cases h⟩
      · cases hresult

theorem applyTo_commitError {reply : Envelope Obj} {config : OutboundConfig}
    {codec : EnvelopeCodec Obj} (hc : reply.content = .awaitingPayload config)
    (hcodec : rt.registry reply.workloadId = some codec) {error encoded : Obj}
    (hencode : codec.encode error config.releaseVersion = .ok encoded) (e : Envelope Obj) :
    (applyTo reply (commitError rt error)).exec e =
      (.ok { reply with content := .encoded encoded true }, e) := by
  have hexec : (commitError rt error).exec reply =
      (.ok ⟨⟩, { reply with content := .encoded encoded true }) := by
    rw [commitError]
    simp only [Failing.exec_bind, Failing.exec_get, hc, exec_getCodec, hcodec, exec_throwing,
      hencode]
    rfl
  rw [applyTo, hexec]
  rfl

end Replying

section HandleWith

/-- What goes wrong while a request is handled: the handler rejects, or what it resolves to
cannot be committed. -/
def handlingFailure (codec : EnvelopeCodec Obj) (version : ReleaseVersion)
    (metadataMap : Option (List (String × String))) : Except Obj Obj → Option Obj
  | .error value => some value
  | .ok payload => commitFailure rt codec version metadataMap payload

def EncodesErrors (codec : EnvelopeCodec Obj) : Prop :=
  ∀ value error, rt.asError value = .ok error →
    ∀ version, ∃ encoded, codec.encode error version = .ok encoded

/-- The reply to a request: encoded, in its trace, flagged when something failed, and the
request exhausted. -/
structure RepliesTo (request reply after : Envelope Obj) (failed : Prop) : Prop where
  encoded : reply.state = .encoded
  flagged : reply.content.isError = some true ↔ failed
  correlationId : reply.trace.correlationId = request.trace.correlationId
  causationId : reply.trace.causationId = request.trace.messageId
  exhausted : after.state = .exhausted

variable {rt}

def exhausted (e : Envelope Obj) (payload : Obj) (now : ℕ) : Envelope Obj :=
  { e with
    spanTiming := { e.spanTiming with handlingEndedAt := some now }
    content := .exhausted payload false }

section Settled

variable {e : Envelope Obj} {payload : Obj} {isError : Bool} {version : ReleaseVersion}
  {codec : EnvelopeCodec Obj}

theorem exec_replyWithBody (draws : Draws) (metadataMap : Option (List (String × String)))
    (result : Obj) (h : e.content = .handling payload isError)
    (hversion : e.releaseVersion = .ok (some version))
    (hcodec : rt.registry e.workloadId = some codec) :
    (∃ value, commitFailure rt codec version metadataMap result = some value ∧
      (replyWithBody rt draws metadataMap result).exec e = (.error (.thrown value), e)) ∨
    (commitFailure rt codec version metadataMap result = none ∧ ∃ encoded headers,
      (replyWithBody rt draws metadataMap result).exec e =
        (.ok { startedReply e version (draws.ulid 0) (draws.now 0) metadataMap with
          content := .encoded encoded false, headers }, exhausted e payload (draws.now 1))) := by
  have hcontent : (startedReply e version (draws.ulid 0) (draws.now 0) metadataMap).content =
      .awaitingPayload ⟨version, metadataMap⟩ := rfl
  obtain ⟨hexec, hcommitted⟩ := applyTo_commitBody rt hcontent hcodec result e
  rw [replyWithBody, Failing.exec_bind, exec_startReplying h hversion]
  simp only
  rw [Failing.exec_bind, hexec]
  cases hfailure : commitFailure rt codec version metadataMap result with
  | some value => exact Or.inl ⟨value, rfl, rfl⟩
  | none =>
    obtain ⟨encoded, headers, hreply⟩ := hcommitted hfailure
    refine Or.inr ⟨rfl, encoded, headers, ?_⟩
    simp only [hreply, Failing.exec_bind, exec_endHandling h, Failing.exec_pure]
    rfl

theorem exec_replyWithError (draws : Draws) (value : Obj)
    (h : e.content = .handling payload isError)
    (hversion : e.releaseVersion = .ok (some version))
    (hcodec : rt.registry e.workloadId = some codec) (herrors : EncodesErrors rt codec) :
    (∃ thrown, rt.asError value = .error thrown ∧
      (replyWithError rt draws (.thrown value)).exec e = (.error (.thrown thrown), e)) ∨
    (∃ error encoded, rt.asError value = .ok error ∧
      (replyWithError rt draws (.thrown value)).exec e =
        (.ok { startedReply e version (draws.ulid 1) (draws.now 2) none with
          content := .encoded encoded true }, exhausted e payload (draws.now 3))) := by
  rw [replyWithError, Failing.exec_bind, exec_startReplying h hversion]
  simp only [thrownValue, Failing.exec_bind, exec_throwing]
  cases herror : rt.asError value with
  | error thrown => exact Or.inl ⟨thrown, rfl, rfl⟩
  | ok error =>
    obtain ⟨encoded, hencode⟩ := herrors value error herror version
    have hcontent : (startedReply e version (draws.ulid 1) (draws.now 2) none).content =
        .awaitingPayload ⟨version, none⟩ := rfl
    have hcommit := applyTo_commitError rt hcontent hcodec hencode e
    refine Or.inr ⟨error, encoded, rfl, ?_⟩
    simp only [hcommit, exec_endHandling h, Failing.exec_pure]
    rfl

/-- Whatever has failed, what the second try makes of it is the outcome. -/
theorem exec_replyWith_of_failure (draws : Draws)
    (metadataMap : Option (List (String × String))) {outcome : Except Obj Obj} {value : Obj}
    (h : e.content = .handling payload isError)
    (hversion : e.releaseVersion = .ok (some version))
    (hcodec : rt.registry e.workloadId = some codec)
    (hvalue : handlingFailure rt codec version metadataMap outcome = some value) :
    (replyWith rt draws metadataMap outcome).exec e =
      (replyWithError rt draws (.thrown value)).exec e := by
  rw [replyWith, Failing.exec_tryCatch, Failing.exec_bind, exec_throwing]
  cases outcome with
  | error rejected =>
    cases hvalue
    rfl
  | ok result =>
    rw [handlingFailure] at hvalue
    rcases exec_replyWithBody draws metadataMap result h hversion hcodec with
      ⟨value', hvalue', hexec⟩ | ⟨hnone, -⟩
    · rw [hvalue] at hvalue'
      cases hvalue'
      simp only [hexec]
    · rw [hvalue] at hnone
      cases hnone

/-- When nothing has failed, the first try replies. -/
theorem exec_replyWith_of_success (draws : Draws)
    (metadataMap : Option (List (String × String))) {outcome : Except Obj Obj}
    (h : e.content = .handling payload isError)
    (hversion : e.releaseVersion = .ok (some version))
    (hcodec : rt.registry e.workloadId = some codec)
    (hnone : handlingFailure rt codec version metadataMap outcome = none) :
    ∃ encoded headers, (replyWith rt draws metadataMap outcome).exec e =
      (.ok { startedReply e version (draws.ulid 0) (draws.now 0) metadataMap with
        content := .encoded encoded false, headers }, exhausted e payload (draws.now 1)) := by
  rw [replyWith, Failing.exec_tryCatch, Failing.exec_bind, exec_throwing]
  cases outcome with
  | error rejected => cases hnone
  | ok result =>
    rw [handlingFailure] at hnone
    rcases exec_replyWithBody draws metadataMap result h hversion hcodec with
      ⟨value, hvalue, -⟩ | ⟨-, encoded, headers, hexec⟩
    · rw [hnone] at hvalue
      cases hvalue
    · exact ⟨encoded, headers, by simp only [hexec]⟩

/-- Once the handler has settled, a reply comes out exactly when what was thrown, if anything,
can be made an error; otherwise the request stays in handling. -/
theorem replyWith_iff (draws : Draws) (metadataMap : Option (List (String × String)))
    (outcome : Except Obj Obj) (h : e.content = .handling payload isError)
    (hversion : e.releaseVersion = .ok (some version))
    (hcodec : rt.registry e.workloadId = some codec) (herrors : EncodesErrors rt codec) :
    (∃ reply after, (replyWith rt draws metadataMap outcome).exec e = (.ok reply, after) ∧
      RepliesTo e reply after
        (handlingFailure rt codec version metadataMap outcome).isSome) ↔
    ∀ value, handlingFailure rt codec version metadataMap outcome = some value →
      ∃ error, rt.asError value = .ok error := by
  constructor
  · rintro ⟨reply, after, hexec, -⟩ value hvalue
    rw [exec_replyWith_of_failure draws metadataMap h hversion hcodec hvalue] at hexec
    rcases exec_replyWithError draws value h hversion hcodec herrors with
      ⟨thrown, -, herror⟩ | ⟨error, encoded, herror, -⟩
    · rw [herror] at hexec
      cases hexec
    · exact ⟨error, herror⟩
  · intro hconvertible
    cases hfailure : handlingFailure rt codec version metadataMap outcome with
    | some value =>
      obtain ⟨error, herror⟩ := hconvertible value hfailure
      have hfails := exec_replyWith_of_failure draws metadataMap h hversion hcodec hfailure
      rcases exec_replyWithError draws value h hversion hcodec herrors with
        ⟨thrown, hthrown, -⟩ | ⟨error', encoded, -, hexec⟩
      · rw [herror] at hthrown
        cases hthrown
      · refine ⟨_, _, hfails.trans hexec, rfl, ?_, rfl, rfl, rfl⟩
        exact ⟨fun _ => rfl, fun _ => rfl⟩
    | none =>
      obtain ⟨encoded, headers, hexec⟩ :=
        exec_replyWith_of_success draws metadataMap h hversion hcodec hfailure
      refine ⟨_, _, hexec, rfl, ?_, rfl, rfl, rfl⟩
      exact ⟨fun hflag => (by cases hflag), fun hnone => (by cases hnone)⟩

end Settled

theorem RepliesTo.congr {request request' reply after : Envelope Obj} {failed : Prop}
    (h : RepliesTo request reply after failed) (htrace : request'.trace = request.trace) :
    RepliesTo request' reply after failed :=
  ⟨h.encoded, h.flagged, htrace ▸ h.correlationId, htrace ▸ h.causationId, h.exhausted⟩

def begun (request : Envelope Obj) (beganAt : ℕ) : Envelope Obj :=
  ((beginHandling beganAt).exec request).2

/-- An accepted envelope has a version header that reads, or none. -/
theorem versionReadable_of_fromWire {memento : EnvelopeMemento Obj}
    {localVersion : ReleaseVersion} {shim : Option (Transformer Obj)} {request : Envelope Obj}
    (hwire : fromWire rt memento localVersion shim = .ok request) :
    VersionReadable request.headers := by
  by_contra h
  by_cases hmemento : VersionReadable memento.headers
  · obtain ⟨content, hcontent, -⟩ := fromWire_of_readable rt memento localVersion shim hmemento
    rw [hcontent] at hwire
    cases hwire
    exact h hmemento
  · rw [fromWire_of_not_readable rt memento localVersion shim hmemento] at hwire
    cases hwire

/-- Every accepted message that names its version is replied to, exactly unless something is
thrown that cannot be made an error. -/
theorem handleWith_replies_iff {rt₀ : Runtime Obj} {memento : EnvelopeMemento Obj}
    {localVersion : ReleaseVersion} {shim : Option (Transformer Obj)} {request : Envelope Obj}
    (hwire : fromWire rt₀ memento localVersion shim = .ok request)
    (hmessage : request.state = .decodedMessage) (hheader : releaseHeader request.headers ≠ none)
    {codec : EnvelopeCodec Obj} (hcodec : rt.registry request.workloadId = some codec)
    (herrors : EncodesErrors rt codec) (beganAt : ℕ) (draws : Draws)
    (handler : Envelope Obj → Handled Obj) (metadataMap : Option (List (String × String)))
    (hends : ∀ envelope now, MethodCall.endHandling now ∉ (handler envelope).calls) :
    ∃ version, remoteVersion request.headers = some version ∧
      ((∃ reply after,
          (handleWith rt beganAt draws handler metadataMap).exec request = (.ok reply, after) ∧
          RepliesTo request reply after (handlingFailure rt codec version metadataMap
            (handler (begun request beganAt)).outcome).isSome) ↔
        ∀ value, handlingFailure rt codec version metadataMap
            (handler (begun request beganAt)).outcome = some value →
          ∃ error, rt.asError value = .ok error) := by
  have hreadable := versionReadable_of_fromWire hwire
  obtain ⟨text, htext⟩ := Option.ne_none_iff_exists'.mp hheader
  obtain ⟨version, hparse⟩ := Option.ne_none_iff_exists'.mp (hreadable text htext)
  have hversion : remoteVersion request.headers = some version := by
    rw [remoteVersion, htext, Option.bind_some, hparse]
  refine ⟨version, hversion, ?_⟩
  rcases beginHandling_cases beganAt request with ⟨failure, hbegin⟩ | ⟨payload, isError, -, hbegin⟩
  · cases hc : request.content <;> rw [state_eq hc] at hmessage <;>
      simp only [EnvelopeData.state, reduceCtorEq] at hmessage
    rw [beginHandling] at hbegin
    simp only [Failing.exec_bind, Failing.exec_get, hc] at hbegin
    cases hbegin
  · have hcontent : (begun request beganAt).content = .handling payload false := by
      rw [begun, hbegin]
    have hheaders : (begun request beganAt).headers = request.headers := by rw [begun, hbegin]
    have hworkload : (begun request beganAt).workloadId = request.workloadId := by
      rw [begun, hbegin]
    have htrace : (begun request beganAt).trace = request.trace := by rw [begun, hbegin]
    have hreleased : (begun request beganAt).releaseVersion = .ok (some version) := by
      rw [releaseVersion_of_readable (by rw [hheaders]; exact hreadable), hheaders, hversion]
    have hhandle : (handleWith rt beganAt draws handler metadataMap).exec request =
        (replyWith rt draws metadataMap (handler (begun request beganAt)).outcome).exec
          (begun request beganAt) := by
      have hbegun : (beginHandling beganAt).exec request = (.ok ⟨⟩, begun request beganAt) := by
        rw [begun, hbegin]
      rw [handleWith, Failing.exec_bind, hbegun]
      simp only [Failing.exec_bind, Failing.exec_get, Failing.exec_modify]
      rw [callAll_handling rt hcontent (hends _)]
    have hreply := replyWith_iff draws metadataMap (handler (begun request beganAt)).outcome
      hcontent hreleased (by rw [hworkload]; exact hcodec) herrors
    rw [hhandle, ← hreply]
    constructor
    · rintro ⟨reply, after, hexec, hreplies⟩
      exact ⟨reply, after, hexec, hreplies.congr htrace⟩
    · rintro ⟨reply, after, hexec, hreplies⟩
      exact ⟨reply, after, hexec, hreplies.congr htrace.symm⟩

section Worlds

open EnvelopeRuns

/-- A step of the world does to its request, and to the envelope it holds last, what a method
does to the request and returns. -/
def Simulates (id : ℕ) (method : Except (Failure Obj) (Envelope Obj) × Envelope Obj)
    (step : Except (Failure Obj) PUnit × World Obj) : Prop :=
  step.2.envelopes[id]? = some method.2 ∧
    match method.1, step.1 with
    | .ok reply, .ok _ => step.2.envelopes.getLast? = some reply
    | .error failure, .error failure' => failure = failure'
    | _, _ => False

private theorem simulates_replyTo {event : Event Obj} {w : World Obj} {id clock : ℕ}
    {e : Envelope Obj} (hid : w.envelopes[id]? = some e)
    {metadataMap : Option (List (String × String))}
    {rest : Envelope Obj → Method Obj (Envelope Obj)}
    {rest' : ℕ → Step Obj PUnit}
    (hrest : ∀ child, Simulates id ((rest child).exec e) ((rest' w.envelopes.length).exec
      { w with envelopes := w.envelopes ++ [child], ulids := w.ulids + 1 })) :
    Simulates id
      ((startReplying (event.ulid w.ulids) (event.now clock) none none metadataMap >>= rest).exec e)
      ((replyTo event clock id none none metadataMap >>= rest').exec w) := by
  have hset : w.envelopes.set id e = w.envelopes := by
    obtain ⟨hlt, rfl⟩ := List.getElem?_eq_some_iff.mp hid
    exact List.set_getElem_self hlt
  have hstate :=
    (startReplying_cases (event.ulid w.ulids) (event.now clock) none none metadataMap e).1
  rw [replyTo]
  simp only [Failing.exec_bind, Failing.exec_get]
  rw [exec_on _ hid]
  rcases hexec : (startReplying (event.ulid w.ulids) (event.now clock) none none metadataMap).exec e
    with ⟨result, e'⟩
  rw [hexec] at hstate
  obtain rfl : e' = e := hstate
  cases result with
  | error failure =>
    refine ⟨?_, rfl⟩
    simp only [hset]
    exact hid
  | ok child =>
    simp only [drawUlid, hold, Failing.exec_bind, Failing.exec_modify, Failing.exec_get,
      Failing.exec_pure, hset]
    exact hrest child

private theorem simulates_commit {w : World Obj} {id : ℕ} {e child : Envelope Obj}
    {envelopes : List (Envelope Obj)} (hid : envelopes[id]? = some e) {commit : Method Obj PUnit}
    {step : Step Obj PUnit} (hstep : ((step.exec w).1 = (commit.exec child).1) ∧
      (step.exec w).2.envelopes = envelopes ++ [(commit.exec child).2]) (now : ℕ) :
    Simulates id
      ((do
        let committed ← applyTo child commit
        let _ ← endHandling now
        return committed : Method Obj (Envelope Obj)).exec e)
      ((do
        step
        let _ ← on id (endHandling now) : Step Obj PUnit).exec w) := by
  obtain ⟨hlt, -⟩ := List.getElem?_eq_some_iff.mp hid
  rw [Failing.exec_bind, Failing.exec_bind, applyTo]
  rcases hcommit : commit.exec child with ⟨result, committed⟩
  rcases hexec : step.exec w with ⟨result', w'⟩
  rw [hcommit, hexec] at hstep
  obtain ⟨rfl, henvelopes⟩ : result' = result ∧ w'.envelopes = envelopes ++ [committed] := hstep
  have hid' : w'.envelopes[id]? = some e := by
    rw [henvelopes, List.getElem?_append_left hlt]
    exact hid
  cases result' with
  | error failure => exact ⟨hid', rfl⟩
  | ok _ =>
    simp only [Failing.exec_pure, Failing.exec_bind]
    rw [exec_on _ hid']
    rcases hend : (endHandling now).exec e with ⟨result, after⟩
    have hset : w'.envelopes.set id after = envelopes.set id after ++ [committed] := by
      rw [henvelopes, List.set_append_left _ _ hlt]
    have hafter : (envelopes.set id after ++ [committed])[id]? = some after := by
      rw [List.getElem?_append_left (by simpa using hlt), List.getElem?_set_self hlt]
    cases result with
    | error failure => exact ⟨by simpa only [hset] using hafter, rfl⟩
    | ok timing =>
      refine ⟨by simpa only [hset, Failing.exec_pure] using hafter, ?_⟩
      simp only [hset, List.getLast?_append, List.getLast?_singleton, Option.some_or]

private theorem exec_on_last {w : World Obj} {envelopes : List (Envelope Obj)}
    {child : Envelope Obj} (h : w.envelopes = envelopes ++ [child]) (commit : Method Obj PUnit) :
    (on envelopes.length commit).exec w = ((commit.exec child).1,
      { w with envelopes := envelopes ++ [(commit.exec child).2] }) := by
  have hlast : w.envelopes[envelopes.length]? = some child := by
    rw [h, List.getElem?_concat_length]
  rw [exec_on _ hlast, h, List.set_append_right _ _ (le_refl _), Nat.sub_self, List.set_cons_zero]

private theorem simulates_body (event : Event Obj) {w : World Obj} {id : ℕ} {e : Envelope Obj}
    (hid : w.envelopes[id]? = some e) (metadataMap : Option (List (String × String)))
    (result : Obj) {draws : Draws} (hnow : draws.now = event.now)
    (hulid : draws.ulid 0 = event.ulid w.ulids) :
    Simulates id ((replyWithBody event.runtime draws metadataMap result).exec e)
      ((do
        let reply ← replyTo event 0 id none none metadataMap
        on reply (commitBody event.runtime result)
        let _ ← on id (endHandling (event.now 1)) : Step Obj PUnit).exec w) := by
  rw [replyWithBody, hulid, hnow]
  refine simulates_replyTo hid fun child => simulates_commit hid ?_ (event.now 1)
  rw [exec_on_last rfl]
  exact ⟨rfl, rfl⟩

private theorem simulates_error (event : Event Obj) {w : World Obj} {id : ℕ} {e : Envelope Obj}
    (hid : w.envelopes[id]? = some e) (failure : Failure Obj) {draws : Draws}
    (hnow : draws.now = event.now) (hulid : draws.ulid 1 = event.ulid w.ulids) :
    Simulates id ((replyWithError event.runtime draws failure).exec e)
      ((do
        let reply ← replyTo event 2 id none none none
        let error ← ofExcept
          ((event.runtime.asError (thrownValue event.runtime failure)).mapError .thrown)
        commitErrorTo event.runtime reply error
        let _ ← on id (endHandling (event.now 3)) : Step Obj PUnit).exec w) := by
  rw [replyWithError, hulid, hnow]
  refine simulates_replyTo hid fun child => ?_
  rw [Failing.exec_bind, Failing.exec_bind, exec_throwing, Failing.exec_ofExcept]
  cases event.runtime.asError (thrownValue event.runtime failure) with
  | error value =>
    refine ⟨?_, rfl⟩
    exact (List.getElem?_append_left (List.getElem?_eq_some_iff.mp hid).1).trans hid
  | ok error =>
    refine simulates_commit hid ?_ (event.now 3)
    rw [commitErrorTo, Failing.exec_bind, exec_on_last rfl]
    rcases (commitError event.runtime error).exec child with ⟨result, committed⟩
    cases result with
    | error failure => exact ⟨rfl, rfl⟩
    | ok _ => exact ⟨rfl, rfl⟩

/-- The settling of a handler among many envelopes is what `handleWith` does to its request:
it replies or throws alike, and the reply is the envelope held last. -/
theorem settle_simulates (event : Event Obj) {w : World Obj} {id : ℕ} {e : Envelope Obj}
    (hid : w.envelopes[id]? = some e) (metadataMap : Option (List (String × String)))
    (outcome : Except Obj Obj) :
    ∃ draws : Draws, draws.now = event.now ∧
      Simulates id ((replyWith event.runtime draws metadataMap outcome).exec e)
        ((settle event id metadataMap outcome).exec w) := by
  rw [settle, Failing.exec_tryCatch, Failing.exec_bind, Failing.exec_ofExcept]
  cases outcome with
  | error value =>
    refine ⟨⟨fun _ => event.ulid w.ulids, event.now⟩, rfl, ?_⟩
    exact simulates_error event hid (.thrown value) rfl rfl
  | ok result =>
    -- The id of the error reply is drawn in the world that the failed body leaves.
    rcases hbody : ((do
        let reply ← replyTo event 0 id none none metadataMap
        on reply (commitBody event.runtime result)
        let _ ← on id (endHandling (event.now 1)) : Step Obj PUnit).exec w) with ⟨settled, w'⟩
    let draws : Draws :=
      ⟨fun n => if n = 0 then event.ulid w.ulids else event.ulid w'.ulids, event.now⟩
    refine ⟨draws, rfl, ?_⟩
    have hsimulates : Simulates id
        ((replyWithBody event.runtime draws metadataMap result).exec e) (settled, w') :=
      hbody ▸ simulates_body event hid metadataMap result rfl rfl
    rw [replyWith, Failing.exec_tryCatch, Failing.exec_bind, exec_throwing]
    simp only [Except.mapError, hbody]
    rcases hmethod : (replyWithBody event.runtime draws metadataMap result).exec e
      with ⟨returned, e'⟩
    rw [hmethod] at hsimulates
    obtain ⟨hid', hreturned⟩ := hsimulates
    cases returned with
    | ok reply =>
      cases settled with
      | ok _ => exact ⟨hid', hreturned⟩
      | error failure => exact hreturned.elim
    | error failure =>
      cases settled with
      | ok _ => exact hreturned.elim
      | error failure' =>
        obtain rfl : failure = failure' := hreturned
        exact simulates_error event hid' failure rfl rfl

end Worlds

def paintMemento : EnvelopeMemento ℕ where
  trace := ⟨"m1", "m0", "m1"⟩
  workloadId := "paint"
  headers := [⟨HDR_ENGINE_RELEASE, "1.0.0"⟩]
  spanTiming := ⟨1, none, none⟩
  payload := 5
  isError := false

def paintRequest : Envelope ℕ :=
  { wireEnvelope paintMemento with content := .decodedMessage 5 false }

theorem fromWire_paintMemento :
    fromWire echoRuntime paintMemento ReleaseVersion.currentRelease none = .ok paintRequest :=
  fromWire_decoded echoRuntime paintMemento ReleaseVersion.currentRelease
    (show ReleaseVersion.parse "1.0.0" = some ReleaseVersion.currentRelease by decide +kernel)
    (by decide) rfl rfl

/-- A handler that starts a reply of its own before it resolves. -/
def replyingHandler (envelope : Envelope ℕ) : Handled ℕ :=
  ⟨[.startReplying "m2" 3 none none none], .ok (envelope.headers.length + 6)⟩

def countingDraws : Draws := ⟨fun n => String.ofList (List.replicate n 'u'), (4 + ·)⟩

theorem handleWith_replies_iff_replyingHandler :
    ∃ version, remoteVersion paintRequest.headers = some version ∧
      ((∃ reply after, (handleWith echoRuntime 2 countingDraws replyingHandler none).exec
            paintRequest = (.ok reply, after) ∧
          RepliesTo paintRequest reply after (handlingFailure echoRuntime
            ⟨fun body _ => .ok body, fun body _ => .ok body⟩ version none
            (replyingHandler (begun paintRequest 2)).outcome).isSome) ↔
        ∀ value, handlingFailure echoRuntime ⟨fun body _ => .ok body, fun body _ => .ok body⟩
            version none (replyingHandler (begun paintRequest 2)).outcome = some value →
          ∃ error, echoRuntime.asError value = .ok error) :=
  handleWith_replies_iff fromWire_paintMemento rfl (by decide) rfl
    (fun _ error _ _ => ⟨error, rfl⟩) 2 countingDraws replyingHandler none
    (fun _ _ h => by simp [replyingHandler] at h)

def bareObjectRuntime : Runtime ℕ :=
  { echoRuntime with asError := fun value => if value = 0 then .error 9 else .ok value }

/-- A handler that rejects with a value that has no text. -/
def bareObjectHandler (_ : Envelope ℕ) : Handled ℕ := ⟨[], .error 0⟩

/-- A handler rejects with an object that has no text, and there is no reply. -/
theorem bareObject_no_reply :
    EncodesErrors bareObjectRuntime ⟨fun body _ => .ok body, fun body _ => .ok body⟩ ∧
    fromWire bareObjectRuntime paintMemento ReleaseVersion.currentRelease none =
      .ok paintRequest ∧
    paintRequest.state = .decodedMessage ∧ releaseHeader paintRequest.headers ≠ none ∧
    ¬∃ reply after failed,
      (handleWith bareObjectRuntime 2 countingDraws bareObjectHandler none).exec paintRequest =
        (.ok reply, after) ∧ RepliesTo paintRequest reply after failed := by
  refine ⟨fun _ error _ _ => ⟨error, rfl⟩, ?_, rfl, by decide, ?_⟩
  · exact fromWire_decoded bareObjectRuntime paintMemento ReleaseVersion.currentRelease
      (show ReleaseVersion.parse "1.0.0" = some ReleaseVersion.currentRelease by decide +kernel)
      (by decide) rfl rfl
  · rintro ⟨reply, after, failed, hexec, -⟩
    have hreleased : (begun paintRequest 2).releaseVersion =
        .ok (some ReleaseVersion.currentRelease) := by
      have hparse : ReleaseVersion.parse "1.0.0" = some ReleaseVersion.currentRelease := by
        decide +kernel
      rw [releaseVersion_of_readable]
      · exact congrArg Except.ok hparse
      · intro text htext hnone
        cases htext
        rw [hparse] at hnone
        cases hnone
    have hcodec : bareObjectRuntime.registry (begun paintRequest 2).workloadId =
        some ⟨fun body _ => .ok body, fun body _ => .ok body⟩ := rfl
    rcases exec_replyWithError countingDraws 0 rfl hreleased hcodec
      (fun _ error _ _ => ⟨error, rfl⟩) with ⟨thrown, -, herror⟩ | ⟨error, encoded, herror, -⟩
    · have hhandle : (handleWith bareObjectRuntime 2 countingDraws bareObjectHandler none).exec
          paintRequest = (replyWithError bareObjectRuntime countingDraws (.thrown 0)).exec
            (begun paintRequest 2) := rfl
      rw [hhandle, herror] at hexec
      cases hexec
    · cases herror

end HandleWith

end RandomArt.Envelope
