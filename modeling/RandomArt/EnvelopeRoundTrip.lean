import RandomArt.EnvelopeAtomicity
import RandomArt.ReleaseGrammar

/-!
# Envelopes over the wire

A committed envelope, its wire form and the envelope accepted from it. The version the
receiver works with is the one it reads from the release header, so the trip depends on
how the sender's version is written there.
-/

namespace RandomArt.Envelope

variable {Obj : Type} (rt : Runtime Obj)

/-- What a sender commits to an envelope: a message or an error. -/
inductive Outgoing (Obj : Type) where
  | body (payload : Obj)
  | error (reason : Obj)

namespace Outgoing

def value : Outgoing Obj → Obj
  | body payload => payload
  | error reason => reason

def isError : Outgoing Obj → Bool
  | body _ => false
  | error _ => true

def commit : Outgoing Obj → Method Obj PUnit
  | body payload => commitBody rt payload
  | error reason => commitError rt reason

/-- The content the receiver should end up with. -/
def decoded : Outgoing Obj → EnvelopeData Obj
  | body payload => .decodedMessage payload false
  | error reason => .decodedError reason true

end Outgoing

/-- An envelope fresh from a factory, with its release version and metadata map. -/
structure Outbound (version : ReleaseVersion) (metadataMap : Option (List (String × String)))
    (e : Envelope Obj) : Prop where
  content : e.content = .awaitingPayload ⟨version, metadataMap⟩
  headers : e.headers = [⟨HDR_ENGINE_RELEASE, version.toString⟩]

theorem outbound_createEnvelope (messageId : String) (now : ℕ) (workloadId : String)
    (version : ReleaseVersion) (metadataMap : Option (List (String × String)))
    (correlationId causationId : Option String) :
    Outbound version metadataMap (createEnvelope messageId now workloadId version metadataMap
      correlationId causationId : Envelope Obj) := ⟨rfl, rfl⟩

/-- A property of an encoded value that can be read and written as text. -/
def Readable (encoded : Obj) : Prop :=
  ∀ key, ∃ read, rt.field encoded key = .ok read ∧
    ∀ value ∈ read, ∃ text, rt.stringify value = .ok text

/-- A codec that encodes the value to plain data and decodes it to the same value. -/
def Carries (codec : EnvelopeCodec Obj) (version : ReleaseVersion) (value : Obj) : Prop :=
  ∃ encoded, codec.encode value version = .ok encoded ∧
    codec.decode encoded version = .ok value ∧ Readable rt encoded

/-- Committing, writing to the wire and accepting bring the same envelope to the receiver. -/
def RoundTrips (localVersion version : ReleaseVersion) (outgoing : Outgoing Obj)
    (e : Envelope Obj) : Prop :=
  ∃ sent memento received,
    (outgoing.commit rt).exec e = (.ok ⟨⟩, sent) ∧ sent.toJSON = .ok memento ∧
    fromWire rt memento localVersion none = .ok received ∧
    received.content = outgoing.decoded ∧ received.trace = sent.trace ∧
    received.workloadId = sent.workloadId ∧ received.headers = sent.headers ∧
    received.releaseVersion = .ok (some version) ∧ received.spanTiming = sent.spanTiming

section Commit

variable {rt}

private theorem exec_readableHeaders {encoded : Obj} (hreadable : Readable rt encoded)
    (entries : List (String × String)) (e : Envelope Obj) :
    ∃ added, (entries.forM (pushHeader rt encoded)).exec e =
      (.ok ⟨⟩, { e with headers := e.headers ++ added }) := by
  have hall : readable rt encoded entries = entries := by
    rw [readable, List.takeWhile_eq_self_iff]
    intro entry _
    obtain ⟨read, hfield, htext⟩ := hreadable entry.2
    rw [headerText, hfield]
    cases read with
    | none => rfl
    | some value =>
      obtain ⟨text, hstringify⟩ := htext value rfl
      simp [bind, Except.bind, pure, Except.pure, hstringify, Except.toBool]
  obtain ⟨result, hexec, hresult⟩ := exec_pushHeaders rt encoded entries e
  rw [hresult.mpr hall] at hexec
  exact ⟨_, hexec⟩

private theorem exec_commit {codec : EnvelopeCodec Obj} {version : ReleaseVersion}
    {metadataMap : Option (List (String × String))} {outgoing : Outgoing Obj} {e : Envelope Obj}
    (hcodec : rt.registry e.workloadId = some codec)
    (hcarries : Carries rt codec version outgoing.value) (hout : Outbound version metadataMap e) :
    ∃ encoded added, codec.decode encoded version = .ok outgoing.value ∧
      (outgoing.commit rt).exec e = (.ok ⟨⟩, { e with
        headers := e.headers ++ added
        content := .encoded encoded outgoing.isError }) := by
  obtain ⟨encoded, hencode, hdecode, hreadable⟩ := hcarries
  have hcontent := hout.content
  cases outgoing with
  | body payload =>
    obtain ⟨added, hpush⟩ := exec_readableHeaders hreadable (metadataMap.getD []) e
    refine ⟨encoded, added, hdecode, ?_⟩
    rw [Outgoing.commit, commitBody, Failing.exec_bind, Failing.exec_get]
    simp only [hcontent, Failing.exec_bind, Failing.exec_get, exec_getCodec, hcodec,
      exec_throwing]
    rw [show codec.encode payload version = .ok encoded from hencode]
    simp only [hpush]
    rfl
  | error reason =>
    refine ⟨encoded, [], hdecode, ?_⟩
    rw [Outgoing.commit, commitError, Failing.exec_bind, Failing.exec_get]
    simp only [hcontent, Failing.exec_bind, Failing.exec_get, exec_getCodec, hcodec,
      exec_throwing]
    rw [show codec.encode reason version = .ok encoded from hencode, List.append_nil]
    rfl

end Commit

section Accept

variable {rt}

private theorem releaseVersion_of_cons {e : Envelope Obj} {text : String} {added : List Header}
    (h : e.headers = ⟨HDR_ENGINE_RELEASE, text⟩ :: added) :
    e.releaseVersion =
      (ReleaseVersion.parse text).elim (.error .malformedVersion) (.ok ∘ some) := by
  have hfind : e.headers.find? (·.key == HDR_ENGINE_RELEASE) =
      some ⟨HDR_ENGINE_RELEASE, text⟩ := by
    rw [h]
    exact List.find?_cons_of_pos (by simp)
  simp only [releaseVersion, hfind]
  cases ReleaseVersion.parse text with
  | none => rfl
  | some version => rfl

private theorem exec_accept {codec : EnvelopeCodec Obj} {localVersion version : ReleaseVersion}
    {outgoing : Outgoing Obj} {encoded : Obj} {e : Envelope Obj}
    (hcontent : e.content = .received encoded outgoing.isError)
    (hversion : e.releaseVersion = .ok (some version))
    (hhandle : localVersion.canHandle version) (hcodec : rt.registry e.workloadId = some codec)
    (hdecode : codec.decode encoded version = .ok outgoing.value) :
    (accept rt localVersion none).exec e = (.ok ⟨⟩, { e with content := outgoing.decoded }) := by
  rw [accept, Failing.exec_bind, Failing.exec_get]
  simp only [hcontent, Failing.exec_bind, Failing.exec_get, hversion, Option.any_some, hhandle,
    Bool.not_true, Bool.false_eq_true, if_false]
  have hreceived : (decodeReceived rt localVersion none (some version) encoded).exec e =
      (.ok outgoing.value, e) := by
    rw [decodeReceived]
    simp only [Failing.exec_bind, Failing.exec_get, exec_getCodec, hcodec, Option.getD_some,
      exec_throwing, hdecode]
    rfl
  rw [Failing.exec_tryCatch, Failing.exec_bind, hreceived]
  cases outgoing <;> rfl

/-- The trip of one commit, whatever the receiver reads from the release header. -/
private theorem roundTrips_iff_parse {codec : EnvelopeCodec Obj}
    {localVersion version : ReleaseVersion} {metadataMap : Option (List (String × String))}
    {outgoing : Outgoing Obj} {e : Envelope Obj}
    (hcodec : rt.registry e.workloadId = some codec)
    (hcarries : Carries rt codec version outgoing.value) (hout : Outbound version metadataMap e)
    (hhandle : localVersion.canHandle version) :
    RoundTrips rt localVersion version outgoing e ↔
      ReleaseVersion.parse version.toString = some version := by
  obtain ⟨encoded, added, hdecode, hcommit⟩ := exec_commit hcodec hcarries hout
  constructor
  · rintro ⟨sent, memento, received, hsent, hjson, hwire, -, -, -, hheaders, hversion, -⟩
    rw [hcommit] at hsent
    cases hsent
    rw [hout.headers] at hheaders
    rw [releaseVersion_of_cons hheaders] at hversion
    cases hparse : ReleaseVersion.parse version.toString with
    | none =>
      rw [hparse] at hversion
      cases hversion
    | some parsed =>
      rw [hparse] at hversion
      exact (Except.ok.inj hversion)
  · intro hparse
    let sent : Envelope Obj := { e with
      headers := e.headers ++ added
      content := .encoded encoded outgoing.isError }
    let memento : EnvelopeMemento Obj :=
      ⟨e.trace, e.workloadId, e.headers ++ added, e.spanTiming, encoded, outgoing.isError⟩
    have hversion : ∀ content,
        ({ wireEnvelope memento with content } : Envelope Obj).releaseVersion =
          .ok (some version) := by
      intro content
      have hheaders : e.headers ++ added =
          ⟨HDR_ENGINE_RELEASE, version.toString⟩ :: added := by rw [hout.headers]; rfl
      rw [releaseVersion_of_cons hheaders, hparse, Option.elim_some, Function.comp_apply]
    have haccept : (accept rt localVersion none).exec (wireEnvelope memento) =
        (.ok ⟨⟩, { wireEnvelope memento with content := outgoing.decoded }) :=
      exec_accept rfl (hversion _) hhandle hcodec hdecode
    refine ⟨sent, memento, { wireEnvelope memento with content := outgoing.decoded }, hcommit, rfl,
      ?_, rfl, rfl, rfl, rfl, hversion _, rfl⟩
    rw [fromWire, haccept]

end Accept

/-- An envelope makes the trip exactly when each component of the sender's version is written
whole: its shortest decimal is below `10 ^ 21`, or has one significant digit. -/
theorem roundTrips_iff_writtenWhole {codec : EnvelopeCodec Obj}
    {localVersion version : ReleaseVersion} (hnatural : ReleaseVersion.Double.IsNatural version)
    {metadataMap : Option (List (String × String))} {outgoing : Outgoing Obj} {e : Envelope Obj}
    (hcodec : rt.registry e.workloadId = some codec)
    (hcarries : Carries rt codec version outgoing.value) (hout : Outbound version metadataMap e)
    (hhandle : localVersion.canHandle version) :
    RoundTrips rt localVersion version outgoing e ↔ ReleaseVersion.Double.WritesWhole version :=
  (roundTrips_iff_parse hcodec hcarries hout hhandle).trans
    (ReleaseVersion.Double.parse_toString_iff hnatural)

private theorem carries_echo (version : ReleaseVersion) (value : ℕ) :
    Carries echoRuntime ⟨fun body _ => .ok body, fun body _ => .ok body⟩ version value :=
  ⟨value, rfl, rfl, fun _ => ⟨none, rfl, fun _ h => absurd h.symm (Option.some_ne_none _)⟩⟩

/-- The double `1e23` is not `10 ^ 23`, but it is written `1e+23`. -/
def powerVersion : ReleaseVersion := .natural 99999999999999991611392 1 3

private theorem isNatural_powerVersion : ReleaseVersion.Double.IsNatural powerVersion := by
  simp only [ReleaseVersion.Double.IsNatural, List.forall_mem_cons, List.not_mem_nil,
    false_implies, implies_true, and_true]
  exact ⟨⟨_, rfl, by decide +kernel⟩, ⟨_, rfl, by decide +kernel⟩, ⟨_, rfl, by decide +kernel⟩⟩

private theorem writesWhole_powerVersion : ReleaseVersion.Double.WritesWhole powerVersion := by
  simp only [ReleaseVersion.Double.WritesWhole, List.forall_mem_cons, List.not_mem_nil,
    false_implies, implies_true, and_true]
  exact ⟨⟨_, 10 ^ 23, rfl, by decide +kernel, Or.inr ⟨1, 23, by decide, by decide⟩⟩,
    ⟨_, 1, rfl, by decide +kernel, Or.inl (by decide)⟩,
    ⟨_, 3, rfl, by decide +kernel, Or.inl (by decide)⟩⟩

theorem roundTrips_iff_writtenWhole_power :
    RoundTrips echoRuntime powerVersion powerVersion (.body 5)
      (createEnvelope "m" 0 "w" powerVersion (some [("h", "p")]) none none) :=
  (roundTrips_iff_writtenWhole echoRuntime isNatural_powerVersion rfl (carries_echo _ _)
    (outbound_createEnvelope _ _ _ _ _ _ _) (by decide +kernel)).mpr writesWhole_powerVersion

/-- The major version `15 * 10 ^ 20` is written `1.5e+21`, and the header cannot be parsed. -/
theorem large_version_not_roundTrips :
    Carries echoRuntime ⟨fun body _ => .ok body, fun body _ => .ok body⟩
      (.natural (15 * 10 ^ 20) 0 0) 5 ∧
    ReleaseVersion.canHandle (.natural (15 * 10 ^ 20) 0 0) (.natural (15 * 10 ^ 20) 0 0) ∧
    ¬RoundTrips echoRuntime (.natural (15 * 10 ^ 20) 0 0) (.natural (15 * 10 ^ 20) 0 0) (.body 5)
      (createEnvelope "m" 0 "w" (.natural (15 * 10 ^ 20) 0 0) none none none) := by
  have hhandle :
      ReleaseVersion.canHandle (.natural (15 * 10 ^ 20) 0 0) (.natural (15 * 10 ^ 20) 0 0) := by
    decide +kernel
  have hmalformed : ReleaseVersion.parse
      (ReleaseVersion.natural (15 * 10 ^ 20) 0 0).toString = none := by decide +kernel
  refine ⟨carries_echo _ _, hhandle, fun h => ?_⟩
  have hparse := (roundTrips_iff_parse rfl (carries_echo _ _)
    (outbound_createEnvelope _ _ _ _ _ _ _) hhandle).mp h
  rw [hmalformed] at hparse
  cases hparse

end RandomArt.Envelope
