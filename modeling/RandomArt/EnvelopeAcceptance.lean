import RandomArt.EnvelopeLifecycle

/-!
# Accepting what arrives on the wire

Wire data is untrusted. Whatever is wrong with it should end in an invalid envelope, and all of
it does, except that the version header is read before errors are caught: a header that is no
version makes the acceptance itself throw.
-/

namespace RandomArt.Envelope

variable {Obj : Type} (rt : Runtime Obj)

def releaseHeader (headers : List Header) : Option String :=
  (headers.find? (·.key == HDR_ENGINE_RELEASE)).map (·.value)

/-- The version in the headers; none also where the header is malformed. -/
def remoteVersion (headers : List Header) : Option ReleaseVersion :=
  (releaseHeader headers).bind ReleaseVersion.parse

def VersionReadable (headers : List Header) : Prop :=
  ∀ text, releaseHeader headers = some text → ReleaseVersion.parse text ≠ none

/-- What is wrong with a wire form that has to be rejected. -/
inductive Unacceptable (memento : EnvelopeMemento Obj) (localVersion : ReleaseVersion)
    (shim : Option (Transformer Obj)) : Prop where
  | malformedVersion {text : String} (header : releaseHeader memento.headers = some text)
      (malformed : ReleaseVersion.parse text = none)
  | versionMismatch {remote : ReleaseVersion}
      (version : remoteVersion memento.headers = some remote)
      (mismatch : localVersion.canHandle remote = false)
  | noCodec (missing : rt.registry memento.workloadId = none)
  | decodeFailed {codec : EnvelopeCodec Obj} {thrown : Obj}
      (registered : rt.registry memento.workloadId = some codec)
      (failed : codec.decode memento.payload
        ((remoteVersion memento.headers).getD localVersion) = .error thrown)
  | shimFailed {codec : EnvelopeCodec Obj} {transform : Transformer Obj}
      {remote : ReleaseVersion} {rawDecoded thrown : Obj}
      (registered : rt.registry memento.workloadId = some codec)
      (decoded : codec.decode memento.payload
        ((remoteVersion memento.headers).getD localVersion) = .ok rawDecoded)
      (shimmed : shim = some transform) (version : remoteVersion memento.headers = some remote)
      (different : localVersion.isEqual remote = false)
      (failed : transform rawDecoded remote = .error thrown)

theorem releaseVersion_of_readable {e : Envelope Obj} (h : VersionReadable e.headers) :
    e.releaseVersion = .ok (remoteVersion e.headers) := by
  rw [releaseVersion, remoteVersion, releaseHeader]
  cases hfind : e.headers.find? (·.key == HDR_ENGINE_RELEASE) with
  | none => rfl
  | some header =>
    have hparse := h header.value (by rw [releaseHeader, hfind]; rfl)
    simp only [Option.map_some, Option.bind_some]
    cases hversion : ReleaseVersion.parse header.value with
    | none => exact absurd hversion hparse
    | some version => rfl

theorem releaseVersion_of_not_readable {e : Envelope Obj} (h : ¬VersionReadable e.headers) :
    e.releaseVersion = .error .malformedVersion := by
  simp only [VersionReadable, not_forall, not_not] at h
  obtain ⟨text, hheader, hparse⟩ := h
  rw [releaseHeader, Option.map_eq_some_iff] at hheader
  obtain ⟨header, hfind, rfl⟩ := hheader
  rw [releaseVersion, hfind]
  simp only [hparse]

/-- What decoding and migrating a payload comes to; the envelope itself is left alone. -/
def decodedPayload (workloadId : String) (localVersion : ReleaseVersion)
    (shim : Option (Transformer Obj)) (remoteVersion : Option ReleaseVersion) (payload : Obj) :
    Except (Failure Obj) Obj :=
  match rt.registry workloadId with
  | none => .error (.noCodec workloadId)
  | some codec =>
    match codec.decode payload (remoteVersion.getD localVersion) with
    | .error value => .error (.thrown value)
    | .ok rawDecoded =>
      match shim, remoteVersion with
      | some transform, some remote =>
        if localVersion.isEqual remote then .ok rawDecoded
        else (transform rawDecoded remote).mapError .thrown
      | _, _ => .ok rawDecoded

theorem exec_decodeReceived (localVersion : ReleaseVersion) (shim : Option (Transformer Obj))
    (remoteVersion : Option ReleaseVersion) (payload : Obj) (e : Envelope Obj) :
    (decodeReceived rt localVersion shim remoteVersion payload).exec e =
      (decodedPayload rt e.workloadId localVersion shim remoteVersion payload, e) := by
  rw [decodeReceived, decodedPayload]
  simp only [Failing.exec_bind, Failing.exec_get, exec_getCodec]
  cases rt.registry e.workloadId with
  | none => rfl
  | some codec =>
    simp only [exec_throwing]
    cases codec.decode payload (remoteVersion.getD localVersion) with
    | error value => rfl
    | ok rawDecoded =>
      cases shim with
      | none => rfl
      | some transform =>
        cases remoteVersion with
        | none => rfl
        | some remote =>
          simp only
          split
          · rfl
          · rw [exec_throwing]
            cases transform rawDecoded remote <;> rfl

section FromWire

variable (memento : EnvelopeMemento Obj) (localVersion : ReleaseVersion)
  (shim : Option (Transformer Obj))

def Refused : Prop :=
  ∃ remote, remoteVersion memento.headers = some remote ∧ localVersion.canHandle remote = false

theorem unacceptable_iff (h : VersionReadable memento.headers) :
    Unacceptable rt memento localVersion shim ↔
      Refused memento localVersion ∨ ∃ failure, decodedPayload rt memento.workloadId localVersion
        shim (remoteVersion memento.headers) memento.payload = .error failure := by
  constructor
  · intro hbad
    cases hbad with
    | malformedVersion header malformed => exact absurd malformed (h _ header)
    | versionMismatch version mismatch => exact Or.inl ⟨_, version, mismatch⟩
    | noCodec missing => exact Or.inr ⟨_, by rw [decodedPayload, missing]⟩
    | @decodeFailed codec thrown registered failed =>
      refine Or.inr ⟨.thrown thrown, ?_⟩
      rw [decodedPayload, registered]
      simp only [failed]
    | @shimFailed codec transform remote rawDecoded thrown registered decoded shimmed version
        different failed =>
      refine Or.inr ⟨.thrown thrown, ?_⟩
      rw [version, Option.getD_some] at decoded
      rw [decodedPayload, registered, shimmed, version]
      simp [decoded, different, failed, Except.mapError]
  · rintro (⟨remote, version, mismatch⟩ | ⟨failure, hfailed⟩)
    · exact .versionMismatch version mismatch
    · rw [decodedPayload] at hfailed
      cases registered : rt.registry memento.workloadId with
      | none => exact .noCodec registered
      | some codec =>
        simp only [registered] at hfailed
        cases decoded : codec.decode memento.payload
            ((remoteVersion memento.headers).getD localVersion) with
        | error thrown => exact .decodeFailed registered decoded
        | ok rawDecoded =>
          simp only [decoded] at hfailed
          split at hfailed
          · next transform remote version =>
            split at hfailed
            · cases hfailed
            · next different =>
              cases failed : transform rawDecoded remote with
              | ok value =>
                rw [failed] at hfailed
                cases hfailed
              | error thrown =>
                exact .shimFailed registered decoded rfl version (by simpa using different) failed
          · cases hfailed

/-- Acceptance with a readable version settles the content, and rejects exactly what is
unacceptable. -/
theorem fromWire_of_readable (h : VersionReadable memento.headers) :
    ∃ content, fromWire rt memento localVersion shim =
        .ok { wireEnvelope memento with content } ∧
      (content.state = .decodedMessage ∨ content.state = .decodedError ∨
        content.state = .invalid) ∧
      (content.state = .invalid ↔ Unacceptable rt memento localVersion shim) := by
  rw [unacceptable_iff rt memento localVersion shim h]
  have hversion : (wireEnvelope memento).releaseVersion = .ok (remoteVersion memento.headers) :=
    releaseVersion_of_readable h
  rw [fromWire, accept]
  simp only [Failing.exec_bind, Failing.exec_get, wireEnvelope] at hversion ⊢
  simp only [hversion]
  by_cases hrefused : (remoteVersion memento.headers).any
      (fun remote => !localVersion.canHandle remote) = true
  · rw [if_pos hrefused]
    refine ⟨_, rfl, Or.inr (Or.inr rfl), fun _ => Or.inl ?_, fun _ => rfl⟩
    simpa [Refused, Option.any_eq_true] using hrefused
  · have haccepted : ¬Refused memento localVersion := by
      simpa [Refused, Option.any_eq_true] using hrefused
    rw [if_neg hrefused, Failing.exec_tryCatch, Failing.exec_bind, exec_decodeReceived]
    simp only
    cases hdecoded : decodedPayload rt memento.workloadId localVersion shim
        (remoteVersion memento.headers) memento.payload with
    | error failure =>
      exact ⟨_, rfl, Or.inr (Or.inr rfl), fun _ => Or.inr ⟨failure, rfl⟩, fun _ => rfl⟩
    | ok finalized =>
      have hfine : ¬(Refused memento localVersion ∨
          ∃ failure, (Except.ok finalized : Except (Failure Obj) Obj) = .error failure) := by
        rintro (hrefused | ⟨failure, hfailure⟩)
        · exact haccepted hrefused
        · cases hfailure
      cases hisError : memento.isError with
      | true => exact ⟨.decodedError finalized true, rfl, Or.inr (Or.inl rfl),
          fun hstate => (by cases hstate), fun hbad => absurd hbad hfine⟩
      | false => exact ⟨.decodedMessage finalized false, rfl, Or.inl rfl,
          fun hstate => (by cases hstate), fun hbad => absurd hbad hfine⟩

theorem fromWire_decoded {remote : ReleaseVersion} {codec : EnvelopeCodec Obj} {value : Obj}
    (hversion : remoteVersion memento.headers = some remote)
    (hhandle : localVersion.canHandle remote = true)
    (hcodec : rt.registry memento.workloadId = some codec)
    (hdecode : codec.decode memento.payload remote = .ok value) :
    fromWire rt memento localVersion none = .ok { wireEnvelope memento with
      content := if memento.isError then .decodedError value true
        else .decodedMessage value false } := by
  have hreadable : VersionReadable memento.headers := by
    intro text htext hparse
    rw [remoteVersion, htext, Option.bind_some, hparse] at hversion
    cases hversion
  have hreleased : (wireEnvelope memento).releaseVersion = .ok (some remote) := by
    rw [← hversion]
    exact releaseVersion_of_readable hreadable
  have hdecoded : decodedPayload rt memento.workloadId localVersion none (some remote)
      memento.payload = .ok value := by
    rw [decodedPayload, hcodec]
    simp only [Option.getD_some, hdecode]
  rw [fromWire, accept]
  simp only [Failing.exec_bind, Failing.exec_get, wireEnvelope] at hreleased ⊢
  simp only [hreleased, Option.any_some, hhandle, Bool.not_true, Bool.false_eq_true, if_false]
  rw [Failing.exec_tryCatch, Failing.exec_bind, exec_decodeReceived]
  simp only [hdecoded]
  cases memento.isError <;> rfl

theorem fromWire_of_not_readable (h : ¬VersionReadable memento.headers) :
    fromWire rt memento localVersion shim = .error .malformedVersion := by
  have hversion : (wireEnvelope memento).releaseVersion = .error .malformedVersion :=
    releaseVersion_of_not_readable h
  rw [fromWire, accept]
  simp only [Failing.exec_bind, Failing.exec_get, wireEnvelope] at hversion ⊢
  simp only [hversion]
  rfl

/-- The wire form is taken in without throwing, and ends invalid where it is unacceptable. -/
def Settles : Prop :=
  ∃ envelope, fromWire rt memento localVersion shim = .ok envelope ∧
    (envelope.state = .decodedMessage ∨ envelope.state = .decodedError ∨
      envelope.state = .invalid) ∧
    (Unacceptable rt memento localVersion shim → envelope.state = .invalid)

/-- A wire form settles exactly when its version header is missing or is a version. -/
theorem settles_iff_versionReadable :
    Settles rt memento localVersion shim ↔ VersionReadable memento.headers := by
  constructor
  · rintro ⟨envelope, hwire, -⟩
    by_contra h
    rw [fromWire_of_not_readable rt memento localVersion shim h] at hwire
    cases hwire
  · intro h
    obtain ⟨content, hwire, hstate, hinvalid⟩ := fromWire_of_readable rt memento localVersion shim h
    exact ⟨_, hwire, hstate, hinvalid.mpr⟩

end FromWire

def wordVersionMemento : EnvelopeMemento ℕ where
  trace := ⟨"m1", "m1", "m1"⟩
  workloadId := "paint"
  headers := [⟨HDR_ENGINE_RELEASE, "latest"⟩]
  spanTiming := ⟨1, none, none⟩
  payload := 5
  isError := false

/-- A malformed version header is not rejected but thrown. -/
theorem word_version_throws :
    ¬Settles echoRuntime wordVersionMemento ReleaseVersion.currentRelease none := by
  rintro ⟨envelope, hwire, -⟩
  cases hwire

end RandomArt.Envelope
