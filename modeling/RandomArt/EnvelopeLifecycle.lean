import RandomArt.Envelope

/-!
# The lifecycle of an envelope

The moves of the lifecycle, and what each envelope method does to the state, the
trace, the timing and the content of the envelope it is called on. Every method is
described once, by the states it may leave behind; the invariant follows from that.
-/

namespace RandomArt.Envelope

open Relation (ReflTransGen)

variable {Obj : Type}

/-- The moves between lifecycle states. -/
inductive StateMove : MessageLifecycle → MessageLifecycle → Prop where
  | commit : StateMove .awaitingPayload .encoded
  | acceptMessage : StateMove .received .decodedMessage
  | acceptError : StateMove .received .decodedError
  | reject : StateMove .received .invalid
  | begin : StateMove .decodedMessage .handling
  | finish : StateMove .handling .exhausted

/-- One envelope object at an earlier and a later moment. -/
structure Evolves (e e' : Envelope Obj) : Prop where
  moves : ReflTransGen StateMove e.state e'.state
  trace : e'.trace = e.trace
  frozen : e.state = .encoded → e'.content = e.content

theorem Evolves.refl (e : Envelope Obj) : Evolves e e := ⟨.refl, rfl, fun _ => rfl⟩

theorem Evolves.trans (a b c : Envelope Obj) (hab : Evolves a b) (hbc : Evolves b c) :
    Evolves a c where
  moves := hab.moves.trans hbc.moves
  trace := hbc.trace.trans hab.trace
  frozen h := by
    have hb : b.state = .encoded := by rw [state, hab.frozen h]; exact h
    exact (hbc.frozen hb).trans (hab.frozen h)

/-- The invariant of an envelope; `errorCommitted` says that an error was committed to it. -/
structure Lawful (errorCommitted : Prop) (e : Envelope Obj) : Prop where
  origin : ReflTransGen StateMove .awaitingPayload e.state ∨
    ReflTransGen StateMove .received e.state
  started : e.spanTiming.handlingStartedAt.isSome ↔ e.state = .handling ∨ e.state = .exhausted
  ended : e.spanTiming.handlingEndedAt.isSome ↔ e.state = .exhausted
  flag : e.content.isError = some true ↔
    e.state = .decodedError ∨ e.state = .invalid ∨ (e.state = .encoded ∧ errorCommitted)
  committed : errorCommitted → e.state = .encoded

theorem Lawful.congr {p q : Prop} {e : Envelope Obj} (hpq : p ↔ q) (he : Lawful p e) :
    Lawful q e := by rwa [← propext hpq]

section Methods

variable (rt : Runtime Obj) {p : Prop}

/-- A method that keeps every envelope lawful and lets it evolve. -/
abbrev Keeps {α : Type} (m : Method Obj α) : Prop :=
  ∀ p : Prop, Failing.Maintains (Lawful p) Evolves m

theorem state_eq {e : Envelope Obj} {content : EnvelopeData Obj} (h : e.content = content) :
    e.state = content.state := by rw [state, h]

theorem lawful_of_awaiting {e : Envelope Obj} {config : OutboundConfig}
    (hc : e.content = .awaitingPayload config) (hs : e.spanTiming.handlingStartedAt = none)
    (he : e.spanTiming.handlingEndedAt = none) : Lawful False e := by
  have hstate := state_eq hc
  constructor <;> simp [hstate, EnvelopeData.state, hc, hs, he, EnvelopeData.isError,
    ReflTransGen.refl]

theorem lawful_createEnvelope (messageId : String) (now : ℕ) (workloadId : String)
    (releaseVersion : ReleaseVersion) (metadataMap : Option (List (String × String)))
    (correlationId causationId : Option String) :
    Lawful False (createEnvelope messageId now workloadId releaseVersion metadataMap
      correlationId causationId : Envelope Obj) :=
  lawful_of_awaiting rfl rfl rfl

/-- Beginning to handle either throws and changes nothing, or opens the span of a message. -/
theorem beginHandling_cases (now : ℕ) (e : Envelope Obj) :
    (∃ failure, (beginHandling now).exec e = (.error failure, e)) ∨
    (∃ payload isError, e.content = .decodedMessage payload isError ∧
      (beginHandling now).exec e = (.ok ⟨⟩, { e with
        content := .handling payload false
        spanTiming := { e.spanTiming with handlingStartedAt := some now } })) := by
  rw [beginHandling]
  simp only [Failing.exec_bind, Failing.exec_get]
  cases h : e.content with
  | decodedMessage payload isError => exact Or.inr ⟨payload, isError, rfl, rfl⟩
  | _ => exact Or.inl ⟨_, rfl⟩

/-- Ending the handling either throws and changes nothing, or closes an open span. -/
theorem endHandling_cases (now : ℕ) (e : Envelope Obj) :
    (∃ failure, (endHandling now).exec e = (.error failure, e)) ∨
    (∃ payload isError, e.content = .handling payload isError ∧
      (endHandling now).exec e = (.ok { e.spanTiming with handlingEndedAt := some now }, { e with
        spanTiming := { e.spanTiming with handlingEndedAt := some now }
        content := .exhausted payload false })) := by
  rw [endHandling]
  simp only [Failing.exec_bind, Failing.exec_get]
  cases h : e.content with
  | handling payload isError => exact Or.inr ⟨payload, isError, rfl, rfl⟩
  | _ => exact Or.inl ⟨_, rfl⟩

theorem assertState_state (expected : List MessageLifecycle) (e : Envelope Obj) :
    ((assertState expected).exec e).2 = e := by
  rw [assertState]
  simp only [Failing.exec_bind, Failing.exec_get]
  split <;> rfl

theorem exec_throwing {α : Type} (call : Except Obj α) (e : Envelope Obj) :
    (throwing call).exec e =
      (match call with | .ok a => .ok a | .error value => .error (.thrown value), e) := by
  cases call <;> rfl

theorem exec_getCodec (id : String) (e : Envelope Obj) :
    (getCodec rt id).exec e =
      (match rt.registry id with | some codec => .ok codec | none => .error (.noCodec id), e) := by
  rw [getCodec]
  cases rt.registry id <;> rfl

/-- Replying leaves the envelope alone; the child awaits its payload. -/
theorem startReplying_cases (messageId : String) (now : ℕ) (workloadId : Option String)
    (releaseVersion : Option ReleaseVersion) (metadataMap : Option (List (String × String)))
    (e : Envelope Obj) :
    ((startReplying messageId now workloadId releaseVersion metadataMap).exec e).2 = e ∧
    ∀ child, ((startReplying messageId now workloadId releaseVersion metadataMap).exec e).1 =
      .ok child →
      (∃ config, child.content = .awaitingPayload config) ∧
      child.spanTiming = ⟨now, none, none⟩ ∧
      child.trace = ⟨e.trace.correlationId, e.trace.messageId, messageId⟩ := by
  rw [startReplying]
  rw [Failing.exec_bind]
  have hassert := assertState_state [.handling, .encoded] e
  rcases hr : (assertState [.handling, .encoded]).exec e with ⟨result, e'⟩
  rw [hr] at hassert
  obtain rfl : e' = e := hassert
  cases result with
  | error failure => exact ⟨rfl, fun child h => by cases h⟩
  | ok _ =>
    simp only [Failing.exec_bind, Failing.exec_get]
    cases e'.replyTarget workloadId releaseVersion with
    | error failure => exact ⟨rfl, fun child h => by cases h⟩
    | ok target =>
      refine ⟨rfl, fun child h => ?_⟩
      cases h
      exact ⟨⟨_, rfl⟩, rfl, rfl⟩

/-- Two moments of an envelope between which only headers were added. -/
def OnlyHeaders (e e' : Envelope Obj) : Prop := ∃ headers, e' = { e with headers }

private theorem pushHeader_onlyHeaders (encoded : Obj) (entry : String × String) :
    Failing.Maintains (fun _ => True) OnlyHeaders (pushHeader rt encoded entry) := by
  refine fun e _ => ⟨trivial, ?_⟩
  rw [pushHeader]
  rw [Failing.exec_bind, exec_throwing]
  cases rt.field encoded entry.2 with
  | error value => exact ⟨e.headers, rfl⟩
  | ok read =>
    cases read with
    | none => exact ⟨e.headers, rfl⟩
    | some value =>
      simp only [Failing.exec_bind, exec_throwing]
      cases rt.stringify value with
      | error value => exact ⟨e.headers, rfl⟩
      | ok text => exact ⟨_, rfl⟩

private theorem pushHeaders_onlyHeaders (encoded : Obj) (entries : List (String × String)) :
    Failing.Maintains (fun _ => True) OnlyHeaders (entries.forM (pushHeader rt encoded)) := by
  refine Failing.Maintains.forM (fun e => ⟨e.headers, rfl⟩) ?_ entries
    fun entry _ => pushHeader_onlyHeaders rt encoded entry
  rintro a b c ⟨hb, rfl⟩ ⟨hc, rfl⟩
  exact ⟨hc, rfl⟩

/-- A committed body either reaches the encoded state, or throws and leaves at most some
headers behind. -/
theorem commitBody_cases (body : Obj) (e : Envelope Obj) :
    ∃ e', OnlyHeaders e e' ∧
      ((∃ failure, (commitBody rt body).exec e = (.error failure, e')) ∨
        (∃ config codec encoded, e.content = .awaitingPayload config ∧
          rt.registry e.workloadId = some codec ∧
          codec.encode body config.releaseVersion = .ok encoded ∧
          (commitBody rt body).exec e =
            (.ok ⟨⟩, { e' with content := .encoded encoded false }))) := by
  have hsame : OnlyHeaders e e := ⟨e.headers, rfl⟩
  rw [commitBody]
  simp only [Failing.exec_bind, Failing.exec_get]
  cases h : e.content with
  | awaitingPayload config =>
    simp only [Failing.exec_bind, Failing.exec_get, exec_getCodec]
    cases hcodec : rt.registry e.workloadId with
    | none => exact ⟨e, hsame, Or.inl ⟨_, rfl⟩⟩
    | some codec =>
      simp only [exec_throwing]
      cases hencode : codec.encode body config.releaseVersion with
      | error value => exact ⟨e, hsame, Or.inl ⟨_, rfl⟩⟩
      | ok encoded =>
        obtain ⟨-, hpush⟩ :=
          pushHeaders_onlyHeaders rt encoded (config.metadataMap.getD []) e trivial
        simp only
        rcases hr : Failing.exec ((config.metadataMap.getD []).forM (pushHeader rt encoded)) e
          with ⟨result, e'⟩
        rw [hr] at hpush
        refine ⟨e', hpush, ?_⟩
        cases result with
        | error failure => exact Or.inl ⟨failure, rfl⟩
        | ok _ => exact Or.inr ⟨config, codec, encoded, rfl, rfl, hencode, rfl⟩
  | _ => exact ⟨e, hsame, Or.inl ⟨_, rfl⟩⟩

/-- A committed error either reaches the encoded state, or throws and changes nothing. -/
theorem commitError_cases (error : Obj) (e : Envelope Obj) :
    (∃ failure, (commitError rt error).exec e = (.error failure, e)) ∨
    (∃ config encoded, e.content = .awaitingPayload config ∧
      (commitError rt error).exec e = (.ok ⟨⟩, { e with content := .encoded encoded true })) := by
  rw [commitError]
  simp only [Failing.exec_bind, Failing.exec_get]
  cases h : e.content with
  | awaitingPayload config =>
    simp only [Failing.exec_bind, Failing.exec_get, exec_getCodec]
    cases rt.registry e.workloadId with
    | none => exact Or.inl ⟨_, rfl⟩
    | some codec =>
      simp only [exec_throwing]
      cases codec.encode error config.releaseVersion with
      | error value => exact Or.inl ⟨_, rfl⟩
      | ok encoded => exact Or.inr ⟨config, encoded, rfl, rfl⟩
  | _ => exact Or.inl ⟨_, rfl⟩

private theorem decodeReceived_state (localVersion : ReleaseVersion)
    (shim : Option (Transformer Obj)) (remoteVersion : Option ReleaseVersion) (payload : Obj)
    (e : Envelope Obj) :
    ((decodeReceived rt localVersion shim remoteVersion payload).exec e).2 = e := by
  rw [decodeReceived]
  simp only [Failing.exec_bind, Failing.exec_get, exec_getCodec]
  cases rt.registry e.workloadId with
  | none => rfl
  | some codec =>
    simp only [exec_throwing]
    cases codec.decode payload (remoteVersion.getD localVersion) with
    | error value => rfl
    | ok rawDecoded =>
      cases shim with
      | none => rfl
      | some transform =>
        cases remoteVersion with
        | none => rfl
        | some remote =>
          simp only
          split
          · rfl
          · rw [exec_throwing]

/-- Accepting a received envelope either throws and changes nothing, or settles it as a
message, an error or an invalid envelope, with the matching flag. -/
theorem accept_cases (localVersion : ReleaseVersion) (shim : Option (Transformer Obj))
    {e : Envelope Obj} {payload : Obj} {isError : Bool}
    (h : e.content = .received payload isError) :
    (∃ failure, (accept rt localVersion shim).exec e = (.error failure, e)) ∨
    (∃ content, (accept rt localVersion shim).exec e = (.ok ⟨⟩, { e with content }) ∧
      ((∃ message, content = .decodedMessage message false) ∨
        (∃ error, content = .decodedError error true) ∨
        (∃ reason, content = .invalid reason true))) := by
  rw [accept]
  simp only [Failing.exec_bind, Failing.exec_get, h]
  cases e.releaseVersion with
  | error failure => exact Or.inl ⟨failure, rfl⟩
  | ok remoteVersion =>
    simp only
    split
    · exact Or.inr ⟨_, rfl, Or.inr (Or.inr ⟨_, rfl⟩)⟩
    · right
      rw [Failing.exec_tryCatch, Failing.exec_bind]
      have hdecode := decodeReceived_state rt localVersion shim remoteVersion payload e
      rcases hr : (decodeReceived rt localVersion shim remoteVersion payload).exec e
        with ⟨result, e'⟩
      rw [hr] at hdecode
      obtain rfl : e' = e := hdecode
      cases result with
      | error failure => exact ⟨_, rfl, Or.inr (Or.inr ⟨_, rfl⟩)⟩
      | ok finalized =>
        cases isError with
        | true => exact ⟨_, rfl, Or.inr (Or.inl ⟨_, rfl⟩)⟩
        | false => exact ⟨_, rfl, Or.inl ⟨_, rfl⟩⟩

end Methods

section Preservation

variable (rt : Runtime Obj)

private theorem lawful_of_eq {p : Prop} {e e' : Envelope Obj} (hcontent : e'.content = e.content)
    (htiming : e'.spanTiming = e.spanTiming) (he : Lawful p e) : Lawful p e' := by
  have hstate : e'.state = e.state := by rw [state, hcontent, state]
  constructor
  · simpa only [hstate] using he.origin
  · simpa only [hstate, htiming] using he.started
  · simpa only [hstate, htiming] using he.ended
  · simpa only [hstate, hcontent] using he.flag
  · simpa only [hstate] using he.committed

private theorem evolves_of_move {e e' : Envelope Obj} (hmove : StateMove e.state e'.state)
    (htrace : e'.trace = e.trace) : Evolves e e' := by
  refine ⟨.single hmove, htrace, fun henc => ?_⟩
  rw [henc] at hmove
  cases hmove

private theorem origin_move {e e' : Envelope Obj} (hmove : StateMove e.state e'.state)
    (h : ReflTransGen StateMove .awaitingPayload e.state ∨
      ReflTransGen StateMove .received e.state) :
    ReflTransGen StateMove .awaitingPayload e'.state ∨ ReflTransGen StateMove .received e'.state :=
  h.imp (·.tail hmove) (·.tail hmove)

theorem keeps_beginHandling (now : ℕ) : Keeps (beginHandling now : Method Obj PUnit) := by
  intro p e he
  rcases beginHandling_cases now e with ⟨failure, hx⟩ | ⟨payload, isError, hc, hx⟩
  · rw [hx]
    exact ⟨he, .refl e⟩
  · have hstate : e.state = .decodedMessage := state_eq hc
    rw [hx]
    have hmove : StateMove e.state .handling := hstate ▸ .begin
    have hp : ¬p := fun h => absurd (he.committed h) (by simp [hstate])
    refine ⟨⟨origin_move hmove he.origin, ?_, ?_, ?_, fun h => absurd h hp⟩,
      evolves_of_move hmove rfl⟩
    · simp [state, EnvelopeData.state]
    · have := he.ended
      simp [hstate] at this
      simp [state, EnvelopeData.state, this]
    · simp [state, EnvelopeData.state, EnvelopeData.isError]

theorem keeps_endHandling (now : ℕ) : Keeps (endHandling now : Method Obj SpanTiming) := by
  intro p e he
  rcases endHandling_cases now e with ⟨failure, hx⟩ | ⟨payload, isError, hc, hx⟩
  · rw [hx]
    exact ⟨he, .refl e⟩
  · have hstate : e.state = .handling := state_eq hc
    rw [hx]
    have hmove : StateMove e.state .exhausted := hstate ▸ .finish
    have hp : ¬p := fun h => absurd (he.committed h) (by simp [hstate])
    refine ⟨⟨origin_move hmove he.origin, ?_, ?_, ?_, fun h => absurd h hp⟩,
      evolves_of_move hmove rfl⟩
    · have := he.started
      simp [hstate] at this
      simp [state, EnvelopeData.state, this]
    · simp [state, EnvelopeData.state]
    · simp [state, EnvelopeData.state, EnvelopeData.isError]

theorem keeps_startReplying (messageId : String) (now : ℕ) (workloadId : Option String)
    (releaseVersion : Option ReleaseVersion) (metadataMap : Option (List (String × String))) :
    Keeps (startReplying messageId now workloadId releaseVersion metadataMap :
      Method Obj (Envelope Obj)) := by
  intro p e he
  rw [(startReplying_cases messageId now workloadId releaseVersion metadataMap e).1]
  exact ⟨he, .refl e⟩

theorem OnlyHeaders.lawful {p : Prop} {e e' : Envelope Obj} (h : OnlyHeaders e e')
    (he : Lawful p e) : Lawful p e' := by
  obtain ⟨headers, rfl⟩ := h
  refine lawful_of_eq ?_ ?_ he <;> rfl

theorem OnlyHeaders.evolves {e e' : Envelope Obj} (h : OnlyHeaders e e') : Evolves e e' := by
  obtain ⟨headers, rfl⟩ := h
  exact ⟨.refl, rfl, fun _ => rfl⟩

private theorem lawful_encoded {p : Prop} {e : Envelope Obj} {config : OutboundConfig}
    (hc : e.content = .awaitingPayload config) (he : Lawful p e) (encoded : Obj) (isError : Bool) :
    Lawful (isError = true) { e with content := .encoded encoded isError } ∧
      Evolves e { e with content := .encoded encoded isError } := by
  have hstate : e.state = .awaitingPayload := state_eq hc
  have hmove : StateMove e.state .encoded := hstate ▸ .commit
  have hstarted := he.started
  have hended := he.ended
  simp [hstate] at hstarted hended
  refine ⟨⟨origin_move hmove he.origin, ?_, ?_, ?_, fun _ => rfl⟩, evolves_of_move hmove rfl⟩
  · simp [state, EnvelopeData.state, hstarted]
  · simp [state, EnvelopeData.state, hended]
  · simp [state, EnvelopeData.state, EnvelopeData.isError]

theorem keeps_commitBody (body : Obj) : Keeps (commitBody rt body) := by
  intro p e he
  obtain ⟨e', hheaders, ⟨failure, hx⟩ | ⟨config, codec, encoded, hc, -, -, hx⟩⟩ :=
    commitBody_cases rt body e
  · rw [hx]
    exact ⟨hheaders.lawful he, hheaders.evolves⟩
  · have hp : ¬p := fun h => absurd (he.committed h) (by simp [state_eq hc, EnvelopeData.state])
    have hc' : e'.content = .awaitingPayload config := by
      obtain ⟨headers, rfl⟩ := hheaders
      exact hc
    obtain ⟨hlawful, hevolves⟩ := lawful_encoded hc' (hheaders.lawful he) encoded false
    rw [hx]
    exact ⟨hlawful.congr (by simp [hp]), hheaders.evolves.trans _ _ _ hevolves⟩

/-- Committing an error: on success the envelope counts as error-committed from then on. -/
theorem commitError_lawful (error : Obj) {p : Prop} {e : Envelope Obj} (he : Lawful p e) :
    Evolves e ((commitError rt error).exec e).2 ∧
      Lawful (p ∨ ((commitError rt error).exec e).1 = .ok ⟨⟩)
        ((commitError rt error).exec e).2 := by
  rcases commitError_cases rt error e with ⟨failure, hx⟩ | ⟨config, encoded, hc, hx⟩
  · rw [hx]
    exact ⟨.refl e, he.congr (by simp)⟩
  · obtain ⟨hlawful, hevolves⟩ := lawful_encoded hc he encoded true
    rw [hx]
    exact ⟨hevolves, hlawful.congr (by simp)⟩

theorem lawful_fromWire {memento : EnvelopeMemento Obj} {localVersion : ReleaseVersion}
    {shim : Option (Transformer Obj)} {e : Envelope Obj}
    (hstarted : memento.spanTiming.handlingStartedAt = none)
    (hended : memento.spanTiming.handlingEndedAt = none)
    (h : fromWire rt memento localVersion shim = .ok e) :
    Lawful False e ∧ StateMove .received e.state ∧ e.trace = memento.trace := by
  have hreceived : (wireEnvelope memento).content = .received memento.payload memento.isError := rfl
  rw [fromWire] at h
  rcases accept_cases rt localVersion shim hreceived with ⟨failure, hx⟩ | ⟨content, hx, hcontent⟩
  · rw [hx] at h
    cases h
  · rw [hx] at h
    cases h
    have hmove : StateMove .received content.state := by
      rcases hcontent with ⟨_, rfl⟩ | ⟨_, rfl⟩ | ⟨_, rfl⟩
      · exact .acceptMessage
      · exact .acceptError
      · exact .reject
    refine ⟨⟨Or.inr (.single hmove), ?_, ?_, ?_, False.elim⟩, hmove, rfl⟩
    · rcases hcontent with ⟨_, rfl⟩ | ⟨_, rfl⟩ | ⟨_, rfl⟩ <;>
        simp [state, EnvelopeData.state, wireEnvelope, hstarted]
    · rcases hcontent with ⟨_, rfl⟩ | ⟨_, rfl⟩ | ⟨_, rfl⟩ <;>
        simp [state, EnvelopeData.state, wireEnvelope, hended]
    · rcases hcontent with ⟨_, rfl⟩ | ⟨_, rfl⟩ | ⟨_, rfl⟩ <;>
        simp [state, EnvelopeData.state, EnvelopeData.isError]

/-- Only an encoded envelope has a wire form, and its processing span was never opened. -/
theorem toJSON_timing {p : Prop} {e : Envelope Obj} {memento : EnvelopeMemento Obj}
    (he : Lawful p e) (h : e.toJSON = .ok memento) :
    memento.spanTiming.handlingStartedAt = none ∧ memento.spanTiming.handlingEndedAt = none := by
  rw [toJSON] at h
  split at h
  · next payload isError hc =>
    cases h
    have hstarted := he.started
    have hended := he.ended
    simp [state_eq hc, EnvelopeData.state] at hstarted hended
    exact ⟨hstarted, hended⟩
  · cases h

end Preservation

end RandomArt.Envelope
