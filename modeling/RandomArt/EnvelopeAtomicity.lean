import RandomArt.EnvelopeLifecycle

/-!
# Envelope methods that throw

A method that throws should leave its envelope as it was. All methods do, except that a body
is committed by adding headers one by one, each of which has to be serialized: one that fails
leaves the headers before it behind.
-/

namespace RandomArt.Envelope

variable {Obj : Type} (rt : Runtime Obj)

/-- The methods of one envelope, with their arguments and what they draw from the clock and the
id factory. -/
inductive MethodCall (Obj : Type) where
  | beginHandling (now : ℕ)
  | endHandling (now : ℕ)
  | startReplying (messageId : String) (now : ℕ) (workloadId : Option String)
      (releaseVersion : Option ReleaseVersion) (metadataMap : Option (List (String × String)))
  | commitBody (body : Obj)
  | commitError (error : Obj)
  | toJSON

def forget {α : Type} (result : Except (Failure Obj) α) : Except (Failure Obj) PUnit :=
  result.map fun _ => ⟨⟩

/-- Whether a call throws, and the envelope after it. -/
def call (e : Envelope Obj) : MethodCall Obj → Except (Failure Obj) PUnit × Envelope Obj
  | .beginHandling now => (Envelope.beginHandling now).exec e
  | .endHandling now => ((Envelope.endHandling now).exec e).map forget id
  | .startReplying messageId now workloadId releaseVersion metadataMap =>
    ((Envelope.startReplying messageId now workloadId releaseVersion metadataMap).exec e).map
      forget id
  | .commitBody body => (Envelope.commitBody rt body).exec e
  | .commitError error => (Envelope.commitError rt error).exec e
  | .toJSON => (forget (Envelope.toJSON e), e)

/-- Two moments of an envelope that nobody can tell apart. -/
structure Unchanged (e e' : Envelope Obj) : Prop where
  state : e'.state = e.state
  payload : e'.content.payload = e.content.payload
  isError : e'.content.isError = e.content.isError
  headers : e'.headers = e.headers
  spanTiming : e'.spanTiming = e.spanTiming

theorem Unchanged.refl (e : Envelope Obj) : Unchanged e e := ⟨rfl, rfl, rfl, rfl, rfl⟩

/-- A call that throws leaves the envelope as it was. -/
def FailsAtomically (e : Envelope Obj) (method : MethodCall Obj) : Prop :=
  ∀ failure e', call rt e method = (.error failure, e') → Unchanged e e'

section Headers

/-- The text of the header that an entry of the metadata map adds; none when the field is
missing. -/
def headerText (encoded : Obj) (entry : String × String) : Except Obj (Option String) := do
  match ← rt.field encoded entry.2 with
  | none => return none
  | some value => return some (← rt.stringify value)

/-- The entries before the first one that cannot be read or serialized. -/
def readable (encoded : Obj) (entries : List (String × String)) : List (String × String) :=
  entries.takeWhile fun entry => (headerText rt encoded entry).toBool

def entryHeaders (encoded : Obj) (entry : String × String) : List Header :=
  match headerText rt encoded entry with
  | .ok (some text) => [⟨entry.1, text⟩]
  | _ => []

theorem entryHeaders_eq_nil_iff {encoded : Obj} {entry : String × String}
    (h : (headerText rt encoded entry).toBool = true) :
    entryHeaders rt encoded entry = [] ↔ headerText rt encoded entry = .ok none := by
  rw [entryHeaders]
  cases htext : headerText rt encoded entry with
  | error value =>
    rw [htext] at h
    cases h
  | ok text => cases text <;> simp

theorem exec_pushHeader (encoded : Obj) (entry : String × String) (e : Envelope Obj) :
    (pushHeader rt encoded entry).exec e =
      (match headerText rt encoded entry with
        | .ok _ => .ok ⟨⟩
        | .error value => .error (.thrown value),
      { e with headers := e.headers ++ entryHeaders rt encoded entry }) := by
  rw [pushHeader, Failing.exec_bind, exec_throwing]
  cases hfield : rt.field encoded entry.2 with
  | error value => simp [entryHeaders, headerText, hfield, bind, Except.bind]
  | ok read =>
    cases read with
    | none =>
      rw [entryHeaders, headerText, hfield]
      simp only [bind, Except.bind, pure, Except.pure, List.append_nil]
      rfl
    | some value =>
      simp only [Failing.exec_bind, exec_throwing]
      cases htext : rt.stringify value with
      | error value => simp [entryHeaders, headerText, hfield, htext, bind, Except.bind]
      | ok text =>
        simp [entryHeaders, headerText, hfield, htext, bind, Except.bind, pure, Except.pure]

theorem exec_pushHeaders (encoded : Obj) (entries : List (String × String)) (e : Envelope Obj) :
    ∃ result, Failing.exec (entries.forM (pushHeader rt encoded)) e =
        (result, { e with headers :=
          e.headers ++ (readable rt encoded entries).flatMap (entryHeaders rt encoded) }) ∧
      (result = .ok ⟨⟩ ↔ readable rt encoded entries = entries) := by
  induction entries generalizing e with
  | nil => exact ⟨.ok ⟨⟩, by simp [readable, List.forM_nil], by simp [readable]⟩
  | cons entry entries ih =>
    change ∃ result, Failing.exec (pushHeader rt encoded entry >>= fun _ =>
      entries.forM (pushHeader rt encoded)) e = _ ∧ _
    rw [Failing.exec_bind, exec_pushHeader]
    rcases htext : headerText rt encoded entry with value | text
    · refine ⟨.error (.thrown value), ?_, ?_⟩
      · simp [readable, entryHeaders, htext, Except.toBool]
      · simp [readable, htext, Except.toBool]
    · obtain ⟨result, hexec, hresult⟩ :=
        ih { e with headers := e.headers ++ entryHeaders rt encoded entry }
      have hread : readable rt encoded (entry :: entries) =
          entry :: readable rt encoded entries :=
        List.takeWhile_cons_of_pos (by simp [htext, Except.toBool])
      refine ⟨result, ?_, ?_⟩
      · simp only [hexec, hread, List.flatMap_cons, List.append_assoc]
      · rw [hresult, hread, List.cons_inj_right]

end Headers

/-- A body that is committed without leaving headers behind: it has no header that fails after
one that was added. -/
def CommitsAtomically (e : Envelope Obj) (body : Obj) : Prop :=
  ∀ config codec encoded, e.content = .awaitingPayload config →
    rt.registry e.workloadId = some codec →
    codec.encode body config.releaseVersion = .ok encoded →
    readable rt encoded (config.metadataMap.getD []) = config.metadataMap.getD [] ∨
      ∀ entry ∈ readable rt encoded (config.metadataMap.getD []),
        headerText rt encoded entry = .ok none

theorem commitBody_refused {e : Envelope Obj} {body : Obj}
    (h : ∀ config codec encoded, e.content = .awaitingPayload config →
      rt.registry e.workloadId = some codec →
      codec.encode body config.releaseVersion ≠ .ok encoded) :
    ∃ failure, (commitBody rt body).exec e = (.error failure, e) := by
  rw [commitBody]
  simp only [Failing.exec_bind, Failing.exec_get]
  cases hc : e.content with
  | awaitingPayload config =>
    simp only [Failing.exec_bind, Failing.exec_get, exec_getCodec]
    cases hcodec : rt.registry e.workloadId with
    | none => exact ⟨_, rfl⟩
    | some codec =>
      simp only [exec_throwing]
      cases hencode : codec.encode body config.releaseVersion with
      | error value => exact ⟨_, rfl⟩
      | ok encoded => exact absurd hencode (h config codec encoded hc hcodec)
  | _ => exact ⟨_, rfl⟩

theorem commitBody_encoded {e : Envelope Obj} {body encoded : Obj} {config : OutboundConfig}
    {codec : EnvelopeCodec Obj} (hc : e.content = .awaitingPayload config)
    (hcodec : rt.registry e.workloadId = some codec)
    (hencode : codec.encode body config.releaseVersion = .ok encoded) :
    let entries := config.metadataMap.getD []
    let added := e.headers ++ (readable rt encoded entries).flatMap (entryHeaders rt encoded)
    (readable rt encoded entries = entries ∧ (commitBody rt body).exec e =
      (.ok ⟨⟩, { e with content := .encoded encoded false, headers := added })) ∨
    (readable rt encoded entries ≠ entries ∧ ∃ failure, (commitBody rt body).exec e =
      (.error failure, { e with headers := added })) := by
  intro entries added
  obtain ⟨result, hexec, hresult⟩ := exec_pushHeaders rt encoded entries e
  rw [commitBody]
  simp only [Failing.exec_bind, Failing.exec_get, hc, exec_getCodec, hcodec, exec_throwing,
    hencode]
  rw [hexec]
  cases result with
  | ok _ => exact Or.inl ⟨hresult.mp rfl, rfl⟩
  | error failure =>
    have hfails : readable rt encoded entries ≠ entries := by
      intro h
      cases hresult.mpr h
    refine Or.inr ⟨hfails, failure, ?_⟩
    rw [← hc]

theorem flatMap_entryHeaders_eq_nil_iff {encoded : Obj} {entries : List (String × String)} :
    (readable rt encoded entries).flatMap (entryHeaders rt encoded) = [] ↔
      ∀ entry ∈ readable rt encoded entries, headerText rt encoded entry = .ok none := by
  rw [List.flatMap_eq_nil_iff]
  refine forall₂_congr fun entry hentry => ?_
  exact entryHeaders_eq_nil_iff rt
    (List.mem_takeWhile_imp (p := fun entry => (headerText rt encoded entry).toBool) hentry)

theorem failsAtomically_commitBody_iff (e : Envelope Obj) (body : Obj) :
    FailsAtomically rt e (.commitBody body) ↔ CommitsAtomically rt e body := by
  by_cases h : ∃ config codec encoded, e.content = .awaitingPayload config ∧
    rt.registry e.workloadId = some codec ∧ codec.encode body config.releaseVersion = .ok encoded
  · obtain ⟨config, codec, encoded, hc, hcodec, hencode⟩ := h
    have hcommits : CommitsAtomically rt e body ↔
        readable rt encoded (config.metadataMap.getD []) = config.metadataMap.getD [] ∨
          ∀ entry ∈ readable rt encoded (config.metadataMap.getD []),
            headerText rt encoded entry = .ok none := by
      constructor
      · intro h
        exact h config codec encoded hc hcodec hencode
      · intro h config' codec' encoded' hc' hcodec' hencode'
        obtain rfl : config = config' := by simpa using hc.symm.trans hc'
        obtain rfl : codec = codec' := by simpa using hcodec.symm.trans hcodec'
        obtain rfl : encoded = encoded' := by simpa using hencode.symm.trans hencode'
        exact h
    rw [hcommits, ← flatMap_entryHeaders_eq_nil_iff]
    rcases commitBody_encoded rt hc hcodec hencode with ⟨hall, hexec⟩ | ⟨hsome, failure, hexec⟩
    · refine ⟨fun _ => Or.inl hall, fun _ failure e' hcall => ?_⟩
      rw [call, hexec] at hcall
      cases hcall
    · constructor
      · intro hatomic
        have hheaders := (hatomic failure _ hexec).headers
        exact Or.inr (by simpa using hheaders)
      · rintro (hall | hnone) failure' e' hcall
        · exact absurd hall hsome
        · rw [call, hexec, hnone, List.append_nil] at hcall
          cases hcall
          exact .refl e
  · have hrefused : ∀ config codec encoded, e.content = .awaitingPayload config →
        rt.registry e.workloadId = some codec →
        codec.encode body config.releaseVersion ≠ .ok encoded :=
      fun config codec encoded hc hcodec hencode => h ⟨config, codec, encoded, hc, hcodec, hencode⟩
    obtain ⟨failure, hexec⟩ := commitBody_refused rt hrefused
    constructor
    · intro _ config codec encoded hc hcodec hencode
      exact absurd hencode (hrefused config codec encoded hc hcodec)
    · intro _ failure' e' hcall
      rw [call, hexec] at hcall
      cases hcall
      exact .refl e

/-- A method that throws leaves its envelope as it was, unless a body is committed whose header
fails after another was added. -/
theorem failsAtomically_iff (e : Envelope Obj) (method : MethodCall Obj) :
    FailsAtomically rt e method ↔
      ∀ body, method = .commitBody body → CommitsAtomically rt e body := by
  have hsame : ∀ {method : MethodCall Obj}, (∀ failure e', call rt e method = (.error failure, e') →
      e' = e) → FailsAtomically rt e method := by
    intro method h failure e' hcall
    rw [h failure e' hcall]
    exact .refl e
  cases method with
  | commitBody body =>
    rw [failsAtomically_commitBody_iff]
    constructor
    · intro h body' heq
      cases heq
      exact h
    · exact fun h => h body rfl
  | beginHandling now =>
    refine ⟨fun _ body h => (nomatch h), fun _ => hsame fun failure e' hcall => ?_⟩
    rw [call] at hcall
    rcases beginHandling_cases now e with ⟨failure', hexec⟩ | ⟨payload, isError, hc, hexec⟩ <;>
      rw [hexec] at hcall <;> cases hcall
    rfl
  | endHandling now =>
    refine ⟨fun _ body h => (nomatch h), fun _ => hsame fun failure e' hcall => ?_⟩
    rw [call] at hcall
    rcases endHandling_cases now e with ⟨failure', hexec⟩ | ⟨payload, isError, hc, hexec⟩ <;>
      rw [hexec] at hcall <;> cases hcall
    rfl
  | startReplying messageId now workloadId releaseVersion metadataMap =>
    refine ⟨fun _ body h => (nomatch h), fun _ => hsame fun failure e' hcall => ?_⟩
    have hstate := (startReplying_cases messageId now workloadId releaseVersion metadataMap e).1
    rw [← hstate]
    exact (congrArg Prod.snd hcall).symm
  | commitError error =>
    refine ⟨fun _ body h => (nomatch h), fun _ => hsame fun failure e' hcall => ?_⟩
    rw [call] at hcall
    rcases commitError_cases rt error e with ⟨failure', hexec⟩ | ⟨config, encoded, hc, hexec⟩ <;>
      rw [hexec] at hcall <;> cases hcall
    rfl
  | toJSON =>
    refine ⟨fun _ body h => (nomatch h), fun _ => hsame fun failure e' hcall => ?_⟩
    exact (congrArg Prod.snd hcall).symm

def brittleRuntime : Runtime ℕ where
  registry := fun _ => some ⟨fun body _ => .ok body, fun body _ => .ok body⟩
  field := fun body key => .ok (some (if key = "count" then body else 0))
  stringify := fun value => if value = 0 then .error 0 else .ok "7"
  errorValue := fun _ => 0
  asError := .ok

/-- The second header cannot be serialized, and the first one stays. -/
theorem failed_commit_leaves_header : ¬FailsAtomically brittleRuntime
    (createEnvelope "m1" 0 "paint" ⟨.finite 1, .finite 0, .finite 0⟩
      (some [("x-count", "count"), ("x-terms", "terms")]) none none) (.commitBody 7) := by
  intro h
  have hheaders := (h _ _ rfl).headers
  exact absurd hheaders (by decide +kernel)

end RandomArt.Envelope
