import RandomArt.EnvelopeLifecycle

/-!
# Runs over many envelopes

Operations on any number of envelopes, one after another. A call of `handleWith`
takes two steps, since its handler may run for as long as it likes and use the
envelopes meanwhile: the call itself, and the settling of the handler. Operations
that throw leave the world as far changed as they got.
-/

namespace RandomArt.EnvelopeRuns

open Envelope
open Relation (ReflTransGen)

variable {Obj : Type}

/-- All envelopes held by some code, the wire forms produced so far, and the calls of
`handleWith` whose handlers are still running. `errorCommits` lists the envelopes whose
`commitError` returned. -/
structure World (Obj : Type) where
  envelopes : List (Envelope Obj)
  mementos : List (EnvelopeMemento Obj)
  handlers : List (ℕ × Option (List (String × String)))
  ulids : ℕ
  errorCommits : List ℕ

def World.empty : World Obj := ⟨[], [], [], 0, []⟩

inductive Operation (Obj : Type) where
  | createEnvelope (workloadId : String) (releaseVersion : ReleaseVersion)
      (metadataMap : Option (List (String × String))) (correlationId causationId : Option String)
  | fromWire (memento : ℕ) (transport : Obj → Obj) (localVersion : ReleaseVersion)
      (shim : Option (Transformer Obj))
  | beginHandling (id : ℕ)
  | endHandling (id : ℕ)
  | startReplying (id : ℕ) (workloadId : Option String) (releaseVersion : Option ReleaseVersion)
      (metadataMap : Option (List (String × String)))
  | commitBody (id : ℕ) (body : Obj)
  | commitError (id : ℕ) (error : Obj)
  | toJSON (id : ℕ)
  | handleWith (id : ℕ) (metadataMap : Option (List (String × String)))
  | settleHandler (call : ℕ) (outcome : Except Obj Obj)

/-- An operation with the outside code, the id factory and the clock it meets. -/
structure Event (Obj : Type) where
  runtime : Runtime Obj
  ulid : ℕ → String
  now : ℕ → ℕ
  operation : Operation Obj

abbrev Step (Obj : Type) := Failing (Failure Obj) (World Obj)

/-- Call a method of an envelope; without such an envelope the call itself throws. -/
def on {α : Type} (id : ℕ) (method : Method Obj α) : Step Obj α := fun world =>
  match world.envelopes[id]? with
  | none => (.error .undefinedEnvelope, world)
  | some envelope =>
    let (result, envelope') := method.exec envelope
    (result, { world with envelopes := world.envelopes.set id envelope' })

/-- Hold a new envelope; its number is the place it takes. -/
def hold (envelope : Envelope Obj) : Step Obj ℕ := do
  let world ← get
  modify fun world => { world with envelopes := world.envelopes ++ [envelope] }
  return world.envelopes.length

def drawUlid : Step Obj PUnit := modify fun world => { world with ulids := world.ulids + 1 }

def commitErrorTo (rt : Runtime Obj) (id : ℕ) (error : Obj) : Step Obj PUnit := do
  on id (commitError rt error)
  modify fun world => { world with errorCommits := id :: world.errorCommits }

def replyTo (event : Event Obj) (clock : ℕ) (id : ℕ) (workloadId : Option String)
    (releaseVersion : Option ReleaseVersion) (metadataMap : Option (List (String × String))) :
    Step Obj ℕ := do
  let messageId := event.ulid (← get).ulids
  let child ← on id
    (startReplying messageId (event.now clock) workloadId releaseVersion metadataMap)
  drawUlid
  hold child

/-- What `handleWith` does once its handler has returned or thrown. -/
def settle (event : Event Obj) (id : ℕ) (metadataMap : Option (List (String × String)))
    (outcome : Except Obj Obj) : Step Obj PUnit :=
  tryCatch
    (do
      let result ← ofExcept (outcome.mapError .thrown)
      let reply ← replyTo event 0 id none none metadataMap
      on reply (commitBody event.runtime result)
      let _ ← on id (endHandling (event.now 1)))
    fun failure => do
      let reply ← replyTo event 2 id none none none
      let error ← ofExcept
        ((event.runtime.asError (thrownValue event.runtime failure)).mapError .thrown)
      commitErrorTo event.runtime reply error
      let _ ← on id (endHandling (event.now 3))

def perform (event : Event Obj) : Step Obj PUnit :=
  match event.operation with
  | .createEnvelope workloadId releaseVersion metadataMap correlationId causationId => do
    let messageId := event.ulid (← get).ulids
    drawUlid
    let _ ← hold (createEnvelope messageId (event.now 0) workloadId releaseVersion metadataMap
      correlationId causationId)
  | .fromWire memento transport localVersion shim => do
    match (← get).mementos[memento]? with
    | none => throw .undefinedEnvelope
    | some wire =>
      let received := { wire with payload := transport wire.payload }
      let envelope ← ofExcept (fromWire event.runtime received localVersion shim)
      let _ ← hold envelope
  | .beginHandling id => on id (beginHandling (event.now 0))
  | .endHandling id => do
    let _ ← on id (endHandling (event.now 0))
  | .startReplying id workloadId releaseVersion metadataMap => do
    let _ ← replyTo event 0 id workloadId releaseVersion metadataMap
  | .commitBody id body => on id (commitBody event.runtime body)
  | .commitError id error => commitErrorTo event.runtime id error
  | .toJSON id => do
    match (← get).envelopes[id]? with
    | none => throw .undefinedEnvelope
    | some envelope =>
      let memento ← ofExcept envelope.toJSON
      modify fun world => { world with mementos := world.mementos ++ [memento] }
  | .handleWith id metadataMap => do
    on id (beginHandling (event.now 0))
    modify fun world => { world with handlers := world.handlers ++ [(id, metadataMap)] }
  | .settleHandler call outcome => do
    match (← get).handlers[call]? with
    | none => throw .undefinedEnvelope
    | some (id, metadataMap) =>
      modify fun world => { world with handlers := world.handlers.eraseIdx call }
      settle event id metadataMap outcome

def step (world : World Obj) (event : Event Obj) : World Obj := ((perform event).exec world).2

def run (world : World Obj) (events : List (Event Obj)) : World Obj := events.foldl step world

/-- Every held envelope is lawful, and every wire form was taken before any handling. -/
structure Sound (world : World Obj) : Prop where
  lawful : ∀ id e, world.envelopes[id]? = some e → Lawful (id ∈ world.errorCommits) e
  errorCommits : ∀ id ∈ world.errorCommits, id < world.envelopes.length
  mementos : ∀ memento ∈ world.mementos, memento.spanTiming.handlingStartedAt = none ∧
    memento.spanTiming.handlingEndedAt = none

/-- Every envelope held before is held after, in its place, and has evolved. -/
def WorldEvolves (world world' : World Obj) : Prop :=
  ∀ (id : ℕ) (e : Envelope Obj), world.envelopes[id]? = some e →
    ∃ e', world'.envelopes[id]? = some e' ∧ Evolves e e'

theorem WorldEvolves.refl (world : World Obj) : WorldEvolves world world :=
  fun _ e h => ⟨e, h, .refl e⟩

theorem WorldEvolves.trans (a b c : World Obj) (hab : WorldEvolves a b) (hbc : WorldEvolves b c) :
    WorldEvolves a c := by
  intro id e h
  obtain ⟨e', h', he⟩ := hab id e h
  obtain ⟨e'', h'', he'⟩ := hbc id e' h'
  exact ⟨e'', h'', he.trans _ _ _ he'⟩

/-- A step that keeps the world sound while its envelopes evolve. -/
abbrev Safe {α : Type} (s : Step Obj α) : Prop := Failing.Maintains Sound WorldEvolves s

theorem Safe.bind {α β : Type} {s : Step Obj α} {f : α → Step Obj β} (hs : Safe s)
    (hf : ∀ a, Safe (f a)) : Safe (s >>= f) :=
  Failing.Maintains.bind WorldEvolves.trans hs hf

theorem Safe.pure {α : Type} (a : α) : Safe (Pure.pure a : Step Obj α) :=
  Failing.Maintains.pure WorldEvolves.refl a

theorem Safe.throw {α : Type} (failure : Failure Obj) :
    Safe (MonadExcept.throw failure : Step Obj α) :=
  Failing.Maintains.throw WorldEvolves.refl failure

theorem safe_modify {f : World Obj → World Obj}
    (henvelopes : ∀ w, (f w).envelopes = w.envelopes)
    (herror : ∀ w, (f w).errorCommits = w.errorCommits)
    (hmementos : ∀ w, (f w).mementos = w.mementos) : Safe (modify f : Step Obj PUnit) := by
  intro w hw
  refine ⟨⟨?_, ?_, ?_⟩, ?_⟩
  · simpa [henvelopes, herror] using hw.lawful
  · simpa [henvelopes, herror] using hw.errorCommits
  · simpa [hmementos] using hw.mementos
  · intro id e h
    exact ⟨e, by simpa [henvelopes] using h, .refl e⟩

theorem safe_get_bind {α : Type} {f : World Obj → Step Obj α}
    (hf : ∀ w, Sound w → Sound ((f w).exec w).2 ∧ WorldEvolves w ((f w).exec w).2) :
    Safe (get >>= f) := by
  intro w hw
  rw [Failing.exec_bind]
  exact hf w hw

theorem exec_on {α : Type} {id : ℕ} (method : Method Obj α) {w : World Obj} {e : Envelope Obj}
    (h : w.envelopes[id]? = some e) :
    (on id method).exec w =
      ((method.exec e).1, { w with envelopes := w.envelopes.set id (method.exec e).2 }) := by
  show (match w.envelopes[id]? with
    | none => _
    | some envelope => _) = _
  rw [h]

theorem exec_on_none {α : Type} {id : ℕ} (method : Method Obj α) {w : World Obj}
    (h : w.envelopes[id]? = none) : (on id method).exec w = (.error .undefinedEnvelope, w) := by
  show (match w.envelopes[id]? with
    | none => _
    | some envelope => _) = _
  rw [h]

theorem sound_set {w : World Obj} (hw : Sound w) {id : ℕ} {e e' : Envelope Obj}
    (hid : w.envelopes[id]? = some e) (hevolves : Evolves e e') {errorCommits : List ℕ}
    (hother : ∀ j, j ≠ id → (j ∈ errorCommits ↔ j ∈ w.errorCommits))
    (hlawful : Lawful (id ∈ errorCommits) e') :
    Sound { w with envelopes := w.envelopes.set id e', errorCommits } ∧
      WorldEvolves w { w with envelopes := w.envelopes.set id e', errorCommits } := by
  have hlt : id < w.envelopes.length := (List.getElem?_eq_some_iff.mp hid).1
  refine ⟨⟨?_, ?_, hw.mementos⟩, ?_⟩
  · intro j a hj
    rcases eq_or_ne j id with rfl | hne
    · rw [List.getElem?_set_self hlt] at hj
      cases hj
      exact hlawful
    · rw [List.getElem?_set_ne hne.symm] at hj
      exact (hw.lawful j a hj).congr (hother j hne).symm
  · intro j hj
    rw [List.length_set]
    rcases eq_or_ne j id with rfl | hne
    · exact hlt
    · exact hw.errorCommits j ((hother j hne).mp hj)
  · intro j a hj
    rcases eq_or_ne j id with rfl | hne
    · rw [hid] at hj
      cases hj
      exact ⟨e', List.getElem?_set_self hlt, hevolves⟩
    · exact ⟨a, by rw [List.getElem?_set_ne hne.symm]; exact hj, .refl a⟩

/-- A method that keeps envelopes lawful is safe wherever it is called. -/
theorem safe_on {α : Type} (id : ℕ) {method : Method Obj α} (hm : Keeps method) :
    Safe (on id method) := by
  intro w hw
  cases hid : w.envelopes[id]? with
  | none =>
    rw [exec_on_none method hid]
    exact ⟨hw, .refl w⟩
  | some e =>
    obtain ⟨hlawful, hevolves⟩ := hm _ e (hw.lawful id e hid)
    rw [exec_on method hid]
    exact sound_set hw hid hevolves (fun _ _ => Iff.rfl) hlawful

theorem safe_hold {e : Envelope Obj} (he : Lawful False e) : Safe (hold e) := by
  apply safe_get_bind
  intro w hw
  simp only [Failing.exec_bind, Failing.exec_modify, Failing.exec_pure]
  have hfresh : w.envelopes.length ∉ w.errorCommits := fun h =>
    absurd (hw.errorCommits _ h) (lt_irrefl _)
  refine ⟨⟨?_, ?_, hw.mementos⟩, ?_⟩
  · intro j e' hj
    rcases lt_trichotomy j w.envelopes.length with hlt | rfl | hgt
    · rw [List.getElem?_append_left hlt] at hj
      exact hw.lawful j e' hj
    · rw [List.getElem?_concat_length] at hj
      cases hj
      exact he.congr (by simp [hfresh])
    · rw [List.getElem?_eq_none (by simp; omega)] at hj
      cases hj
  · intro j hj
    have := hw.errorCommits j hj
    simp
    omega
  · intro j e' hj
    have hlt : j < w.envelopes.length := (List.getElem?_eq_some_iff.mp hj).1
    exact ⟨e', by rw [List.getElem?_append_left hlt]; exact hj, .refl e'⟩

theorem safe_ofExcept {α : Type} (call : Except (Failure Obj) α) :
    Safe (ofExcept call : Step Obj α) := by
  cases call with
  | ok a => exact .pure a
  | error failure => exact .throw failure

theorem safe_drawUlid : Safe (drawUlid : Step Obj PUnit) :=
  safe_modify (fun _ => rfl) (fun _ => rfl) (fun _ => rfl)

theorem safe_commitErrorTo (rt : Runtime Obj) (id : ℕ) (error : Obj) :
    Safe (commitErrorTo rt id error) := by
  intro w hw
  rw [commitErrorTo]
  rw [Failing.exec_bind]
  cases hid : w.envelopes[id]? with
  | none =>
    rw [exec_on_none _ hid]
    exact ⟨hw, .refl w⟩
  | some e =>
    obtain ⟨hevolves, hlawful⟩ := commitError_lawful rt error (hw.lawful id e hid)
    rw [exec_on _ hid]
    rcases hx : (commitError rt error).exec e with ⟨result, e'⟩
    rw [hx] at hevolves hlawful
    cases result with
    | error failure =>
      exact sound_set hw hid hevolves (fun _ _ => Iff.rfl) (hlawful.congr (by simp))
    | ok _ =>
      exact sound_set hw hid hevolves (fun j hj => by simp [hj]) (hlawful.congr (by simp))

theorem safe_replyTo (event : Event Obj) (clock id : ℕ) (workloadId : Option String)
    (releaseVersion : Option ReleaseVersion) (metadataMap : Option (List (String × String))) :
    Safe (replyTo event clock id workloadId releaseVersion metadataMap) := by
  apply safe_get_bind
  intro w hw
  have hon := safe_on id (keeps_startReplying (event.ulid w.ulids) (event.now clock) workloadId
    releaseVersion metadataMap) w hw
  rw [Failing.exec_bind]
  cases hid : w.envelopes[id]? with
  | none =>
    rw [exec_on_none _ hid]
    exact ⟨hw, .refl w⟩
  | some e =>
    rw [exec_on _ hid] at hon ⊢
    obtain ⟨-, hchild⟩ := startReplying_cases (event.ulid w.ulids) (event.now clock) workloadId
      releaseVersion metadataMap e
    rcases hx : (startReplying (event.ulid w.ulids) (event.now clock) workloadId releaseVersion
      metadataMap).exec e with ⟨result, e'⟩
    rw [hx] at hon hchild
    cases result with
    | error failure => exact hon
    | ok child =>
      obtain ⟨⟨config, hcontent⟩, htiming, -⟩ := hchild child rfl
      have hlawful : Lawful False child :=
        lawful_of_awaiting hcontent (by rw [htiming]) (by rw [htiming])
      obtain ⟨hsound, hevolves⟩ := (Safe.bind safe_drawUlid fun _ => safe_hold hlawful) _ hon.1
      exact ⟨hsound, hon.2.trans _ _ _ hevolves⟩

theorem safe_settle (event : Event Obj) (id : ℕ) (metadataMap : Option (List (String × String)))
    (outcome : Except Obj Obj) : Safe (settle event id metadataMap outcome) := by
  refine Failing.Maintains.tryCatch WorldEvolves.trans ?_ fun failure => ?_
  · apply Safe.bind (safe_ofExcept _)
    intro result
    apply Safe.bind (safe_replyTo event 0 id none none metadataMap)
    intro reply
    apply Safe.bind (safe_on reply (keeps_commitBody event.runtime result))
    intro _
    exact Safe.bind (safe_on id (keeps_endHandling _)) fun _ => .pure _
  · apply Safe.bind (safe_replyTo event 2 id none none none)
    intro reply
    apply Safe.bind (safe_ofExcept _)
    intro error
    apply Safe.bind (safe_commitErrorTo event.runtime reply error)
    intro _
    exact Safe.bind (safe_on id (keeps_endHandling _)) fun _ => .pure _

/-- Every operation, returning or throwing, keeps the world sound. -/
theorem safe_perform (event : Event Obj) : Safe (perform event) := by
  rw [perform]
  cases event.operation with
  | createEnvelope workloadId releaseVersion metadataMap correlationId causationId =>
    apply safe_get_bind
    intro w hw
    refine (Safe.bind safe_drawUlid fun _ => Safe.bind (safe_hold ?_) fun _ => .pure _) w hw
    exact lawful_createEnvelope _ _ _ _ _ _ _
  | fromWire memento transport localVersion shim =>
    apply safe_get_bind
    intro w hw
    cases hm : w.mementos[memento]? with
    | none => exact Safe.throw _ w hw
    | some wire =>
      obtain ⟨hstarted, hended⟩ := hw.mementos wire (List.mem_of_getElem? hm)
      simp only
      cases he : fromWire event.runtime { wire with payload := transport wire.payload }
        localVersion shim with
      | error failure => exact Safe.throw _ w hw
      | ok envelope =>
        have hlawful := (lawful_fromWire event.runtime (by exact hstarted) (by exact hended) he).1
        exact (Safe.bind (safe_hold hlawful) fun _ => .pure _) w hw
  | beginHandling id => exact safe_on id (keeps_beginHandling _)
  | endHandling id => exact Safe.bind (safe_on id (keeps_endHandling _)) fun _ => .pure _
  | startReplying id workloadId releaseVersion metadataMap =>
    exact Safe.bind (safe_replyTo event 0 id workloadId releaseVersion metadataMap) fun _ =>
      .pure _
  | commitBody id body => exact safe_on id (keeps_commitBody _ body)
  | commitError id error => exact safe_commitErrorTo _ id error
  | toJSON id =>
    apply safe_get_bind
    intro w hw
    cases hid : w.envelopes[id]? with
    | none => exact Safe.throw _ w hw
    | some envelope =>
      simp only
      cases hm : envelope.toJSON with
      | error failure => exact Safe.throw _ w hw
      | ok memento =>
        have htiming := toJSON_timing (hw.lawful id envelope hid) hm
        refine ⟨⟨hw.lawful, hw.errorCommits, ?_⟩, .refl w⟩
        intro m hmem
        rcases List.mem_append.mp hmem with hmem | hmem
        · exact hw.mementos m hmem
        · rw [List.mem_singleton.mp hmem]
          exact htiming
  | handleWith id metadataMap =>
    exact Safe.bind (safe_on id (keeps_beginHandling _)) fun _ =>
      safe_modify (fun _ => rfl) (fun _ => rfl) (fun _ => rfl)
  | settleHandler call outcome =>
    apply safe_get_bind
    intro w hw
    cases hc : w.handlers[call]? with
    | none => exact Safe.throw _ w hw
    | some handler =>
      have hremove : Safe (modify fun world : World Obj =>
          { world with handlers := world.handlers.eraseIdx call } : Step Obj PUnit) :=
        safe_modify (fun _ => rfl) (fun _ => rfl) (fun _ => rfl)
      exact (Safe.bind hremove fun _ => safe_settle event handler.1 handler.2 outcome) w hw

theorem sound_empty : Sound (World.empty : World Obj) where
  lawful id e h := by simp [World.empty] at h
  errorCommits id h := by simp [World.empty] at h
  mementos memento h := by simp [World.empty] at h

/-- From a sound world, any run ends in a sound world that its start evolved into. -/
theorem run_safe {w : World Obj} (hw : Sound w) (events : List (Event Obj)) :
    Sound (run w events) ∧ WorldEvolves w (run w events) := by
  induction events generalizing w with
  | nil => exact ⟨hw, .refl w⟩
  | cons event events ih =>
    obtain ⟨hstep, hevolves⟩ := safe_perform event w hw
    obtain ⟨hrun, hrest⟩ := ih hstep
    exact ⟨hrun, hevolves.trans _ _ _ hrest⟩

/-- The lifecycle over all runs: each envelope got where it is by lifecycle moves, its
timing and error flag match its state, and whatever happens later it only moves on,
under the same trace, with its encoded content frozen. -/
theorem envelope_lifecycle (before after : List (Event Obj)) (id : ℕ) (e : Envelope Obj)
    (hid : (run World.empty before).envelopes[id]? = some e) :
    (ReflTransGen StateMove .awaitingPayload e.state ∨
      ReflTransGen StateMove .received e.state) ∧
    (e.spanTiming.handlingStartedAt.isSome ↔ e.state = .handling ∨ e.state = .exhausted) ∧
    (e.spanTiming.handlingEndedAt.isSome ↔ e.state = .exhausted) ∧
    (e.content.isError = some true ↔ e.state = .decodedError ∨ e.state = .invalid ∨
      (e.state = .encoded ∧ id ∈ (run World.empty before).errorCommits)) ∧
    ∃ e', (run World.empty (before ++ after)).envelopes[id]? = some e' ∧
      ReflTransGen StateMove e.state e'.state ∧ e'.trace = e.trace ∧
      (e.state = .encoded → e'.state = .encoded ∧ e'.content.payload = e.content.payload ∧
        e'.content.isError = e.content.isError) := by
  obtain ⟨hsound, -⟩ := run_safe sound_empty before
  obtain ⟨-, hevolves⟩ := run_safe hsound after
  have hlawful := hsound.lawful id e hid
  obtain ⟨e', he', hev⟩ := hevolves id e hid
  refine ⟨hlawful.origin, hlawful.started, hlawful.ended, hlawful.flag, e', ?_, hev.moves,
    hev.trace, fun henc => ?_⟩
  · rw [run, List.foldl_append]
    exact he'
  · have hcontent := hev.frozen henc
    exact ⟨by rw [state, hcontent]; exact henc, by rw [hcontent], by rw [hcontent]⟩

def echoEvent (now : ℕ) (operation : Operation ℕ) : Event ℕ :=
  ⟨echoRuntime, fun n => String.ofList (List.replicate n 'u'), (now + ·), operation⟩

def committedError : List (Event ℕ) :=
  [echoEvent 1 (.createEnvelope "paint" ReleaseVersion.currentRelease none none none),
    echoEvent 2 (.commitError 0 5)]

def committedErrorEnvelope : Envelope ℕ where
  trace := ⟨"", "", ""⟩
  workloadId := "paint"
  headers := [⟨HDR_ENGINE_RELEASE, ReleaseVersion.currentRelease.toString⟩]
  content := .encoded 5 true
  spanTiming := ⟨1, none, none⟩

/-- An error committed to a new envelope survives a second, throwing commit. -/
theorem envelope_lifecycle_committedError :
    (ReflTransGen StateMove .awaitingPayload .encoded ∨
      ReflTransGen StateMove .received .encoded) ∧
    0 ∈ (run World.empty committedError).errorCommits ∧
    ∃ e', (run World.empty (committedError ++ [echoEvent 3 (.commitBody 0 6)])).envelopes[0]? =
        some e' ∧ e'.content.payload = some 5 ∧ e'.content.isError = some true := by
  have hid : (run World.empty committedError).envelopes[0]? = some committedErrorEnvelope := rfl
  obtain ⟨horigin, -, -, hflag, e', he', -, -, hfrozen⟩ :=
    envelope_lifecycle committedError [echoEvent 3 (.commitBody 0 6)] 0 committedErrorEnvelope hid
  have hcommitted : 0 ∈ (run World.empty committedError).errorCommits := by
    rcases hflag.mp rfl with h | h | ⟨-, h⟩
    · cases h
    · cases h
    · exact h
  obtain ⟨-, hpayload, hisError⟩ := hfrozen rfl
  exact ⟨horigin, hcommitted, e', he', hpayload, hisError⟩

end RandomArt.EnvelopeRuns
