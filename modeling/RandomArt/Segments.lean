import RandomArt.PipelineBuilders
import RandomArt.RedundantVirtual

/-!
# Segments of pipelines

A blueprint records the operations of a builder without one. Its helper replays them, later, on
the builders it is applied to. Like builders, blueprints share nothing that is written to: a
helper keeps the operations that were recorded when it was made.
-/

namespace RandomArt.Pipeline

variable {Value Err : Type}

inductive Operation (Value Err : Type) where
  | extendInitial (name : String) (defaults : Record Value)
  | addVirtualFeature (name : String)
  | addPublicFeature (name : String) (properties : Record (BuilderPropertyDef Value Err))
  | addPrivateFeature (name : String) (properties : Record (BuilderPropertyDef Value Err))
  | addStep (name : String) (impl : RuntimeContextualMethod Value Err)
  | addPrivateInjection (name : String)
  | addPublicInjection (name : String)
  | addPureFunction (name : String) (fn : Value)

/-- The stage that the builder's method of the same name appends. -/
def Operation.stage : Operation Value Err → RuntimeStage Value Err
  | .extendInitial name defaults => .initialDefaults name defaults
  | .addVirtualFeature name => .virtual name
  | .addPublicFeature name properties => .feature ⟨name, .all, properties⟩
  | .addPrivateFeature name properties => .feature ⟨name, .none, properties⟩
  | .addStep name impl => .step name impl
  | .addPrivateInjection name => .injection name false
  | .addPublicInjection name => .injection name true
  | .addPureFunction name fn => .pureFunction name fn

/-- The builders, the operations of each blueprint, and for each helper the blueprint whose
operations it closes over. -/
structure Segments (Value Err : Type) where
  memory : Memory Value Err
  blueprints : List (List (Operation Value Err))
  helpers : List ℕ

/-- What a module does with builders, blueprints and helpers. -/
inductive SegmentAction (Value Err : Type) where
  | build (action : BuilderAction Value Err)
  | createSegmentBlueprint
  | record (blueprint : ℕ) (op : Operation Value Err)
  | buildHelper (blueprint : ℕ)
  | apply (helper builder : ℕ)

/-- The loop of a helper: each operation makes a builder from the one before it. -/
def replay (memory : Memory Value Err) (builder : ℕ) :
    List (Operation Value Err) → Memory Value Err × ℕ
  | [] => (memory, builder)
  | op :: ops => replay (memory.perform (.next builder op.stage)) memory.arrays.length ops

namespace Segments

def empty : Segments Value Err := ⟨Memory.empty, [], []⟩

/-- `helper(builder)`, with the builder that it returns. -/
def applyHelper (segments : Segments Value Err) (helper builder : ℕ) :
    Segments Value Err × ℕ :=
  match segments.helpers[helper]?.bind (segments.blueprints[·]?) with
  | none => (segments, builder)
  | some ops =>
    let (memory, result) := replay segments.memory builder ops
    ({ segments with memory := memory }, result)

def perform (segments : Segments Value Err) : SegmentAction Value Err → Segments Value Err
  | .build action => { segments with memory := segments.memory.perform action }
  | .createSegmentBlueprint => { segments with blueprints := segments.blueprints ++ [[]] }
  | .record blueprint op =>
    match segments.blueprints[blueprint]? with
    | none => segments
    | some ops => { segments with blueprints := segments.blueprints ++ [ops ++ [op]] }
  | .buildHelper blueprint =>
    if blueprint < segments.blueprints.length then
      { segments with helpers := segments.helpers ++ [blueprint] }
    else segments
  | .apply helper builder =>
    if builder < segments.memory.arrays.length then (segments.applyHelper helper builder).1
    else segments

def performAll (segments : Segments Value Err) (actions : List (SegmentAction Value Err)) :
    Segments Value Err :=
  actions.foldl perform segments

/-- The operations that a helper replays. -/
def opsOf (segments : Segments Value Err) (helper : ℕ) : Option (List (Operation Value Err)) :=
  segments.helpers[helper]?.bind (segments.blueprints[·]?)

/-- Everything that an older state has stands where it was. -/
structure Extends (later segments : Segments Value Err) : Prop where
  memory : later.memory.Extends segments.memory
  blueprints : ∀ (blueprint : ℕ) (ops : List (Operation Value Err)),
    segments.blueprints[blueprint]? = some ops → later.blueprints[blueprint]? = some ops
  helpers : ∀ helper blueprint : ℕ,
    segments.helpers[helper]? = some blueprint → later.helpers[helper]? = some blueprint

theorem Extends.refl (segments : Segments Value Err) : segments.Extends segments :=
  ⟨Memory.Extends.refl _, fun _ _ h => h, fun _ _ h => h⟩

theorem Extends.trans {latest later segments : Segments Value Err} (h : latest.Extends later)
    (h' : later.Extends segments) : latest.Extends segments :=
  ⟨h.memory.trans h'.memory, fun _ _ hops => h.blueprints _ _ (h'.blueprints _ _ hops),
    fun _ _ hhelper => h.helpers _ _ (h'.helpers _ _ hhelper)⟩

theorem Extends.opsOf {later segments : Segments Value Err} (h : later.Extends segments)
    {helper : ℕ} {ops : List (Operation Value Err)} (hops : segments.opsOf helper = some ops) :
    later.opsOf helper = some ops := by
  rw [Segments.opsOf] at hops ⊢
  obtain ⟨blueprint, hhelper, hblueprint⟩ := Option.bind_eq_some_iff.mp hops
  rw [h.helpers _ _ hhelper, Option.bind_some]
  exact h.blueprints _ _ hblueprint

end Segments

theorem extends_replay (memory : Memory Value Err) (builder : ℕ)
    (ops : List (Operation Value Err)) : (replay memory builder ops).1.Extends memory := by
  induction ops generalizing memory builder with
  | nil => exact Memory.Extends.refl memory
  | cons op ops ih => exact (ih _ _).trans (Memory.extends_perform memory _)

/-- Replaying is the chain of the builder's own methods. -/
theorem stagesOf_replay {memory : Memory Value Err} {builder : ℕ}
    {stages : List (RuntimeStage Value Err)} (h : memory.stagesOf builder = some stages)
    (ops : List (Operation Value Err)) :
    (replay memory builder ops).1.stagesOf (replay memory builder ops).2 =
      some (stages ++ ops.map Operation.stage) := by
  induction ops generalizing memory builder stages with
  | nil => rw [replay, h, List.map_nil, List.append_nil]
  | cons op ops ih =>
    rw [replay, ih (Memory.stagesOf_next h op.stage), List.map_cons, List.append_assoc,
      List.singleton_append]

namespace Segments

theorem extends_applyHelper (segments : Segments Value Err) (helper builder : ℕ) :
    (segments.applyHelper helper builder).1.Extends segments := by
  rw [applyHelper]
  split
  · exact Extends.refl segments
  · exact ⟨extends_replay _ _ _, fun _ _ h => h, fun _ _ h => h⟩

theorem extends_perform (segments : Segments Value Err) (action : SegmentAction Value Err) :
    (segments.perform action).Extends segments := by
  cases action with
  | build action => exact ⟨Memory.extends_perform _ _, fun _ _ h => h, fun _ _ h => h⟩
  | createSegmentBlueprint =>
    refine ⟨Memory.Extends.refl _, ?_, fun _ _ h => h⟩
    exact fun _ _ h => Memory.getElem?_append_of_eq_some h _
  | record blueprint op =>
    rw [perform]
    split
    · exact Extends.refl segments
    · refine ⟨Memory.Extends.refl _, ?_, fun _ _ h => h⟩
      exact fun _ _ h => Memory.getElem?_append_of_eq_some h _
  | buildHelper blueprint =>
    rw [perform]
    split
    · refine ⟨Memory.Extends.refl _, fun _ _ h => h, ?_⟩
      exact fun _ _ h => Memory.getElem?_append_of_eq_some h _
    · exact Extends.refl segments
  | apply helper builder =>
    rw [perform]
    split
    · exact extends_applyHelper segments helper builder
    · exact Extends.refl segments

theorem extends_performAll (segments : Segments Value Err)
    (actions : List (SegmentAction Value Err)) :
    (segments.performAll actions).Extends segments := by
  induction actions generalizing segments with
  | nil => exact Extends.refl segments
  | cons action rest ih => exact (ih (segments.perform action)).trans (extends_perform _ _)

/-- A builder that a helper returns has the stages of the one it was applied to, and those of
the operations. -/
theorem stagesOf_applyHelper {segments : Segments Value Err} {helper builder : ℕ}
    {stages : List (RuntimeStage Value Err)} {ops : List (Operation Value Err)}
    (hops : segments.opsOf helper = some ops)
    (hstages : segments.memory.stagesOf builder = some stages) :
    (segments.applyHelper helper builder).1.memory.stagesOf
      (segments.applyHelper helper builder).2 = some (stages ++ ops.map Operation.stage) := by
  rw [opsOf] at hops
  simp only [applyHelper, hops]
  exact stagesOf_replay hstages ops

theorem opsOf_buildHelper {segments : Segments Value Err} {blueprint : ℕ}
    {ops : List (Operation Value Err)} (h : segments.blueprints[blueprint]? = some ops) :
    (segments.perform (.buildHelper blueprint)).opsOf segments.helpers.length = some ops := by
  rw [perform, if_pos (List.getElem?_eq_some_iff.mp h).1]
  simpa [opsOf] using h

/-- Whatever is done with builders, blueprints and helpers in between and afterwards, a helper
gives a builder the stages that the blueprint had when the helper was made, and changes no other
builder, blueprint or helper. -/
theorem helper_replays (made added later : List (SegmentAction Value Err))
    {blueprint builder : ℕ} {ops : List (Operation Value Err)}
    {stages : List (RuntimeStage Value Err)} {segments : Segments Value Err}
    (hops : (empty.performAll made).blueprints[blueprint]? = some ops)
    (hsegments : empty.performAll (made ++ .buildHelper blueprint :: added) = segments)
    (hstages : segments.memory.stagesOf builder = some stages) :
    let helper := (empty.performAll made : Segments Value Err).helpers.length
    let applied := segments.applyHelper helper builder
    (applied.1.performAll later).memory.stagesOf applied.2 =
        some (stages ++ ops.map Operation.stage) ∧
      (applied.1.performAll later).Extends segments := by
  intro helper applied
  have hmade : ((empty.performAll made).perform (.buildHelper blueprint)).opsOf helper =
      some ops := opsOf_buildHelper hops
  have hlater : segments.opsOf helper = some ops := by
    rw [← hsegments, performAll, List.foldl_append, List.foldl_cons]
    exact (extends_performAll _ added).opsOf hmade
  have hkept : (applied.1.performAll later).Extends applied.1 := extends_performAll _ later
  constructor
  · exact hkept.memory.stagesOf (stagesOf_applyHelper hlater hstages)
  · exact hkept.trans (extends_applyHelper segments helper builder)

/-- A blueprint that takes up another operation after its helper was made. -/
theorem helper_replays_recorded :
    let made : List (SegmentAction NameValue String) :=
      [.createSegmentBlueprint, .record 0 (.addPublicFeature shown.name shown.properties)]
    let segments := empty.performAll (made ++ .buildHelper 1 ::
      [.record 1 (.addVirtualFeature "late"), .build .createPipeline,
        .build (.next 0 (.virtual "shown"))])
    let applied := segments.applyHelper 0 1
    ∀ later, (applied.1.performAll later).memory.stagesOf applied.2 =
      some [.virtual "shown", .feature shown] := by
  intro made segments applied later
  have hops : (empty.performAll made).blueprints[1]? =
      some [.addPublicFeature shown.name shown.properties] := rfl
  have hstages : segments.memory.stagesOf 1 = some [.virtual "shown"] := rfl
  exact (helper_replays made _ later hops rfl hstages).1

end Segments

section Fulfilling

variable {before between after fulfilling : List (RuntimeStage Value Err)} {name : String}

/-- Stages that all are features of declared virtuals, of names that no feature in between has. -/
structure Fulfilling (before between after fulfilling : List (RuntimeStage Value Err)) : Prop where
  fulfills : ∀ stage ∈ fulfilling, ∃ f, stage = .feature f ∧
    .virtual f.name ∈ before ++ (fulfilling ++ (between ++ after))
  apart : ∀ f g, .feature f ∈ fulfilling → .feature g ∈ between → f.name ≠ g.name

theorem features_append (stages stages' : List (RuntimeStage Value Err)) :
    features (stages ++ stages') = features stages ++ features stages' :=
  List.filterMap_append

theorem mem_swap {α : Type} {before between after fulfilling : List α} {stage : α} :
    stage ∈ before ++ (fulfilling ++ (between ++ after)) ↔
      stage ∈ before ++ (between ++ (fulfilling ++ after)) := by
  simp only [List.mem_append]
  tauto

theorem unfulfilled_swap :
    unfulfilled (before ++ (fulfilling ++ (between ++ after))) =
      unfulfilled (before ++ (between ++ (fulfilling ++ after))) := by
  ext name
  simp only [mem_unfulfilled, mem_swap]

theorem foldl_collectDefaults_features {stages : List (RuntimeStage Value Err)}
    (h : ∀ stage ∈ stages, ∃ f, stage = .feature f) (collected : Context (List (String × Value))) :
    stages.foldl collectDefaults collected = collected := by
  induction stages with
  | nil => rfl
  | cons stage stages ih =>
    obtain ⟨f, rfl⟩ := h stage List.mem_cons_self
    exact ih fun stage hstage => h stage (List.mem_cons_of_mem _ hstage)

variable (h : Fulfilling before between after fulfilling)
include h

/-- Of each name, there are features among only one of the two. -/
theorem Fulfilling.filter_features (name : String) :
    (features fulfilling ++ features between).filter (fun f => f.name = name) =
      (features between ++ features fulfilling).filter (fun f => f.name = name) := by
  rw [List.filter_append, List.filter_append]
  by_cases hnone : ∀ f, .feature f ∈ fulfilling → f.name ≠ name
  · have hempty : (features fulfilling).filter (fun f => f.name = name) = [] := by
      simpa [List.filter_eq_nil_iff] using hnone
    rw [hempty, List.nil_append, List.append_nil]
  · push Not at hnone
    obtain ⟨f, hf, rfl⟩ := hnone
    have hempty : (features between).filter (fun g => g.name = f.name) = [] := by
      simp only [List.filter_eq_nil_iff, mem_features, decide_eq_true_eq]
      exact fun g hg hname => h.apart f g hf hg hname.symm
    rw [hempty, List.nil_append, List.append_nil]

theorem Fulfilling.fulfillment_eq :
    fulfillment (before ++ (fulfilling ++ (between ++ after))) =
      fulfillment (before ++ (between ++ (fulfilling ++ after))) := by
  funext name
  have hvirtual : virtualNames (before ++ (fulfilling ++ (between ++ after))) =
      virtualNames (before ++ (between ++ (fulfilling ++ after))) := by
    ext name
    rw [mem_virtualNames, mem_virtualNames, mem_swap]
  have hfeatures := h.filter_features name
  rw [List.filter_append, List.filter_append] at hfeatures
  simp only [fulfillment, hvirtual, features_append, List.filter_append]
  rw [← List.append_assoc (List.filter _ (features fulfilling)), hfeatures, List.append_assoc]

theorem Fulfilling.slots :
    fulfilling.filterMap (slot (before ++ (fulfilling ++ (between ++ after)))) = [] := by
  rw [List.filterMap_eq_nil_iff]
  intro stage hstage
  obtain ⟨f, rfl, hvirtual⟩ := h.fulfills stage hstage
  have hsome : (fulfillment (before ++ (fulfilling ++ (between ++ after))) f.name).isSome :=
    isSome_fulfillment.mpr ⟨hvirtual, f, by simp [hstage], rfl⟩
  rw [slot, if_pos hsome]

theorem Fulfilling.executionOrder_eq :
    executionOrder (before ++ (fulfilling ++ (between ++ after))) =
      executionOrder (before ++ (between ++ (fulfilling ++ after))) := by
  rw [executionOrder, executionOrder, ← slot_congr h.fulfillment_eq]
  simp only [List.filterMap_append, h.slots, List.nil_append]

theorem Fulfilling.namespaceDefaults_eq :
    namespaceDefaults (before ++ (fulfilling ++ (between ++ after))) =
      namespaceDefaults (before ++ (between ++ (fulfilling ++ after))) := by
  have hfeatures : ∀ stage ∈ fulfilling, ∃ f, stage = .feature f := fun stage hstage =>
    (h.fulfills stage hstage).imp fun _ => And.left
  have hskip := foldl_collectDefaults_features hfeatures
  simp only [namespaceDefaults, List.foldl_append, hskip]

/-- The features of declared virtuals may be added at any later place. -/
theorem Fulfilling.buildPipeline_eq (interpreter : Interpreter Value Err)
    (resultSelectors : ResultSelectors Value Err) :
    buildPipeline interpreter (before ++ (fulfilling ++ (between ++ after))) resultSelectors =
      buildPipeline interpreter (before ++ (between ++ (fulfilling ++ after))) resultSelectors := by
  simp only [buildPipeline, plan, h.executionOrder_eq, unfulfilled_swap, h.namespaceDefaults_eq]

end Fulfilling

namespace Segments

def applyAll (segments : Segments Value Err) (builder : ℕ) :
    List ℕ → Segments Value Err × ℕ
  | [] => (segments, builder)
  | helper :: helpers =>
    let (segments', result) := segments.applyHelper helper builder
    segments'.applyAll result helpers

def replayed (segments : Segments Value Err) (helpers : List ℕ) :
    List (RuntimeStage Value Err) :=
  helpers.flatMap fun helper => ((segments.opsOf helper).getD []).map Operation.stage

theorem opsOf_applyHelper (segments : Segments Value Err) (helper builder : ℕ) :
    (segments.applyHelper helper builder).1.opsOf = segments.opsOf := by
  funext other
  rw [applyHelper]
  split <;> rfl

theorem stagesOf_applyAll {segments : Segments Value Err} {builder : ℕ}
    {stages : List (RuntimeStage Value Err)}
    (hstages : segments.memory.stagesOf builder = some stages) (helpers : List ℕ) :
    (segments.applyAll builder helpers).1.memory.stagesOf (segments.applyAll builder helpers).2 =
      some (stages ++ segments.replayed helpers) := by
  induction helpers generalizing segments builder stages with
  | nil => simpa [applyAll, replayed] using hstages
  | cons helper helpers ih =>
    have hnext : (segments.applyHelper helper builder).1.memory.stagesOf
        (segments.applyHelper helper builder).2 =
          some (stages ++ segments.replayed [helper]) := by
      cases hops : segments.opsOf helper with
      | none =>
        have hnothing : segments.applyHelper helper builder = (segments, builder) := by
          rw [opsOf] at hops
          rw [applyHelper, hops]
        rw [hnothing]
        simpa [replayed, hops] using hstages
      | some ops => simpa [replayed, hops] using stagesOf_applyHelper hops hstages
    have hrest := ih hnext
    rw [applyAll, hrest]
    simp [replayed, opsOf_applyHelper]

/-- Helpers that only fulfill declared virtuals may be applied before or after others: the same
pipeline is built. -/
theorem fulfillments_in_slots {segments : Segments Value Err} {builder : ℕ}
    {stages : List (RuntimeStage Value Err)}
    (hstages : segments.memory.stagesOf builder = some stages)
    (before between after fulfilling : List ℕ)
    (h : Fulfilling (stages ++ segments.replayed before) (segments.replayed between)
      (segments.replayed after) (segments.replayed fulfilling))
    (interpreter : Interpreter Value Err) (resultSelectors : ResultSelectors Value Err) :
    let early := segments.applyAll builder (before ++ (fulfilling ++ (between ++ after)))
    let late := segments.applyAll builder (before ++ (between ++ (fulfilling ++ after)))
    early.1.memory.builds interpreter early.2 resultSelectors =
      late.1.memory.builds interpreter late.2 resultSelectors := by
  intro early late
  have happend : ∀ helpers helpers' : List ℕ, segments.replayed (helpers ++ helpers') =
      segments.replayed helpers ++ segments.replayed helpers' := fun _ _ => List.flatMap_append
  have hbuild := h.buildPipeline_eq interpreter resultSelectors
  rw [Memory.builds, Memory.builds, stagesOf_applyAll hstages, stagesOf_applyAll hstages]
  simp only [happend, Option.map_some]
  simpa only [List.append_assoc] using congrArg some hbuild

/-- Two helpers applied to a builder that declares what the first fulfills. -/
theorem fulfillments_in_slots_shown :
    let segments : Segments NameValue String := empty.performAll
      [.createSegmentBlueprint, .record 0 (.addPublicFeature shown.name shown.properties),
        .record 0 (.addStep "use" (firstOf (.part "shown" "y"))), .buildHelper 1, .buildHelper 2,
        .build .createPipeline, .build (.next 0 (.virtual "shown"))]
    let early := segments.applyAll 1 [0, 1]
    let late := segments.applyAll 1 [1, 0]
    early.1.memory.builds nameLanguage early.2 (.map ⟨[], List.nodup_nil⟩) =
      late.1.memory.builds nameLanguage late.2 (.map ⟨[], List.nodup_nil⟩) := by
  intro segments
  have hstages : segments.memory.stagesOf 1 = some [.virtual "shown"] := rfl
  refine fulfillments_in_slots hstages [] [1] [] [0] ⟨?_, ?_⟩ _ _
  · intro stage hstage
    obtain rfl := List.mem_singleton.mp hstage
    exact ⟨shown, rfl, List.mem_cons_self⟩
  · intro f g _ hg
    cases List.mem_singleton.mp hg

end Segments

end RandomArt.Pipeline
