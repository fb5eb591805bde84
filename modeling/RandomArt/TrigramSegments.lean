import RandomArt.Segments

/-!
# The segments of the trigram application

The application assembles its pipeline from three segments, an injection and the features that
fulfill the virtuals of the segments. Each module of a segment builds its helper when it is
loaded, and the application replays the helpers into one builder.
-/

namespace RandomArt.TrigramPipeline

open Pipeline Pipeline.Segments

variable {Value Err : Type}

/-- What the methods of the segments call, and what the configuration puts into the
expressions: `trigram.encoding` and `trigram.defaultFilePathExpression`. -/
structure Services (Value Err : Type) where
  /-- `Buffer.from(bin.buffer).toString(enc)` -/
  bufferText : (bin enc : Value) → Except Err Value
  /-- `store.write(filePath, canvas, metadata)` -/
  write : (store filePath canvas metadata : Value) → Except Err Value
  number : ℕ → Value
  /-- Whether `??` takes its right side. -/
  nullish : Value → Bool
  appEncoding : String
  defaultPath : String

namespace Services

/-- The fallbacks of the two configuration values. -/
def appEncodingOf (configured : Option String) : String := configured.getD "utf-8"

def defaultPathOf (configured : Option String) : String := configured.getD "images/unknown.png"

variable (services : Services Value Err)

def encodingExpression : String := "\"" ++ services.appEncoding ++ "\""

def pathExpression : String :=
  "trigram.resolvedFileNameExpression ?? '" ++ services.defaultPath ++ "'"

end Services

section Segments

variable (interpreter : Interpreter Value Err) (services : Services Value Err)

def argument (args : List Value) (i : ℕ) : Value := args.getD i interpreter.undefined

def systemString (key : String) : BuilderPropertyDef Value Err :=
  .method ⟨fun args => services.bufferText (argument interpreter args 0)
    (interpreter.string "base64url"), [.part "task" key]⟩

def appString (key : String) : BuilderPropertyDef Value Err :=
  .method ⟨fun args => services.bufferText (argument interpreter args 0)
    (argument interpreter args 1), [.part "task" key, .part "taskTermEncoding" "encoding"]⟩

def termProperties : Record (BuilderPropertyDef Value Err) where
  entries := [("systemPrefixString", systemString interpreter services "seedPrefix"),
    ("systemSuffixString", systemString interpreter services "seedSuffix"),
    ("appPrefixString", appString interpreter services "seedPrefix"),
    ("appSuffixString", appString interpreter services "seedSuffix")]
  nodup := by simp

/-- `{ contentType: "image/png" }` -/
def metadata : Value := interpreter.object [("contentType", interpreter.string "image/png")]

def stagingResult : RuntimeContextualMethod Value Err where
  fn args := do
    let uri ← services.write (argument interpreter args 0) (argument interpreter args 1)
      (argument interpreter args 2) (metadata interpreter)
    return interpreter.object [("status", services.number 1), ("uri", uri)]
  selectors := [.part "stagingStrategy" "selected", .part "stagedFilePath" "selected",
    .part "task" "pngData"]

def artworkEngineBlueprint : List (Operation Value Err) :=
  [.extendInitial "task" ⟨[], List.nodup_nil⟩]

def encodingBlueprint : List (Operation Value Err) :=
  [.addVirtualFeature "taskTermEncoding",
    .addPublicFeature "encodedTerms" (termProperties interpreter services)]

def workerPoolBlueprint : List (Operation Value Err) :=
  [.addVirtualFeature "stagingStrategy", .addVirtualFeature "stagedFilePath",
    .addStep "stagingResult" (stagingResult interpreter services)]

def single (key : String) (property : BuilderPropertyDef Value Err) :
    Record (BuilderPropertyDef Value Err) :=
  ⟨[(key, property)], List.nodup_singleton key⟩

/-- What the application itself adds after the segments. -/
def applicationOperations : List (Operation Value Err) :=
  [.addPrivateInjection "fileStore",
    .addPrivateFeature "taskTermEncoding" (single "encoding" (.expr services.encodingExpression)),
    .addPublicFeature "stagedFilePath" (single "selected" (.indirect services.pathExpression)),
    .addPrivateFeature "stagingStrategy" (single "selected" (.expr "fileStore"))]

/-- `extendInitial("trigram", { resolvedFileNameExpression: undefined })` -/
def extendTrigram : Operation Value Err :=
  .extendInitial "trigram" ⟨[("resolvedFileNameExpression", interpreter.undefined)],
    List.nodup_singleton _⟩

/-- A blueprint that takes up operations one after another, as the last one that results. -/
def recordAll (segments : Segments Value Err) (blueprint : ℕ) :
    List (Operation Value Err) → Segments Value Err × ℕ
  | [] => (segments, blueprint)
  | op :: ops =>
    recordAll (segments.perform (.record blueprint op)) segments.blueprints.length ops

/-- A new blueprint with the given operations, and its helper. -/
def createHelper (segments : Segments Value Err) (ops : List (Operation Value Err)) :
    Segments Value Err × ℕ :=
  let recorded :=
    recordAll (segments.perform .createSegmentBlueprint) segments.blueprints.length ops
  (recorded.1.perform (.buildHelper recorded.2), recorded.1.helpers.length)

def createPipeline (segments : Segments Value Err) (helpers : List ℕ) : Segments Value Err × ℕ :=
  (segments.perform (.build .createPipeline)).applyAll segments.memory.arrays.length helpers

/-- The methods of a builder, called one after another. -/
def extendBuilder (segments : Segments Value Err) (builder : ℕ)
    (ops : List (Operation Value Err)) : Segments Value Err × ℕ :=
  let extended := replay segments.memory builder ops
  ({ segments with memory := extended.1 }, extended.2)

structure Helpers where
  createArtworkEngineSegment : ℕ
  createEncodingSegment : ℕ
  createWorkerPoolSegment : ℕ

/-- The modules of the segments as they are loaded. The witnesses of the second and of the third
are pipelines that nothing else uses. -/
def segmentModules (segments : Segments Value Err) : Segments Value Err × Helpers :=
  let artworkEngine := createHelper segments artworkEngineBlueprint
  let witness := createPipeline artworkEngine.1 [artworkEngine.2]
  let encoding := createHelper witness.1 (encodingBlueprint interpreter services)
  let witness' := createPipeline encoding.1 [artworkEngine.2, encoding.2]
  let workerPool := createHelper witness'.1 (workerPoolBlueprint interpreter services)
  (workerPool.1, ⟨artworkEngine.2, encoding.2, workerPool.2⟩)

def assemble (segments : Segments Value Err) (helpers : Helpers) : Segments Value Err × ℕ :=
  let base := createPipeline segments [helpers.createArtworkEngineSegment]
  let b0 := extendBuilder base.1 base.2 [extendTrigram interpreter]
  let b1 := b0.1.applyHelper helpers.createEncodingSegment b0.2
  let b2 := b1.1.applyHelper helpers.createWorkerPoolSegment b1.2
  extendBuilder b2.1 b2.2 (applicationOperations services)

def trigramPipelineModule (segments : Segments Value Err) : Segments Value Err × ℕ :=
  let loaded := segmentModules interpreter services segments
  assemble interpreter services loaded.1 loaded.2

def trigramStages : List (RuntimeStage Value Err) :=
  ((artworkEngineBlueprint ++ extendTrigram interpreter :: encodingBlueprint interpreter services ++
    workerPoolBlueprint interpreter services) ++ applicationOperations services).map Operation.stage

def trigramResults : ResultSelectors Value Err :=
  .map ⟨[("status", .part "stagingResult" "status"), ("uri", .part "stagingResult" "uri")],
    by simp⟩

end Segments

section Assembling

theorem extends_recordAll (segments : Segments Value Err) (blueprint : ℕ)
    (ops : List (Operation Value Err)) : (recordAll segments blueprint ops).1.Extends segments := by
  induction ops generalizing segments blueprint with
  | nil => exact Extends.refl segments
  | cons op ops ih => exact (ih _ _).trans (extends_perform segments _)

theorem blueprint_recordAll {segments : Segments Value Err} {blueprint : ℕ}
    {recorded : List (Operation Value Err)} (h : segments.blueprints[blueprint]? = some recorded)
    (ops : List (Operation Value Err)) :
    (recordAll segments blueprint ops).1.blueprints[(recordAll segments blueprint ops).2]? =
      some (recorded ++ ops) := by
  induction ops generalizing segments blueprint recorded with
  | nil => rw [recordAll, h, List.append_nil]
  | cons op ops ih =>
    have hnext : (segments.perform (.record blueprint op)).blueprints[segments.blueprints.length]? =
        some (recorded ++ [op]) := by
      simp [perform, h]
    rw [recordAll, ih hnext, List.append_assoc, List.singleton_append]

theorem extends_createHelper (segments : Segments Value Err) (ops : List (Operation Value Err)) :
    (createHelper segments ops).1.Extends segments := by
  have hrecorded := (extends_recordAll (segments.perform .createSegmentBlueprint)
    segments.blueprints.length ops).trans (extends_perform segments .createSegmentBlueprint)
  exact (extends_perform _ (.buildHelper _)).trans hrecorded

theorem opsOf_createHelper (segments : Segments Value Err) (ops : List (Operation Value Err)) :
    (createHelper segments ops).1.opsOf (createHelper segments ops).2 = some ops := by
  apply opsOf_buildHelper
  have hempty : (segments.perform .createSegmentBlueprint).blueprints[segments.blueprints.length]? =
      some [] := by
    simp [perform]
  exact blueprint_recordAll hempty ops

theorem extends_applyAll (segments : Segments Value Err) (builder : ℕ) (helpers : List ℕ) :
    (segments.applyAll builder helpers).1.Extends segments := by
  induction helpers generalizing segments builder with
  | nil => exact Extends.refl segments
  | cons helper helpers ih => exact (ih _ _).trans (extends_applyHelper segments helper builder)

theorem extends_createPipeline (segments : Segments Value Err) (helpers : List ℕ) :
    (createPipeline segments helpers).1.Extends segments :=
  (extends_applyAll _ _ helpers).trans (extends_perform segments _)

/-- A builder with the given stages, made from others without a change of any helper. -/
structure Chained (segments : Segments Value Err) (made : Segments Value Err × ℕ)
    (stages : List (RuntimeStage Value Err)) : Prop where
  stagesOf : made.1.memory.stagesOf made.2 = some stages
  opsOf : made.1.opsOf = segments.opsOf

theorem opsOf_applyAll (segments : Segments Value Err) (builder : ℕ) (helpers : List ℕ) :
    (segments.applyAll builder helpers).1.opsOf = segments.opsOf := by
  induction helpers generalizing segments builder with
  | nil => rfl
  | cons helper helpers ih => exact (ih _ _).trans (opsOf_applyHelper segments helper builder)

theorem chained_createPipeline (segments : Segments Value Err) (helpers : List ℕ) :
    Chained segments (createPipeline segments helpers) (segments.replayed helpers) := by
  have hempty : (segments.perform (.build .createPipeline)).memory.stagesOf
      segments.memory.arrays.length = some [] := by
    simp [perform, Memory.perform, Memory.createBuilderImpl, Memory.stagesOf]
  exact ⟨stagesOf_applyAll hempty helpers, opsOf_applyAll _ _ helpers⟩

namespace Chained

variable {segments : Segments Value Err} {made : Segments Value Err × ℕ}
  {stages : List (RuntimeStage Value Err)} (h : Chained segments made stages)
include h

theorem extendBuilder (ops : List (Operation Value Err)) :
    Chained segments (extendBuilder made.1 made.2 ops) (stages ++ ops.map Operation.stage) :=
  ⟨stagesOf_replay h.stagesOf ops, h.opsOf⟩

theorem applyHelper {helper : ℕ} {ops : List (Operation Value Err)}
    (hops : segments.opsOf helper = some ops) :
    Chained segments (made.1.applyHelper helper made.2) (stages ++ ops.map Operation.stage) where
  stagesOf := stagesOf_applyHelper ((congrFun h.opsOf helper).trans hops) h.stagesOf
  opsOf := (opsOf_applyHelper _ _ _).trans h.opsOf

end Chained

variable (interpreter : Interpreter Value Err) (services : Services Value Err)

structure Helpers.Loaded (helpers : Helpers) (segments : Segments Value Err) : Prop where
  artworkEngine : segments.opsOf helpers.createArtworkEngineSegment = some artworkEngineBlueprint
  encoding : segments.opsOf helpers.createEncodingSegment =
    some (encodingBlueprint interpreter services)
  workerPool : segments.opsOf helpers.createWorkerPoolSegment =
    some (workerPoolBlueprint interpreter services)

theorem loaded_segmentModules (segments : Segments Value Err) :
    (segmentModules interpreter services segments).2.Loaded interpreter services
      (segmentModules interpreter services segments).1 := by
  rw [segmentModules]
  generalize hartwork : createHelper segments artworkEngineBlueprint = artworkEngine
  generalize hwitness : createPipeline artworkEngine.1 [artworkEngine.2] = witness
  generalize hencoding : createHelper witness.1 (encodingBlueprint interpreter services) = encoding
  generalize hwitness' : createPipeline encoding.1 [artworkEngine.2, encoding.2] = witness'
  generalize hworker : createHelper witness'.1 (workerPoolBlueprint interpreter services) =
    workerPool
  have hfirst : witness.1.Extends artworkEngine.1 := hwitness ▸ extends_createPipeline _ _
  have hsecond : encoding.1.Extends witness.1 := hencoding ▸ extends_createHelper _ _
  have hthird : witness'.1.Extends encoding.1 := hwitness' ▸ extends_createPipeline _ _
  have hlast : workerPool.1.Extends witness'.1 := hworker ▸ extends_createHelper _ _
  constructor
  · exact (hlast.trans (hthird.trans (hsecond.trans hfirst))).opsOf
      (hartwork ▸ opsOf_createHelper segments _)
  · exact (hlast.trans hthird).opsOf (hencoding ▸ opsOf_createHelper witness.1 _)
  · exact hworker ▸ opsOf_createHelper witness'.1 _

theorem stagesOf_assemble {segments : Segments Value Err} {helpers : Helpers}
    (h : helpers.Loaded interpreter services segments) :
    (assemble interpreter services segments helpers).1.memory.stagesOf
      (assemble interpreter services segments helpers).2 =
        some (trigramStages interpreter services) := by
  have hbase := chained_createPipeline segments [helpers.createArtworkEngineSegment]
  have hb0 := hbase.extendBuilder [extendTrigram interpreter]
  have hb2 := (hb0.applyHelper h.encoding).applyHelper h.workerPool
  have hpipeline := hb2.extendBuilder (applicationOperations services)
  refine hpipeline.stagesOf.trans ?_
  simp [trigramStages, replayed, h.artworkEngine]

/-- Whatever was loaded before, the application's builder has these stages. -/
theorem stagesOf_trigramPipelineModule (segments : Segments Value Err) :
    (trigramPipelineModule interpreter services segments).1.memory.stagesOf
      (trigramPipelineModule interpreter services segments).2 =
        some (trigramStages interpreter services) :=
  stagesOf_assemble interpreter services (loaded_segmentModules interpreter services segments)

end Assembling

end RandomArt.TrigramPipeline
