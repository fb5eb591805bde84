import RandomArt.TrigramSegments

/-!
# Staging a task in a straight line

A task that is sent through the pipeline is staged: the file store that is injected writes the
image to the path that an expression gives. Here is the program that does this in a straight
line, and what the stages of the pipeline share.
-/

namespace RandomArt.TrigramPipeline

open Pipeline Pipeline.Segments FallibleFold

variable {Value Err : Type}

section StraightLine

variable (interpreter : Interpreter Value Err) (services : Services Value Err)
  (injections initial : Context Value)

def member (ns : List (String × Value)) (key : String) : Option Value :=
  (ns.lookup key).or (interpreter.inherited key)

def inputEntries (name : String) : List (String × Value) :=
  ((find interpreter initial name).map interpreter.ownEntries).getD []

/-- The input `trigram`, with its default. -/
def trigramEntries : List (String × Value) :=
  Record.assignEntries [("resolvedFileNameExpression", interpreter.undefined)]
    (inputEntries interpreter initial "trigram")

/-- The expression for the path: that of the input, or the configured one. -/
def filePathExpression : Value :=
  let given := (member interpreter (trigramEntries interpreter initial)
    "resolvedFileNameExpression").getD interpreter.undefined
  if services.nullish given then interpreter.string services.defaultPath else given

/-- The texts of the two seed terms, none if the task lacks one of them. -/
def encodeTerms : Except Err (Option (List (String × Value))) :=
  let task := inputEntries interpreter initial "task"
  match member interpreter task "seedPrefix" with
  | none => return none
  | some seedPrefix => do
    let systemPrefix ← services.bufferText seedPrefix (interpreter.string "base64url")
    match member interpreter task "seedSuffix" with
    | none => return none
    | some seedSuffix => do
      let systemSuffix ← services.bufferText seedSuffix (interpreter.string "base64url")
      let appPrefix ← services.bufferText seedPrefix (interpreter.string services.appEncoding)
      let appSuffix ← services.bufferText seedSuffix (interpreter.string services.appEncoding)
      return some [("systemPrefixString", systemPrefix), ("systemSuffixString", systemSuffix),
        ("appPrefixString", appPrefix), ("appSuffixString", appSuffix)]

def mergedInput : Context Value :=
  Function.update (Function.update initial
    "task" (some (interpreter.object (inputEntries interpreter initial "task"))))
    "trigram" (some (interpreter.object (trigramEntries interpreter initial)))

/-- What the expression for the path may start from: the input and the texts of the terms, and
nothing of the store. -/
def visible (encoded : Option (List (String × Value))) : Context Value :=
  match encoded with
  | none => mergedInput interpreter initial
  | some ns => Function.update (mergedInput interpreter initial) "encodedTerms"
      (some (interpreter.object ns))

/-- The image of a task, written where the expression for the path says. -/
def stageImage (path : Value) : Except Err (Option Value) :=
  match member interpreter (inputEntries interpreter initial "task") "pngData" with
  | none => return none
  | some canvas => do
    let store := (find interpreter injections "fileStore").getD interpreter.undefined
    return some (← services.write store path canvas (metadata interpreter))

/-- The output for a staged task, empty if it was not staged. -/
def stagingOutput : Option Value → Context Value
  | none => fun _ => none
  | some uri => Function.update (Function.update (fun _ => none)
      "status" (some (services.number 1))) "uri" (some uri)

def stageTask : Except Err (Context Value) := do
  let encoded ← encodeTerms interpreter services initial
  match ← evaluate interpreter (filePathExpression interpreter services initial)
      (visible interpreter initial encoded) with
  | none => return stagingOutput services none
  | some path => return stagingOutput services (← stageImage interpreter services injections
      initial path)

end StraightLine

/-- What the language does with plain objects, and with the expressions of the application. -/
structure Laws (interpreter : Interpreter Value Err) (services : Services Value Err) : Prop where
  nodup_ownEntries : ∀ value, ((interpreter.ownEntries value).map Prod.fst).Nodup
  propertyIn_object : ∀ ns key, (ns.map Prod.fst).Nodup →
    interpreter.propertyIn key (interpreter.object ns) =
      .ok (member interpreter ns key).isSome
  property_object : ∀ ns key, (ns.map Prod.fst).Nodup →
    interpreter.property (interpreter.object ns) key =
      (member interpreter ns key).getD interpreter.undefined
  compile_encoding : interpreter.compile (interpreter.string services.encodingExpression) =
    .ok (some fun _ => .ok (interpreter.string services.appEncoding))
  compile_fileStore : interpreter.compile (interpreter.string "fileStore") =
    .ok (some fun ctx => .ok ((find interpreter ctx "fileStore").getD interpreter.undefined))
  compile_path : ∃ fn, interpreter.compile (interpreter.string services.pathExpression) =
      .ok (some fn) ∧
    ∀ ctx ns, (ns.map Prod.fst).Nodup → ctx "trigram" = some (interpreter.object ns) →
      let given := (member interpreter ns "resolvedFileNameExpression").getD interpreter.undefined
      fn ctx = .ok (if services.nullish given then interpreter.string services.defaultPath
        else given)

section Running

variable {interpreter : Interpreter Value Err} {services : Services Value Err}
  (laws : Laws interpreter services) {injections initial : Context Value}

section Features

variable (interpreter services)

def taskTermEncoding : RuntimeFeature Value Err :=
  ⟨"taskTermEncoding", .none, single "encoding" (.expr services.encodingExpression)⟩

def encodedTerms : RuntimeFeature Value Err :=
  ⟨"encodedTerms", .all, termProperties interpreter services⟩

def stagingStrategy : RuntimeFeature Value Err :=
  ⟨"stagingStrategy", .none, single "selected" (.expr "fileStore")⟩

def stagedFilePath : RuntimeFeature Value Err :=
  ⟨"stagedFilePath", .all, single "selected" (.indirect services.pathExpression)⟩

end Features

variable (interpreter services) in
/-- The order in which the stages run: every feature in the slot of its virtual. -/
theorem executionOrder_trigram :
    executionOrder (trigramStages interpreter services) =
      [.feature (taskTermEncoding services), .feature (encodedTerms interpreter services),
        .feature stagingStrategy, .feature (stagedFilePath services),
        .step "stagingResult" (stagingResult interpreter services),
        .injection "fileStore" false] := by
  simp [taskTermEncoding, encodedTerms, stagingStrategy, stagedFilePath, executionOrder,
    trigramStages, artworkEngineBlueprint, extendTrigram, encodingBlueprint, workerPoolBlueprint,
    applicationOperations, Operation.stage, slot, fulfillment, virtualNames,
    features, List.filterMap_cons]

variable (interpreter services) in
theorem unfulfilled_trigram : unfulfilled (trigramStages interpreter services) = ∅ := by
  simp [unfulfilled, trigramStages, artworkEngineBlueprint, extendTrigram, encodingBlueprint,
    workerPoolBlueprint, applicationOperations, Operation.stage, fulfillment, virtualNames,
    features]

variable (interpreter services) in
theorem namespaceDefaults_trigram :
    namespaceDefaults (trigramStages interpreter services) =
      Function.update (Function.update (fun _ => none) "task" (some [])) "trigram"
        (some [("resolvedFileNameExpression", interpreter.undefined)]) := by
  simp [namespaceDefaults, trigramStages, artworkEngineBlueprint, extendTrigram, encodingBlueprint,
    workerPoolBlueprint, applicationOperations, Operation.stage, collectDefaults,
    Record.assignEntries]

variable (services) in
theorem mergedInitial_trigram :
    (plan (trigramStages interpreter services) trigramResults).mergedInitial interpreter initial =
      mergedInput interpreter initial := by
  funext name
  rw [Built.mergedInitial, plan, namespaceDefaults_trigram]
  by_cases htrigram : name = "trigram"
  · subst htrigram
    simp [mergedInput, trigramEntries, inputEntries]
  · by_cases htask : name = "task"
    · subst htask
      simp [mergedInput, inputEntries, Record.assignEntries]
    · simp [mergedInput, htrigram, htask]

variable (interpreter services injections initial) in
/-- The state before the first stage. Only the full context has the store. -/
def started : RunState Value where
  stepCtx := Function.update (mergedInput interpreter initial) "fileStore"
    (some ((find interpreter injections "fileStore").getD interpreter.undefined))
  exprCtx := mergedInput interpreter initial
  stepResultCtx := fun _ => none
  pruned := ∅
  prunedSteps := ∅
  place := 0
  evaluations := []
  exposures := []

variable (services) in
theorem seeded_trigram :
    (plan (trigramStages interpreter services) trigramResults).seeded interpreter injections
      initial = started interpreter injections initial := by
  rw [Built.seeded, Built.unseeded, mergedInitial_trigram]
  simp [plan, executionOrder_trigram, seedStage, started]

include laws in
theorem buildPipeline_trigram :
    buildPipeline interpreter (trigramStages interpreter services) trigramResults =
      .ok (plan (trigramStages interpreter services) trigramResults) := by
  obtain ⟨fn, hpath, -⟩ := laws.compile_path
  rw [buildPipeline, executionOrder_trigram]
  simp [taskTermEncoding, encodedTerms, stagingStrategy, stagedFilePath, compileStage,
    compileProperty, tryCompile, single, termProperties, systemString, appString,
    laws.compile_encoding, laws.compile_fileStore, hpath]
  rfl

include laws in
theorem resolvePath_object {ctx : Context Value} {ns : List (String × Value)} {name : String}
    (h : ctx name = some (interpreter.object ns)) (hns : (ns.map Prod.fst).Nodup) (key : String) :
    resolvePath interpreter (.part name key) ctx = .ok (member interpreter ns key) := by
  have hfind : find interpreter ctx name = some (interpreter.object ns) := by simp [find, h]
  simp only [resolvePath, hfind, laws.propertyIn_object ns key hns, laws.property_object ns key hns]
  cases member interpreter ns key <;> rfl

variable (interpreter injections initial) in
/-- What later stages read of the state before them. -/
structure Reached (s : RunState Value) (encoded : Option (List (String × Value))) : Prop where
  task : s.stepCtx "task" = some (interpreter.object (inputEntries interpreter initial "task"))
  trigram : s.stepCtx "trigram" = some (interpreter.object (trigramEntries interpreter initial))
  fileStore : s.stepCtx "fileStore" =
    some ((find interpreter injections "fileStore").getD interpreter.undefined)
  exprCtx : s.exprCtx = visible interpreter initial encoded
  pruned : ∀ name ∈ s.pruned, name = "encodedTerms"
  prunedSteps : s.prunedSteps = ∅
  stepResultCtx : s.stepResultCtx = fun _ => none

variable (interpreter injections initial) in
theorem reached_started :
    Reached interpreter injections initial (started interpreter injections initial) none := by
  constructor <;> simp [started, mergedInput, visible]

/-- A private feature adds to the full context only. -/
theorem Reached.finishPrivate {s : RunState Value} {encoded : Option (List (String × Value))}
    (h : Reached interpreter injections initial s encoded) {f : RuntimeFeature Value Err}
    (hprivate : f.publicKeys = .none)
    (hname : f.name ≠ "task" ∧ f.name ≠ "trigram" ∧ f.name ≠ "fileStore")
    (evaluations : List (Evaluation Value)) (ns : List (String × Value)) :
    Reached interpreter injections initial
      (finishFeature interpreter s f evaluations (some ns)) encoded := by
  obtain ⟨htask, htrigram, hstore⟩ := hname
  constructor
  · simpa [finishFeature, Function.update_of_ne htask.symm] using h.task
  · simpa [finishFeature, Function.update_of_ne htrigram.symm] using h.trigram
  · simpa [finishFeature, Function.update_of_ne hstore.symm] using h.fileStore
  · simpa [finishFeature, hprivate] using h.exprCtx
  · exact h.pruned
  · exact h.prunedSteps
  · exact h.stepResultCtx

theorem evaluateCompiled_of_compile {text : String} {ctx : Context Value} {value : Value}
    {fn : Context Value → Except Err Value}
    (hcompile : interpreter.compile (interpreter.string text) = .ok (some fn))
    (hvalue : fn ctx = .ok value) : evaluateCompiled interpreter text ctx = .ok value := by
  simp only [evaluateCompiled, evaluate, hcompile]
  simp only [bind, Except.bind, hvalue]
  rfl

theorem runFeature_expr {s : RunState Value} {f : RuntimeFeature Value Err} {key text : String}
    {value : Value} (hf : f.properties = single key (.expr text))
    (hvalue : evaluateCompiled interpreter text s.stepCtx = .ok value) :
    ∃ evaluations, runFeature interpreter s f =
      .ok (finishFeature interpreter s f evaluations (some [(key, value)])) := by
  refine ⟨[⟨s.place, key, false, interpreter.string text, s.stepCtx⟩], ?_⟩
  simp only [runFeature, hf, single, computeProperties, computeProperty, hvalue]
  rfl

theorem runFeature_indirect {s : RunState Value} {f : RuntimeFeature Value Err}
    {key outer : String} {innerExpr : Value} (hf : f.properties = single key (.indirect outer))
    (houter : evaluateCompiled interpreter outer s.stepCtx = .ok innerExpr) :
    ∃ evaluations : Option Value → List (Evaluation Value), runFeature interpreter s f =
      (evaluate interpreter innerExpr s.exprCtx).map fun found =>
        finishFeature interpreter s f (evaluations found)
          (found.map fun value => [(key, value)]) := by
  refine ⟨fun found => ⟨s.place, key, false, interpreter.string outer, s.stepCtx⟩ ::
    found.toList.map fun _ => ⟨s.place, key, true, innerExpr, s.exprCtx⟩, ?_⟩
  simp only [runFeature, hf, single, computeProperties, computeProperty, houter]
  rcases hinner : evaluate interpreter innerExpr s.exprCtx with error | found
  · simp only [bind, Except.bind, hinner, Except.map]
  · cases found <;> simp [bind, Except.bind, hinner, Except.map, pure, Except.pure]

include laws in
theorem resolvePath_single {ctx : Context Value} {name key : String} {value : Value}
    (h : ctx name = some (interpreter.object [(key, value)])) :
    resolvePath interpreter (.part name key) ctx = .ok (some value) := by
  have hvalue := resolvePath_object laws h (by simp) key
  simpa [member] using hvalue

include laws in
theorem resolvePath_task {ctx : Context Value}
    (h : ctx "task" = some (interpreter.object (inputEntries interpreter initial "task")))
    (key : String) : resolvePath interpreter (.part "task" key) ctx =
      .ok (member interpreter (inputEntries interpreter initial "task") key) := by
  apply resolvePath_object laws h
  rw [inputEntries]
  cases find interpreter initial "task" with
  | none => exact List.nodup_nil
  | some value => exact laws.nodup_ownEntries value

end Running

end RandomArt.TrigramPipeline
