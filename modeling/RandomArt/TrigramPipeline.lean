import RandomArt.TrigramEncoding
import RandomArt.TrigramWorkerPool

/-!
# The pipeline of the trigram application

What the pipeline does is compared with the program that stages a task in a straight line.
-/

namespace RandomArt.TrigramPipeline

open Pipeline Pipeline.Segments FallibleFold

variable {Value Err : Type}

section Running

variable {interpreter : Interpreter Value Err} {services : Services Value Err}
  (laws : Laws interpreter services) {injections initial : Context Value}

include laws in
theorem finish_trigram {s : RunState Value} {encoded : Option (List (String × Value))}
    (h : Reached interpreter injections initial s encoded)
    (hstrategy : s.stepCtx "stagingStrategy" = some (interpreter.object [("selected",
      (find interpreter injections "fileStore").getD interpreter.undefined)]))
    (found : Option Value) (evaluations : List (Evaluation Value)) :
    (runStep interpreter ∅ (finishFeature interpreter s (stagedFilePath services) evaluations
        (found.map fun value => [("selected", value)]))
        "stagingResult" (stagingResult interpreter services)).bind
        ((plan (trigramStages interpreter services) trigramResults).results interpreter) =
      match found with
      | none => .ok (stagingOutput services none)
      | some path => (stageImage interpreter services injections initial path).map
          (stagingOutput services) := by
  cases found with
  | none =>
    rw [Option.map_none, runStep_unstaged]
    simp only [Except.bind]
    apply results_of_pruned interpreter services
    exact Finset.mem_insert_self _ _
  | some path =>
    rw [Option.map_some, runStep_stagingResult laws h hstrategy]
    generalize hs' : finishFeature interpreter s (stagedFilePath services) evaluations
      (some [("selected", path)]) = s'
    have hpruned : "stagingResult" ∉ s'.pruned := by
      rw [← hs']
      exact fun hmem => absurd (h.pruned _ hmem) (by simp)
    have hsteps : "stagingResult" ∉ s'.prunedSteps := by
      rw [← hs']
      simp [finishFeature, h.prunedSteps]
    dsimp only
    cases stageImage interpreter services injections initial path with
    | error error => rfl
    | ok staged =>
      simp only [Except.map, Except.bind]
      exact results_finishStep laws hpruned hsteps staged

variable (interpreter services) in
theorem last_trigram (s : RunState Value) (impl : RuntimeContextualMethod Value Err)
    (built : Built Value Err) :
    (runAll (runStage interpreter ∅)
        [.step "stagingResult" impl, .injection "fileStore" false] s >>=
        fun s => do return (← built.results interpreter s, s)).map Prod.fst =
      (runStep interpreter ∅ s "stagingResult" impl).bind (built.results interpreter) := by
  rw [runAll, runStage]
  cases runStep interpreter ∅ s "stagingResult" impl with
  | error error => rfl
  | ok s' =>
    change (built.results interpreter s' >>= fun output => pure (output, s')).map Prod.fst = _
    simp only [Except.bind]
    cases built.results interpreter s' <;> rfl

include laws in
/-- A run of the pipeline is staging in a straight line. -/
theorem run_trigram (injections initial : Context Value) :
    ((plan (trigramStages interpreter services) trigramResults).run interpreter injections
      initial).map Prod.fst = stageTask interpreter services injections initial := by
  obtain ⟨s₁, hencoding, hreached₁, hvalue₁⟩ := exists_taskTermEncoding laws
    (reached_started interpreter injections initial)
  have hterms := runFeature_encodedTerms laws hreached₁ hvalue₁
  rw [Built.run, Built.stateAfter, seeded_trigram]
  change ((runAll (runStage interpreter (unfulfilled (trigramStages interpreter services)))
    (executionOrder (trigramStages interpreter services)) _ >>= _).map _) = _
  rw [unfulfilled_trigram, executionOrder_trigram,
    runAll_cons_ok (show runStage interpreter ∅ (started interpreter injections initial)
      (.feature (taskTermEncoding services)) = .ok s₁ from hencoding), stageTask]
  rcases hencoded : encodeTerms interpreter services initial with error | encoded
  · rw [hencoded] at hterms
    rw [runAll, runStage, hterms]
    rfl
  obtain ⟨s₂, hs₂⟩ : ∃ s₂, runFeature interpreter s₁ (encodedTerms interpreter services) = .ok s₂ ∧
      Reached interpreter injections initial s₂ encoded :=
    ⟨_, hterms.trans (congrArg _ hencoded), hreached₁.finishEncodedTerms encoded⟩
  obtain ⟨s₃, hstrategy, hreached₃, hvalue₃⟩ := exists_stagingStrategy laws hs₂.2
  rw [runAll_cons_ok (show runStage interpreter ∅ s₁ (.feature (encodedTerms interpreter services))
      = .ok s₂ from hs₂.1),
    runAll_cons_ok (show runStage interpreter ∅ s₂ (.feature stagingStrategy) = .ok s₃
      from hstrategy)]
  obtain ⟨evaluations, hpath⟩ := runFeature_stagedFilePath laws hreached₃
  rcases hfound : evaluate interpreter (filePathExpression interpreter services initial)
    (visible interpreter initial encoded) with error | found
  · rw [hfound] at hpath
    rw [runAll, runStage, hpath]
    simp only [bind, Except.bind, hfound]
    rfl
  have hlast := hpath.trans (congrArg _ hfound)
  rw [runAll_cons_ok (show runStage interpreter ∅ s₃ (.feature (stagedFilePath services)) = .ok _
      from hlast), last_trigram, finish_trigram laws hreached₃ hvalue₃ found]
  simp only [bind, Except.bind, hfound]
  cases found with
  | none => rfl
  | some path =>
    dsimp only
    cases stageImage interpreter services injections initial path <;> rfl

include laws in
/-- The application builds, whatever was loaded before, one pipeline for all requests. A request
writes the image of its task to the store, at the path that an expression gives that sees the
input and the texts of the terms only. -/
theorem stages_tasks (segments : Segments Value Err) :
    let made := trigramPipelineModule interpreter services segments
    ∃ built, made.1.memory.builds interpreter made.2 trigramResults = some (.ok built) ∧
      ∀ injections initial, (built.run interpreter injections initial).map Prod.fst =
        stageTask interpreter services injections initial := by
  intro made
  refine ⟨plan (trigramStages interpreter services) trigramResults, ?_, run_trigram laws⟩
  rw [Memory.builds, stagesOf_trigramPipelineModule, Option.map_some, buildPipeline_trigram laws]

end Running

section NameLanguage

/-- A store that returns the path it writes to, for tasks with empty seed terms. -/
def shownServices : Services NameValue String where
  bufferText _ _ := .ok (.text "")
  write _ filePath _ _ := .ok filePath
  number n := .text n.repr
  nullish value := value = .undefined
  appEncoding := Services.appEncodingOf none
  defaultPath := Services.defaultPathOf none

def ownEntriesOf : NameValue → List (String × NameValue)
  | .object entries => if (entries.map Prod.fst).Nodup then entries else []
  | _ => []

/-- The language of names with the two other expressions of the application. -/
def trigramLanguage : Interpreter NameValue String :=
  { nameLanguage with
    ownEntries := ownEntriesOf
    compile := fun expr =>
      if expr = .text shownServices.encodingExpression then
        .ok (some fun _ => .ok (.text shownServices.appEncoding))
      else if expr = .text shownServices.pathExpression then
        .ok (some fun ctx =>
          let given := (((ctx "trigram").getD .undefined).lookup
            "resolvedFileNameExpression").getD .undefined
          .ok (if given = .undefined then .text shownServices.defaultPath else given))
      else nameLanguage.compile expr }

theorem trigramLanguage_laws : Laws trigramLanguage shownServices where
  nodup_ownEntries value := by
    cases value with
    | object entries =>
      change ((ownEntriesOf (.object entries)).map Prod.fst).Nodup
      rw [ownEntriesOf]
      split
      · assumption
      · exact List.nodup_nil
    | _ => exact List.nodup_nil
  propertyIn_object _ _ _ := rfl
  property_object _ _ _ := rfl
  compile_encoding := rfl
  compile_fileStore := rfl
  compile_path := by
    refine ⟨_, rfl, ?_⟩
    intro ctx ns _ htrigram
    simp only [htrigram, Option.getD_some]
    have hnullish : ∀ value, shownServices.nullish value = decide (value = .undefined) :=
      fun _ => rfl
    simp only [hnullish, decide_eq_true_eq]
    rfl

def shownTask : Context NameValue := fun name =>
  if name = "task" then
    some (.object [("seedPrefix", .text ""), ("seedSuffix", .text ""), ("pngData", .text "image")])
  else if name = "trigram" then some (.object [("resolvedFileNameExpression", .text "target")])
  else if name = "target" then some (.text "images/1.png")
  else none

theorem stages_tasks_shown :
    let made := trigramPipelineModule trigramLanguage shownServices empty
    ∃ built, made.1.memory.builds trigramLanguage made.2 trigramResults = some (.ok built) ∧
      (built.run trigramLanguage (fun _ => none) shownTask).map (fun result => result.1 "uri") =
        .ok (some (.text "images/1.png")) := by
  intro made
  obtain ⟨built, hbuilt, hrun⟩ := stages_tasks trigramLanguage_laws empty
  refine ⟨built, hbuilt, ?_⟩
  have hstaged : (stageTask trigramLanguage shownServices (fun _ => none) shownTask).map
      (fun output => output "uri") = .ok (some (.text "images/1.png")) := by decide
  rw [← hrun] at hstaged
  rw [← hstaged]
  cases built.run trigramLanguage (fun _ => none) shownTask <;> rfl

end NameLanguage

end RandomArt.TrigramPipeline
