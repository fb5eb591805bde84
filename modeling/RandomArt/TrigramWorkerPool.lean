import RandomArt.TrigramStaging

/-!
# The stages of the worker pool segment

The store is the staging strategy, the path is what its expression gives, and the step of the
segment writes the image. The results are selected from what the step returns.
-/

namespace RandomArt.TrigramPipeline

open Pipeline Pipeline.Segments FallibleFold

variable {Value Err : Type} {interpreter : Interpreter Value Err}
  {services : Services Value Err} (laws : Laws interpreter services)
  {injections initial : Context Value}

include laws in
theorem exists_stagingStrategy {s : RunState Value} {encoded : Option (List (String × Value))}
    (h : Reached interpreter injections initial s encoded) :
    ∃ s', runFeature interpreter s stagingStrategy = .ok s' ∧
      Reached interpreter injections initial s' encoded ∧
      s'.stepCtx "stagingStrategy" = some (interpreter.object [("selected",
        (find interpreter injections "fileStore").getD interpreter.undefined)]) := by
  have hstore : find interpreter s.stepCtx "fileStore" =
      some ((find interpreter injections "fileStore").getD interpreter.undefined) := by
    rw [find, h.fileStore, Option.some_or]
  have hvalue : evaluateCompiled interpreter "fileStore" s.stepCtx =
      .ok ((find interpreter injections "fileStore").getD interpreter.undefined) :=
    evaluateCompiled_of_compile laws.compile_fileStore (congrArg Except.ok (by rw [hstore]; rfl))
  obtain ⟨evaluations, hrun⟩ := runFeature_expr (f := stagingStrategy) rfl hvalue
  refine ⟨_, hrun, h.finishPrivate rfl (by simp [stagingStrategy]) _ _, ?_⟩
  simp [finishFeature, stagingStrategy]

include laws in
/-- The path is what the expression for it gives in what it may start from. -/
theorem runFeature_stagedFilePath {s : RunState Value}
    {encoded : Option (List (String × Value))}
    (h : Reached interpreter injections initial s encoded) :
    ∃ evaluations : Option Value → List (Evaluation Value),
      runFeature interpreter s (stagedFilePath services) =
        (evaluate interpreter (filePathExpression interpreter services initial)
          (visible interpreter initial encoded)).map fun found =>
            finishFeature interpreter s (stagedFilePath services) (evaluations found)
              (found.map fun value => [("selected", value)]) := by
  obtain ⟨fn, hcompile, hvalue⟩ := laws.compile_path
  have hnodup : ((trigramEntries interpreter initial).map Prod.fst).Nodup := by
    refine Record.nodup_assignEntries (by simp) ?_
    rw [inputEntries]
    cases find interpreter initial "trigram" with
    | none => exact List.nodup_nil
    | some value => exact laws.nodup_ownEntries value
  have houter := evaluateCompiled_of_compile hcompile (hvalue _ _ hnodup h.trigram)
  rw [← h.exprCtx]
  exact runFeature_indirect rfl houter

theorem runStep_unstaged (s : RunState Value) (evaluations : List (Evaluation Value)) :
    let s' := finishFeature interpreter s (stagedFilePath services) evaluations none
    runStep interpreter ∅ s' "stagingResult" (stagingResult interpreter services) =
      .ok (finishStep s' "stagingResult" none) := by
  intro s'
  have hpruned : "stagedFilePath" ∈ s'.pruned := Finset.mem_insert_self _ _
  have hselectable : ¬selectable ∅ s'.pruned (stagingResult interpreter services).selectors := by
    simp [selectable, stagingResult, SelectorPath.top, hpruned]
  rw [runStep, computeStep, if_neg hselectable]
  rfl

include laws in
/-- The step writes the image where the path says. -/
theorem runStep_stagingResult {s : RunState Value} {encoded : Option (List (String × Value))}
    {path : Value} (h : Reached interpreter injections initial s encoded)
    (hstrategy : s.stepCtx "stagingStrategy" = some (interpreter.object [("selected",
      (find interpreter injections "fileStore").getD interpreter.undefined)]))
    (evaluations : List (Evaluation Value)) :
    let s' := finishFeature interpreter s (stagedFilePath services) evaluations
      (some [("selected", path)])
    runStep interpreter ∅ s' "stagingResult" (stagingResult interpreter services) =
      (stageImage interpreter services injections initial path).map fun uri =>
        finishStep s' "stagingResult" (uri.map fun uri =>
          interpreter.object [("status", services.number 1), ("uri", uri)]) := by
  intro s'
  have hother : ∀ name, name ≠ "stagedFilePath" → s'.stepCtx name = s.stepCtx name :=
    fun name hne => Function.update_of_ne hne _ _
  have hpath : s'.stepCtx "stagedFilePath" = some (interpreter.object [("selected", path)]) :=
    by simp [s', finishFeature, stagedFilePath]
  have hselectable : selectable ∅ s'.pruned (stagingResult interpreter services).selectors := by
    have hpruned : ∀ name ≠ "encodedTerms", name ∉ s'.pruned := fun name hne hmem =>
      hne (h.pruned name hmem)
    simp [selectable, stagingResult, SelectorPath.top, hpruned]
  have hargs : resolveArgs interpreter s'.stepCtx (stagingResult interpreter services).selectors =
      .ok ((member interpreter (inputEntries interpreter initial "task") "pngData").map
        fun canvas => [(find interpreter injections "fileStore").getD interpreter.undefined, path,
          canvas]) := by
    simp only [stagingResult, resolveArgs, resolvePath_single laws hpath,
      resolvePath_single laws ((hother "stagingStrategy" (by simp)).trans hstrategy),
      resolvePath_task laws ((hother "task" (by simp)).trans h.task)]
    cases member interpreter (inputEntries interpreter initial "task") "pngData" <;> rfl
  simp only [runStep, computeStep, hselectable, if_true, hargs, stageImage]
  cases member interpreter (inputEntries interpreter initial "task") "pngData" with
  | none => rfl
  | some canvas =>
    simp only [Option.map_some, stagingResult, argument, List.getD_cons_zero, List.getD_cons_succ,
      bind, Except.bind]
    cases services.write ((find interpreter injections "fileStore").getD interpreter.undefined)
      path canvas (metadata interpreter) <;> rfl

variable (interpreter services) in
theorem results_of_pruned {s : RunState Value} (h : "stagingResult" ∈ s.prunedSteps) :
    (plan (trigramStages interpreter services) trigramResults).results interpreter s =
      .ok (stagingOutput services none) := by
  simp [Built.results, plan, trigramResults, Built.collect, Built.selectResult, SelectorPath.top,
    h, runAll, putResult, stagingOutput, bind, Except.bind, pure, Except.pure]

include laws in
theorem results_of_staged {s : RunState Value} {uri : Value} (hpruned : "stagingResult" ∉ s.pruned)
    (hsteps : "stagingResult" ∉ s.prunedSteps)
    (hresult : s.stepResultCtx "stagingResult" =
      some (interpreter.object [("status", services.number 1), ("uri", uri)])) :
    (plan (trigramStages interpreter services) trigramResults).results interpreter s =
      .ok (stagingOutput services (some uri)) := by
  have hctx : s.resultCtx "stagingResult" =
      some (interpreter.object [("status", services.number 1), ("uri", uri)]) := by
    rw [RunState.resultCtx, hresult, Option.some_or]
  have hresolve := resolvePath_object laws hctx (by simp)
  have hstatus : member interpreter [("status", services.number 1), ("uri", uri)] "status" =
      some (services.number 1) := rfl
  have huri : member interpreter [("status", services.number 1), ("uri", uri)] "uri" =
      some uri := rfl
  simp [Built.results, plan, trigramResults, Built.collect, Built.selectResult, SelectorPath.top,
    hpruned, hsteps, unfulfilled_trigram, hresolve, hstatus, huri, runAll, putResult,
    stagingOutput, bind, Except.bind, pure, Except.pure]

include laws in
theorem results_finishStep {s : RunState Value} (hpruned : "stagingResult" ∉ s.pruned)
    (hsteps : "stagingResult" ∉ s.prunedSteps) (staged : Option Value) :
    (plan (trigramStages interpreter services) trigramResults).results interpreter
      (finishStep s "stagingResult" (staged.map fun uri =>
        interpreter.object [("status", services.number 1), ("uri", uri)])) =
      .ok (stagingOutput services staged) := by
  cases staged with
  | none => exact results_of_pruned interpreter services (Finset.mem_insert_self _ _)
  | some uri => exact results_of_staged laws hpruned hsteps (by simp [finishStep])

end RandomArt.TrigramPipeline
