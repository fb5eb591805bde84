import RandomArt.TrigramStaging

/-!
# The stages of the encoding segment

The private feature of the application gives the encoding, and the public feature of the segment
the texts of the seed terms.
-/

namespace RandomArt.TrigramPipeline

open Pipeline Pipeline.Segments FallibleFold

variable {Value Err : Type} {interpreter : Interpreter Value Err}
  {services : Services Value Err} (laws : Laws interpreter services)
  {injections initial : Context Value}

include laws in
theorem computeProperty_systemString {s : RunState Value}
    {encoded : Option (List (String × Value))}
    (h : Reached interpreter injections initial s encoded) (key term : String) :
    computeProperty interpreter s key (systemString interpreter services term) =
      match member interpreter (inputEntries interpreter initial "task") term with
      | none => .ok (none, [])
      | some bin => (services.bufferText bin (interpreter.string "base64url")).map
          fun text => (some text, []) := by
  simp only [systemString, computeProperty, resolveArgs, resolvePath_task laws h.task term]
  cases member interpreter (inputEntries interpreter initial "task") term <;> rfl

include laws in
theorem computeProperty_appString {s : RunState Value}
    {encoded : Option (List (String × Value))}
    (h : Reached interpreter injections initial s encoded)
    (hencoding : s.stepCtx "taskTermEncoding" =
      some (interpreter.object [("encoding", interpreter.string services.appEncoding)]))
    (key term : String) :
    computeProperty interpreter s key (appString interpreter services term) =
      match member interpreter (inputEntries interpreter initial "task") term with
      | none => .ok (none, [])
      | some bin => (services.bufferText bin (interpreter.string services.appEncoding)).map
          fun text => (some text, []) := by
  have henc := resolvePath_single laws hencoding
  simp only [appString, computeProperty, resolveArgs, resolvePath_task laws h.task term, henc]
  cases member interpreter (inputEntries interpreter initial "task") term <;> rfl

include laws in
/-- The texts of the terms are computed as in the straight line. -/
theorem runFeature_encodedTerms {s : RunState Value} {encoded : Option (List (String × Value))}
    (h : Reached interpreter injections initial s encoded)
    (hencoding : s.stepCtx "taskTermEncoding" =
      some (interpreter.object [("encoding", interpreter.string services.appEncoding)])) :
    runFeature interpreter s (encodedTerms interpreter services) =
      (encodeTerms interpreter services initial).map
        (finishFeature interpreter s (encodedTerms interpreter services) []) := by
  simp only [runFeature, encodedTerms, termProperties, computeProperties,
    computeProperty_systemString laws h, computeProperty_appString laws h hencoding, encodeTerms]
  cases member interpreter (inputEntries interpreter initial "task") "seedPrefix" with
  | none => rfl
  | some seedPrefix =>
    dsimp only
    cases services.bufferText seedPrefix (interpreter.string "base64url") with
    | error error => rfl
    | ok systemPrefix =>
      cases member interpreter (inputEntries interpreter initial "task") "seedSuffix" with
      | none => rfl
      | some seedSuffix =>
        dsimp only
        cases services.bufferText seedSuffix (interpreter.string "base64url") with
        | error error => rfl
        | ok systemSuffix =>
          cases services.bufferText seedPrefix (interpreter.string services.appEncoding) with
          | error error => rfl
          | ok appPrefix =>
            cases services.bufferText seedSuffix (interpreter.string services.appEncoding) <;> rfl

include laws in
theorem exists_taskTermEncoding {s : RunState Value}
    (h : Reached interpreter injections initial s none) :
    ∃ s', runFeature interpreter s (taskTermEncoding services) = .ok s' ∧
      Reached interpreter injections initial s' none ∧
      s'.stepCtx "taskTermEncoding" =
        some (interpreter.object [("encoding", interpreter.string services.appEncoding)]) := by
  have hvalue : evaluateCompiled interpreter services.encodingExpression s.stepCtx =
      .ok (interpreter.string services.appEncoding) :=
    evaluateCompiled_of_compile laws.compile_encoding rfl
  obtain ⟨evaluations, hrun⟩ := runFeature_expr (f := taskTermEncoding services) rfl hvalue
  refine ⟨_, hrun, h.finishPrivate rfl (by simp [taskTermEncoding]) _ _, ?_⟩
  simp [finishFeature, taskTermEncoding]

theorem Reached.finishEncodedTerms {s : RunState Value}
    (h : Reached interpreter injections initial s none)
    (encoded : Option (List (String × Value))) :
    Reached interpreter injections initial
      (finishFeature interpreter s (encodedTerms interpreter services) [] encoded) encoded := by
  cases encoded with
  | none =>
    constructor
    · exact h.task
    · exact h.trigram
    · exact h.fileStore
    · exact h.exprCtx
    · intro name hpruned
      rcases Finset.mem_insert.mp hpruned with rfl | hold
      · rfl
      · exact h.pruned name hold
    · exact h.prunedSteps
    · exact h.stepResultCtx
  | some ns =>
    constructor
    · simpa [finishFeature, encodedTerms] using h.task
    · simpa [finishFeature, encodedTerms] using h.trigram
    · simpa [finishFeature, encodedTerms] using h.fileStore
    · simp [finishFeature, encodedTerms, publicPart, h.exprCtx, visible]
    · exact h.pruned
    · exact h.prunedSteps
    · exact h.stepResultCtx

end RandomArt.TrigramPipeline
