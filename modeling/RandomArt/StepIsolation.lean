import RandomArt.RedundantVirtual
import Mathlib.Data.Fintype.EquivFin

/-!
# Removing a step

A step reads the contexts and writes nothing that a feature or another step reads. Without it
a run goes on as before, apart from the result entries that select the step. What a step can
do to the rest is to end the run: its selectors may look for a key in a value that has none.
-/

namespace RandomArt.Pipeline

open FallibleFold

variable {Value Err : Type} (interpreter : Interpreter Value Err)

/-- Two states that differ at most in what one step has left. -/
structure SameBesides (name : String) (s t : RunState Value) : Prop where
  stepCtx : s.stepCtx = t.stepCtx
  exprCtx : s.exprCtx = t.exprCtx
  pruned : s.pruned = t.pruned
  stepResultCtx : ∀ other, other ≠ name → s.stepResultCtx other = t.stepResultCtx other
  prunedSteps : ∀ other, other ≠ name → (other ∈ s.prunedSteps ↔ other ∈ t.prunedSteps)

namespace ResultSelectors

/-- Whether a result entry selects the step of a name. Of the entries of a function those do
whose value depends on what the step has left. -/
def SelectsStep (name key : String) : ResultSelectors Value Err → Prop
  | .map selectors => ∃ selector, (key, selector) ∈ selectors.entries ∧ selector.top = name
  | .function fn => ∃ ctx ctx', (∀ other, other ≠ name → ctx other = ctx' other) ∧
      (fn ctx).map (· key) ≠ (fn ctx').map (· key)

/-- The selectors without the entries of a map that select the step of a name. -/
def withoutStep (name : String) : ResultSelectors Value Err → ResultSelectors Value Err
  | .map selectors => .map ⟨selectors.entries.filter fun entry => entry.2.top ≠ name,
      selectors.nodup.sublist (List.filter_sublist.map _)⟩
  | .function fn => .function fn

end ResultSelectors

section Stages

variable {interpreter} {name : String} {s t : RunState Value} {unfulfilled : Finset String}

theorem computeProperty_alike (hstep : s.stepCtx = t.stepCtx) (hexpr : s.exprCtx = t.exprCtx)
    (key : String) (property : BuilderPropertyDef Value Err) :
    Alike (fun r r' => r.1 = r'.1) (computeProperty interpreter s key property)
      (computeProperty interpreter t key property) := by
  cases property with
  | expr text =>
    rw [computeProperty, computeProperty, hstep]
    exact (Alike.refl (fun _ => rfl) _).bind fun value value' hvalue => congrArg some hvalue
  | indirect outer =>
    rw [computeProperty, computeProperty, hstep, hexpr]
    refine (Alike.refl (fun _ => rfl) _).bind ?_
    rintro innerExpr _ rfl
    refine (Alike.refl (fun _ => rfl) _).bind ?_
    rintro (_ | value) _ rfl
    · exact rfl
    · exact rfl
  | method impl =>
    rw [computeProperty, computeProperty, hstep]
    exact Alike.refl (fun r => (rfl : r.1 = r.1)) _

theorem computeProperties_alike (hstep : s.stepCtx = t.stepCtx) (hexpr : s.exprCtx = t.exprCtx)
    (properties : List (String × BuilderPropertyDef Value Err)) :
    Alike (fun r r' => r.1 = r'.1) (computeProperties interpreter s properties)
      (computeProperties interpreter t properties) := by
  induction properties with
  | nil => exact rfl
  | cons entry rest ih =>
    obtain ⟨key, property⟩ := entry
    refine (computeProperty_alike hstep hexpr key property).bind ?_
    rintro ⟨value, evaluations⟩ ⟨value', evaluations'⟩ hvalue
    obtain rfl : value = value' := hvalue
    cases value with
    | none => exact rfl
    | some value =>
      refine ih.bind ?_
      rintro ⟨ns, more⟩ ⟨ns', more'⟩ hns
      obtain rfl : ns = ns' := hns
      exact rfl

theorem SameBesides.finishFeature (h : SameBesides name s t) {f : RuntimeFeature Value Err}
    {evaluations evaluations' : List (Evaluation Value)}
    {computed : Option (List (String × Value))} :
    SameBesides name (finishFeature interpreter s f evaluations computed)
      (finishFeature interpreter t f evaluations' computed) := by
  refine ⟨?_, ?_, ?_, ?_, ?_⟩
  · rw [finishFeature_stepCtx, finishFeature_stepCtx, h.stepCtx]
  · rw [finishFeature_exprCtx, finishFeature_exprCtx, h.exprCtx]
  · ext other
    rw [mem_finishFeature_pruned, mem_finishFeature_pruned, h.pruned]
  · simpa only [finishFeature_stepResultCtx] using h.stepResultCtx
  · simpa only [finishFeature_prunedSteps] using h.prunedSteps

theorem SameBesides.finishStep (h : SameBesides name s t) (step : String)
    (result : Option Value) :
    SameBesides name (finishStep s step result) (finishStep t step result) := by
  cases result with
  | none =>
    refine ⟨h.stepCtx, h.exprCtx, h.pruned, h.stepResultCtx, fun other hother => ?_⟩
    simp only [Pipeline.finishStep, Finset.mem_insert, h.prunedSteps other hother]
  | some value =>
    refine ⟨h.stepCtx, h.exprCtx, h.pruned, fun other hother => ?_, h.prunedSteps⟩
    simp only [Pipeline.finishStep, Function.update_apply, h.stepResultCtx other hother]

/-- No stage, whatever its name, tells apart states that differ in what one step has left. -/
theorem runStage_alike (h : SameBesides name s t) (stage : PreparedStage Value Err) :
    Alike (SameBesides name) (runStage interpreter unfulfilled s stage)
      (runStage interpreter unfulfilled t stage) := by
  cases stage with
  | feature f =>
    simp only [runStage, runFeature_eq_map]
    refine (computeProperties_alike h.stepCtx h.exprCtx _).map ?_
    rintro ⟨computed, evaluations⟩ ⟨computed', evaluations'⟩ hcomputed
    obtain rfl : computed = computed' := hcomputed
    exact h.finishFeature
  | step step impl =>
    have hcompute : computeStep interpreter unfulfilled s impl =
        computeStep interpreter unfulfilled t impl := by
      simp only [computeStep, h.stepCtx, h.pruned]
    simp only [runStage, runStep_eq_map, hcompute]
    refine (Alike.refl (fun _ => rfl) _).map ?_
    rintro result _ rfl
    exact h.finishStep step result
  | injection injection isPublic => exact h
  | pureFunction function fn => exact h

theorem sameBesides_finishStep (s : RunState Value) (name : String) (result : Option Value) :
    SameBesides name (finishStep s name result) s := by
  cases result with
  | none =>
    refine ⟨rfl, rfl, rfl, fun _ _ => rfl, fun other hother => ?_⟩
    simp only [finishStep, Finset.mem_insert, hother, false_or]
  | some value =>
    refine ⟨rfl, rfl, rfl, fun other hother => ?_, fun _ _ => Iff.rfl⟩
    exact Function.update_of_ne hother ..

end Stages

section Building

variable {name : String} {impl : RuntimeContextualMethod Value Err}
  {before after : List (RuntimeStage Value Err)}

theorem fulfillment_with_step :
    fulfillment (before ++ .step name impl :: after) = fulfillment (before ++ after) := by
  funext other
  have hmem : other ∈ virtualNames (before ++ .step name impl :: after) ↔
      other ∈ virtualNames (before ++ after) := by
    simp
  have hfeatures : features (before ++ .step name impl :: after) = features (before ++ after) := by
    simp [features]
  simp only [fulfillment, hfeatures, hmem]

theorem unfulfilled_with_step :
    unfulfilled (before ++ .step name impl :: after) = unfulfilled (before ++ after) := by
  ext other
  simp [mem_unfulfilled]

theorem namespaceDefaults_with_step :
    namespaceDefaults (before ++ .step name impl :: after) =
      namespaceDefaults (before ++ after) := by
  simp [namespaceDefaults, collectDefaults]

theorem executionOrder_with_step :
    executionOrder (before ++ .step name impl :: after) =
      before.filterMap (slot (before ++ after)) ++
        .step name impl :: after.filterMap (slot (before ++ after)) := by
  rw [executionOrder, slot_congr fulfillment_with_step, List.filterMap_append,
    List.filterMap_cons_some (f := slot (before ++ after)) rfl]

theorem forM_compileStage_with_step :
    (executionOrder (before ++ .step name impl :: after)).forM (compileStage interpreter) =
      (executionOrder (before ++ after)).forM (compileStage interpreter) := by
  have happend : ∀ first rest : List (PreparedStage Value Err),
      (first ++ rest).forM (compileStage interpreter) =
        first.forM (compileStage interpreter) >>= fun _ => rest.forM (compileStage interpreter) :=
    fun _ _ => List.forM_append
  rw [executionOrder_with_step, executionOrder_append, happend, happend]
  rfl

end Building

section Loop

variable {interpreter} {name : String} {impl : RuntimeContextualMethod Value Err}

/-- A step whose method returns ends a run only when its arguments cannot be looked for. -/
theorem resolveArgs_of_computeStep (hfn : ∀ args, ∃ value, impl.fn args = .ok value)
    {unfulfilled : Finset String} {s : RunState Value} {e : Err}
    (h : computeStep interpreter unfulfilled s impl = .error e) :
    selectable unfulfilled s.pruned impl.selectors = true ∧
      resolveArgs interpreter s.stepCtx impl.selectors = .error e := by
  rw [computeStep] at h
  split_ifs at h with hselectable
  · refine ⟨hselectable, ?_⟩
    rcases hargs : resolveArgs interpreter s.stepCtx impl.selectors with error | (_ | args)
    · rw [hargs] at h
      cases h
      rfl
    · rw [hargs] at h
      cases h
    · obtain ⟨value, hvalue⟩ := hfn args
      rw [hargs] at h
      simp only [bind, Except.bind, hvalue] at h
      cases h
  · cases h

/-- The stages with and without the step run alike, unless the step ends the run. -/
theorem runAll_with_step (hfn : ∀ args, ∃ value, impl.fn args = .ok value)
    (unfulfilled : Finset String) (first rest : List (PreparedStage Value Err))
    (start : RunState Value) :
    Alike (SameBesides name)
      (runAll (runStage interpreter unfulfilled) (first ++ .step name impl :: rest) start)
      (runAll (runStage interpreter unfulfilled) (first ++ rest) start) ∨
    ∃ e s,
      runAll (runStage interpreter unfulfilled) first start = .ok s ∧
      selectable unfulfilled s.pruned impl.selectors = true ∧
      resolveArgs interpreter s.stepCtx impl.selectors = .error e := by
  rw [runAll_append, runAll_append]
  rcases runAll (runStage interpreter unfulfilled) first start with error | s
  · exact Or.inl rfl
  simp only [Except.bind, runAll, runStage, runStep_eq_map]
  rcases hcompute : computeStep interpreter unfulfilled s impl with error | result
  · exact Or.inr ⟨error, s, rfl, resolveArgs_of_computeStep hfn hcompute⟩
  · exact Or.inl (runAll_alike (fun stage _ s t h => runStage_alike h stage)
      (sameBesides_finishStep s name result))

end Loop

section Removal

variable (before after : List (RuntimeStage Value Err)) (name : String)
  (impl : RuntimeContextualMethod Value Err) (resultSelectors : ResultSelectors Value Err)
  (injections initial : Context Value)

/-- The first of the entries that cannot be selected starts from the step. -/
def FailsAt (select : SelectorPath → Except Err (Option Value)) (e : Err)
    (entries : List (String × SelectorPath)) : Prop :=
  ∃ first entry rest, entries = first ++ entry :: rest ∧
    (∀ other ∈ first, ∃ found, select other.2 = .ok found) ∧
      entry.2.top = name ∧ select entry.2 = .error e

def withStep : Built Value Err := plan (before ++ .step name impl :: after) resultSelectors

def withoutStep : Built Value Err := plan (before ++ after) (resultSelectors.withoutStep name)

/-- The states in which two pipelines select their results differ at most in what the step has
left, or both runs end before with one error. -/
def StatesAlike (built built' : Built Value Err) : Prop :=
  Alike (SameBesides name)
    (built.stateAfter interpreter built.executionOrder injections initial)
    (built'.stateAfter interpreter built'.executionOrder injections initial)

/-- Every result entry that does not select the step comes to the same. -/
def EntriesAlike (built built' : Built Value Err) : Prop :=
  ∀ key, ¬resultSelectors.SelectsStep name key →
    (built.run interpreter injections initial).map (fun result => result.1 key) =
      (built'.run interpreter injections initial).map fun result => result.1 key

/-- Looking for the arguments of the step ends the run: one of its selectors looks for a key in
a value that has none. -/
def StepRejects (e : Err) : Prop :=
  let built := withoutStep before after name resultSelectors
  ∃ s, built.stateAfter interpreter (before.filterMap (slot (before ++ after))) injections initial =
      .ok s ∧
    selectable built.unfulfilled s.pruned impl.selectors = true ∧
      resolveArgs interpreter s.stepCtx impl.selectors = .error e

/-- Selecting a result from what the step has left ends the run: the first of the result
selectors that looks for a key in a value that has none starts from the step. -/
def ResultRejects (e : Err) : Prop :=
  let built := withStep before after name impl resultSelectors
  ∃ s selectors, built.stateAfter interpreter built.executionOrder injections initial = .ok s ∧
    resultSelectors = .map selectors ∧
      FailsAt name (built.selectResult interpreter s) e selectors.entries

/-- What removing a step leaves as it was: whether the pipeline is built, the features and the
other steps, and the result entries that do not select the step. -/
structure StepIsolated : Prop where
  built : (buildPipeline interpreter (before ++ .step name impl :: after) resultSelectors).map
      (fun _ => ()) =
    (buildPipeline interpreter (before ++ after) (resultSelectors.withoutStep name)).map
      (fun _ => ())
  states : StatesAlike interpreter name injections initial
    (withStep before after name impl resultSelectors)
    (withoutStep before after name resultSelectors)
  entries : EntriesAlike interpreter name resultSelectors injections initial
    (withStep before after name impl resultSelectors)
    (withoutStep before after name resultSelectors)

variable {interpreter before after name impl resultSelectors injections initial}

theorem seeded_with_step :
    (withStep before after name impl resultSelectors).seeded interpreter injections initial =
      (withoutStep before after name resultSelectors).seeded interpreter injections initial := by
  have hmerged : (withStep before after name impl resultSelectors).mergedInitial interpreter
      initial = (withoutStep before after name resultSelectors).mergedInitial interpreter
        initial := by
    funext other
    simp only [Built.mergedInitial, withStep, withoutStep, plan, namespaceDefaults_with_step]
  rw [Built.seeded, Built.seeded, Built.unseeded, Built.unseeded, hmerged]
  change (executionOrder _).foldl _ _ = (executionOrder _).foldl _ _
  rw [executionOrder_with_step, executionOrder_append, List.foldl_append, List.foldl_append]
  rfl

theorem stateAfter_withStep :
    (withStep before after name impl resultSelectors).stateAfter interpreter
      (withStep before after name impl resultSelectors).executionOrder injections initial =
      runAll (runStage interpreter (unfulfilled (before ++ after)))
        (before.filterMap (slot (before ++ after)) ++
          .step name impl :: after.filterMap (slot (before ++ after)))
        ((withoutStep before after name resultSelectors).seeded interpreter injections
          initial) := by
  rw [Built.stateAfter, seeded_with_step, withStep, plan, unfulfilled_with_step,
    executionOrder_with_step]

theorem stateAfter_withoutStep :
    (withoutStep before after name resultSelectors).stateAfter interpreter
      (withoutStep before after name resultSelectors).executionOrder injections initial =
      runAll (runStage interpreter (unfulfilled (before ++ after)))
        (before.filterMap (slot (before ++ after)) ++ after.filterMap (slot (before ++ after)))
        ((withoutStep before after name resultSelectors).seeded interpreter injections
          initial) := by
  rw [← executionOrder_append]
  rfl

/-- The runs with and without the step go alike up to their results, unless the step ends the
one that has it. -/
theorem statesAlike_with_step (hfn : ∀ args, ∃ value, impl.fn args = .ok value) :
    StatesAlike interpreter name injections initial
      (withStep before after name impl resultSelectors)
      (withoutStep before after name resultSelectors) ∨
    ∃ e, StepRejects interpreter before after name impl resultSelectors injections initial e := by
  rw [StatesAlike, stateAfter_withStep, stateAfter_withoutStep]
  rcases runAll_with_step hfn (unfulfilled (before ++ after))
    (before.filterMap (slot (before ++ after))) (after.filterMap (slot (before ++ after)))
    ((withoutStep before after name resultSelectors).seeded interpreter injections initial) with
    halike | ⟨e, s, hbefore, hselectable, hargs⟩
  · exact Or.inl halike
  · exact Or.inr ⟨e, s, hbefore, hselectable, hargs⟩

theorem stateAfter_of_stepRejects {e : Err}
    (h : StepRejects interpreter before after name impl resultSelectors injections initial e) :
    (withStep before after name impl resultSelectors).stateAfter interpreter
      (withStep before after name impl resultSelectors).executionOrder injections initial =
      .error e := by
  obtain ⟨s, hbefore, hselectable, hargs⟩ := h
  have hcompute : computeStep interpreter (unfulfilled (before ++ after)) s impl = .error e := by
    have hselectable' : selectable (unfulfilled (before ++ after)) s.pruned impl.selectors = true :=
      hselectable
    rw [computeStep, if_pos hselectable', hargs]
    rfl
  have hfirst : runAll (runStage interpreter (unfulfilled (before ++ after)))
      (before.filterMap (slot (before ++ after)))
      ((withoutStep before after name resultSelectors).seeded interpreter injections initial) =
      .ok s := hbefore
  rw [stateAfter_withStep, runAll_append, hfirst]
  simp only [Except.bind, runAll, runStage, runStep_eq_map, hcompute, Except.map]

theorem selectResult_besides {s t : RunState Value} (h : SameBesides name s t)
    {selector : SelectorPath} (htop : selector.top ≠ name) :
    (withStep before after name impl resultSelectors).selectResult interpreter s selector =
      (withoutStep before after name resultSelectors).selectResult interpreter t selector := by
  have hunfulfilled : (withStep before after name impl resultSelectors).unfulfilled =
      (withoutStep before after name resultSelectors).unfulfilled := unfulfilled_with_step
  have hfind : find interpreter s.resultCtx selector.top =
      find interpreter t.resultCtx selector.top := by
    rw [find, find, RunState.resultCtx, RunState.resultCtx, h.stepResultCtx _ htop, h.exprCtx]
  rw [Built.selectResult, Built.selectResult, hunfulfilled, h.pruned, resolvePath_congr hfind]
  simp only [h.prunedSteps _ htop]

theorem collect_cons (built : Built Value Err) (s : RunState Value) (output : Context Value)
    (entry : String × SelectorPath) (rest : List (String × SelectorPath)) :
    built.collect interpreter s output (entry :: rest) =
      (built.selectResult interpreter s entry.2).bind fun found =>
        built.collect interpreter s (putResult output entry.1 found) rest := by
  rw [Built.collect, runAll]
  cases built.selectResult interpreter s entry.2 <;> rfl

theorem FailsAt.cons {select : SelectorPath → Except Err (Option Value)} {e : Err}
    {entries : List (String × SelectorPath)} (h : FailsAt name select e entries)
    (entry : String × SelectorPath) {found : Option Value} (hfound : select entry.2 = .ok found) :
    FailsAt name select e (entry :: entries) := by
  obtain ⟨first, failing, rest, rfl, hfirst, hfails⟩ := h
  refine ⟨entry :: first, failing, rest, rfl, ?_, hfails⟩
  exact List.forall_mem_cons.mpr ⟨⟨found, hfound⟩, hfirst⟩

theorem FailsAt.collect_eq {built : Built Value Err} {s : RunState Value} {e : Err}
    {entries : List (String × SelectorPath)}
    (h : FailsAt name (built.selectResult interpreter s) e entries) (output : Context Value) :
    built.collect interpreter s output entries = .error e := by
  obtain ⟨first, failing, rest, rfl, hfirst, -, hfails⟩ := h
  induction first generalizing output with
  | nil =>
    rw [List.nil_append, collect_cons, hfails]
    rfl
  | cons entry first ih =>
    obtain ⟨⟨found, hfound⟩, hrest⟩ := List.forall_mem_cons.mp hfirst
    rw [List.cons_append, collect_cons, hfound]
    exact ih _ hrest

/-- Entries that select the step are passed over: unless one of them fails, the others come to
the same. -/
theorem collect_besides {s t : RunState Value} (h : SameBesides name s t) (Kept : String → Prop)
    {entries : List (String × SelectorPath)}
    (hkept : ∀ entry ∈ entries, entry.2.top = name → ¬Kept entry.1)
    {output output' : Context Value} (houtput : ∀ key, Kept key → output key = output' key) :
    Alike (fun output output' => ∀ key, Kept key → output key = output' key)
      ((withStep before after name impl resultSelectors).collect interpreter s output entries)
      ((withoutStep before after name resultSelectors).collect interpreter t output'
        (entries.filter fun entry => entry.2.top ≠ name)) ∨
    ∃ e, FailsAt name ((withStep before after name impl resultSelectors).selectResult interpreter s)
      e entries := by
  induction entries generalizing output output' with
  | nil => exact Or.inl houtput
  | cons entry rest ih =>
    obtain ⟨hfirst, hrest⟩ := List.forall_mem_cons.mp hkept
    rw [collect_cons]
    by_cases htop : entry.2.top = name
    · rw [List.filter_cons_of_neg (by simpa using htop)]
      rcases hfound : (withStep before after name impl resultSelectors).selectResult interpreter s
        entry.2 with error | found
      · exact Or.inr ⟨error, [], entry, rest, rfl, by simp, htop, hfound⟩
      · have hsame : ∀ key, Kept key → putResult output entry.1 found key = output' key := by
          intro key hkey
          have hne : key ≠ entry.1 := by
            rintro rfl
            exact hfirst htop hkey
          rw [putResult_of_ne hne, houtput key hkey]
        refine (ih hrest hsame).imp id ?_
        rintro ⟨e, hfails⟩
        exact ⟨e, hfails.cons entry hfound⟩
    · rw [List.filter_cons_of_pos (by simpa using htop), collect_cons,
        ← selectResult_besides h htop]
      rcases hfound : (withStep before after name impl resultSelectors).selectResult interpreter s
        entry.2 with error | found
      · exact Or.inl rfl
      · have hsame : ∀ key, Kept key →
            putResult output entry.1 found key = putResult output' entry.1 found key := by
          intro key hkey
          cases found with
          | none => exact houtput key hkey
          | some value => simp only [putResult, Function.update_apply, houtput key hkey]
        refine (ih hrest hsame).imp id ?_
        rintro ⟨e, hfails⟩
        exact ⟨e, hfails.cons entry hfound⟩

variable (before after impl resultSelectors) in
/-- From alike states the kept entries come to the same, unless selecting from the step fails. -/
theorem results_besides {s t : RunState Value} (h : SameBesides name s t) :
    (∀ key, ¬resultSelectors.SelectsStep name key →
      ((withStep before after name impl resultSelectors).results interpreter s).map (· key) =
        ((withoutStep before after name resultSelectors).results interpreter t).map (· key)) ∨
    ∃ e selectors, resultSelectors = .map selectors ∧
      FailsAt name ((withStep before after name impl resultSelectors).selectResult interpreter s) e
        selectors.entries := by
  cases resultSelectors with
  | function fn =>
    refine Or.inl fun key hkey => ?_
    by_contra hne
    refine hkey ⟨s.resultCtx, t.resultCtx, fun other hother => ?_, hne⟩
    rw [RunState.resultCtx, RunState.resultCtx, h.stepResultCtx other hother, h.exprCtx]
  | map selectors =>
    rcases collect_besides h
      (fun key => ¬(.map selectors : ResultSelectors Value Err).SelectsStep name key)
      (fun entry hentry htop hnot => hnot ⟨entry.2, hentry, htop⟩) (fun _ _ => rfl) with
      halike | ⟨e, hfails⟩
    · refine Or.inl fun key hkey => ?_
      change ((withStep before after name impl (.map selectors)).collect interpreter s _ _).map _ =
        ((withoutStep before after name (.map selectors)).collect interpreter t _ _).map _
      revert halike
      rcases (withStep before after name impl (.map selectors)).collect interpreter s
          (fun _ => none) selectors.entries with error | output <;>
        rcases (withoutStep before after name (.map selectors)).collect interpreter t
          (fun _ => none) (selectors.entries.filter fun entry => entry.2.top ≠ name) with
          error' | output'
      · rintro rfl
        rfl
      · exact False.elim
      · exact False.elim
      · exact fun halike => congrArg Except.ok (halike key hkey)
    · exact Or.inr ⟨e, selectors, rfl, hfails⟩

theorem run_map_entry {built : Built Value Err} {s : RunState Value}
    (h : built.stateAfter interpreter built.executionOrder injections initial = .ok s)
    (key : String) :
    (built.run interpreter injections initial).map (fun result => result.1 key) =
      (built.results interpreter s).map (· key) := by
  rw [run_eq_bind, h]
  simp only [Except.bind]
  cases built.results interpreter s <;> rfl

/-- The kept entries of runs that go alike up to their results. -/
theorem entriesAlike_of_statesAlike (hstates : StatesAlike interpreter name injections initial
      (withStep before after name impl resultSelectors)
      (withoutStep before after name resultSelectors)) :
    EntriesAlike interpreter name resultSelectors injections initial
      (withStep before after name impl resultSelectors)
      (withoutStep before after name resultSelectors) ∨
    ∃ e, ResultRejects interpreter before after name impl resultSelectors injections initial e := by
  rw [StatesAlike] at hstates
  rcases hs : (withStep before after name impl resultSelectors).stateAfter interpreter
      (withStep before after name impl resultSelectors).executionOrder injections initial with
      error | s <;>
    rcases ht : (withoutStep before after name resultSelectors).stateAfter interpreter
      (withoutStep before after name resultSelectors).executionOrder injections initial with
      error' | t <;> rw [hs, ht] at hstates
  · obtain rfl : error = error' := hstates
    refine Or.inl fun key _ => ?_
    rw [run_eq_bind, run_eq_bind, hs, ht]
    rfl
  · exact hstates.elim
  · exact hstates.elim
  · rcases results_besides before after impl resultSelectors hstates with
      hentries | ⟨e, selectors, hmap, hfails⟩
    · refine Or.inl fun key hkey => ?_
      rw [run_map_entry hs, run_map_entry ht]
      exact hentries key hkey
    · exact Or.inr ⟨e, s, selectors, hs, hmap, hfails⟩

theorem run_of_resultRejects {e : Err}
    (h : ResultRejects interpreter before after name impl resultSelectors injections initial e) :
    (withStep before after name impl resultSelectors).run interpreter injections initial =
      .error e := by
  obtain ⟨s, selectors, hs, rfl, hfails⟩ := h
  rw [run_eq_bind, hs]
  exact congrArg (Except.map _) (hfails.collect_eq _)

theorem exists_not_selectsStep (selectors : Record SelectorPath) :
    ∃ key, ¬(.map selectors : ResultSelectors Value Err).SelectsStep name key := by
  obtain ⟨key, hkey⟩ := Infinite.exists_notMem_finset (selectors.entries.map Prod.fst).toFinset
  refine ⟨key, ?_⟩
  rintro ⟨selector, hselector, -⟩
  exact hkey (List.mem_toFinset.mpr (List.mem_map_of_mem hselector))

/-- Removing a step whose method returns leaves everything else as it was, as long as neither the
step's own selectors nor a result selector that starts from the step end the run. Where one of
them does, it ends the run of everything else, too. -/
theorem step_isolated (hfn : ∀ args, ∃ value, impl.fn args = .ok value) :
    ((∀ e, ¬StepRejects interpreter before after name impl resultSelectors injections initial e) →
      (∀ e, ¬ResultRejects interpreter before after name impl resultSelectors injections initial
        e) →
      StepIsolated interpreter before after name impl resultSelectors injections initial) ∧
    ∀ e, StepRejects interpreter before after name impl resultSelectors injections initial e ∨
        ResultRejects interpreter before after name impl resultSelectors injections initial e →
      (withStep before after name impl resultSelectors).run interpreter injections initial =
          .error e ∧
        (StepIsolated interpreter before after name impl resultSelectors injections initial →
          (withoutStep before after name resultSelectors).run interpreter injections initial =
            .error e) := by
  have hbuilt : (buildPipeline interpreter (before ++ .step name impl :: after) resultSelectors).map
      (fun _ => ()) =
      (buildPipeline interpreter (before ++ after) (resultSelectors.withoutStep name)).map
        (fun _ => ()) := by
    rw [buildPipeline, buildPipeline, forM_compileStage_with_step]
    cases (executionOrder (before ++ after)).forM (compileStage interpreter) <;> rfl
  refine ⟨fun hstep hresult => ?_, fun e hrejects => ?_⟩
  · have hstates := (statesAlike_with_step hfn).resolve_right fun ⟨e, he⟩ => hstep e he
    have hentries := (entriesAlike_of_statesAlike hstates).resolve_right fun ⟨e, he⟩ => hresult e he
    exact ⟨hbuilt, hstates, hentries⟩
  · rcases hrejects with hrejects | hrejects
    · have hends := stateAfter_of_stepRejects hrejects
      refine ⟨by rw [run_eq_bind, hends]; rfl, fun hisolated => ?_⟩
      have halike := hisolated.states
      rw [StatesAlike, hends] at halike
      rw [run_eq_bind]
      rcases hstate : (withoutStep before after name resultSelectors).stateAfter interpreter
        (withoutStep before after name resultSelectors).executionOrder injections initial with
        error | t
      · rw [hstate] at halike
        obtain rfl : e = error := halike
        rfl
      · rw [hstate] at halike
        exact halike.elim
    · have hends := run_of_resultRejects hrejects
      refine ⟨hends, fun hisolated => ?_⟩
      obtain ⟨-, selectors, -, rfl, -⟩ := hrejects
      obtain ⟨key, hkey⟩ := exists_not_selectsStep selectors
      have halike := hisolated.entries key hkey
      rw [hends] at halike
      rcases hrun : (withoutStep before after name (.map selectors)).run interpreter injections
        initial with error | result
      · rw [hrun] at halike
        cases halike
        rfl
      · rw [hrun] at halike
        cases halike

end Removal

section Whole

variable {interpreter} {before after : List (RuntimeStage Value Err)} {name : String}
  {impl : RuntimeContextualMethod Value Err} {injections initial : Context Value} {e : Err}

theorem resolveArgs_whole {selectors : List SelectorPath}
    (h : ∀ selector ∈ selectors, ∃ top, selector = .whole top) (ctx : Context Value) :
    ∃ args, resolveArgs interpreter ctx selectors = .ok args := by
  induction selectors with
  | nil => exact ⟨_, rfl⟩
  | cons selector rest ih =>
    obtain ⟨⟨top, rfl⟩, hrest⟩ := List.forall_mem_cons.mp h
    obtain ⟨args, hargs⟩ := ih hrest
    rw [resolveArgs, resolvePath]
    cases find interpreter ctx top with
    | none => exact ⟨none, rfl⟩
    | some value =>
      simp only [bind, Except.bind, hargs]
      exact ⟨_, rfl⟩

theorem not_stepRejects_of_whole {resultSelectors : ResultSelectors Value Err}
    (h : ∀ selector ∈ impl.selectors, ∃ top, selector = .whole top) :
    ¬StepRejects interpreter before after name impl resultSelectors injections initial e := by
  rintro ⟨s, -, -, hrejects⟩
  obtain ⟨args, hargs⟩ := resolveArgs_whole h s.stepCtx
  rw [hrejects] at hargs
  cases hargs

theorem not_resultRejects_of_whole {selectors : Record SelectorPath}
    (h : ∀ entry ∈ selectors.entries, entry.2.top = name → ∃ top, entry.2 = .whole top) :
    ¬ResultRejects interpreter before after name impl (.map selectors) injections initial e := by
  rintro ⟨s, _, -, ⟨⟩, first, entry, rest, hsplit, -, htop, hrejects⟩
  obtain ⟨top, hwhole⟩ := h entry (by simp [hsplit]) htop
  rw [hwhole, Built.selectResult] at hrejects
  split_ifs at hrejects
  cases hrejects

end Whole

section Examples

def nameInput : Context NameValue := fun key => if key = "name" then some (.text "abc") else none

def nameResults : ResultSelectors NameValue String :=
  .map ⟨[("name", .whole "name"), ("copy", .whole "copy")], by decide⟩

/-- Removing one of two steps that copy the input. -/
theorem step_isolated_copy : StepIsolated nameLanguage
    [.step "other" (firstOf (.whole "name"))] [] "copy" (firstOf (.whole "name")) nameResults
    (fun _ => none) nameInput := by
  refine (step_isolated fun args => ⟨args.headD .undefined, rfl⟩).1 (fun e => ?_) fun e => ?_
  · exact not_stepRejects_of_whole fun selector h => ⟨"name", List.mem_singleton.mp h⟩
  · refine not_resultRejects_of_whole fun entry hentry _ => ?_
    simp only [List.mem_cons, List.not_mem_nil, or_false] at hentry
    rcases hentry with rfl | rfl
    · exact ⟨"name", rfl⟩
    · exact ⟨"copy", rfl⟩

/-- The step that looks for a key in a text ends the run: without it the result that does not
select it is returned. -/
theorem lengthStep_ends_run :
    (∀ args, ∃ value, (firstOf (.part "name" "length")).fn args = .ok value) ∧
      ¬nameResults.SelectsStep "copy" "name" ∧
      (withStep [] [] "copy" (firstOf (.part "name" "length")) nameResults).run nameLanguage
        (fun _ => none) nameInput = .error "TypeError" ∧
      ∃ output s, (withoutStep [] [] "copy" nameResults).run nameLanguage (fun _ => none)
        nameInput = .ok (output, s) ∧ output "name" = some (.text "abc") := by
  refine ⟨fun args => ⟨args.headD .undefined, rfl⟩, ?_, rfl, _, _, rfl, rfl⟩
  rintro ⟨selector, hselector, htop⟩
  simp only [List.mem_cons, Prod.mk.injEq, List.not_mem_nil, or_false] at hselector
  rcases hselector with ⟨-, rfl⟩ | ⟨hkey, -⟩
  · exact absurd htop (by decide)
  · exact absurd hkey (by decide)

end Examples

end RandomArt.Pipeline
