import RandomArt.PipelineRun
import Mathlib.Data.Finset.Dedup

/-!
# What building a pipeline makes of its stages

Membership in the sets that building derives from the stages, the contexts before the
first stage, what a feature records, and what the results are selected from.
-/

namespace RandomArt.Pipeline

variable {Value Err : Type}

section Building

variable {stages : List (RuntimeStage Value Err)} {name : String}

@[simp] theorem mem_virtualNames : name ∈ virtualNames stages ↔ .virtual name ∈ stages := by
  rw [virtualNames, List.mem_toFinset, List.mem_filterMap]
  constructor
  · rintro ⟨stage, hstage, hname⟩
    cases stage <;> simp_all
  · exact fun h => ⟨_, h, rfl⟩

@[simp] theorem mem_features {f : RuntimeFeature Value Err} :
    f ∈ features stages ↔ .feature f ∈ stages := by
  rw [features, List.mem_filterMap]
  constructor
  · rintro ⟨stage, hstage, hf⟩
    cases stage <;> simp_all
  · exact fun h => ⟨_, h, rfl⟩

theorem fulfillment_eq_some {f : RuntimeFeature Value Err}
    (h : fulfillment stages name = some f) :
    .virtual name ∈ stages ∧ .feature f ∈ stages ∧ f.name = name := by
  rw [fulfillment] at h
  split_ifs at h with hvirtual
  have hmem := List.mem_of_mem_getLast? h
  simp only [List.mem_filter, mem_features, decide_eq_true_eq] at hmem
  exact ⟨mem_virtualNames.mp hvirtual, hmem⟩

theorem isSome_fulfillment :
    (fulfillment stages name).isSome ↔
      .virtual name ∈ stages ∧ ∃ f, .feature f ∈ stages ∧ f.name = name := by
  constructor
  · intro h
    obtain ⟨f, hf⟩ := Option.isSome_iff_exists.mp h
    obtain ⟨hvirtual, hfeature, hname⟩ := fulfillment_eq_some hf
    exact ⟨hvirtual, f, hfeature, hname⟩
  · rintro ⟨hvirtual, f, hfeature, hname⟩
    have hmem : f ∈ (features stages).filter fun feature => feature.name = name := by
      simp [hfeature, hname]
    rw [fulfillment, if_pos (mem_virtualNames.mpr hvirtual),
      List.getLast?_eq_some_getLast (List.ne_nil_of_mem hmem)]
    rfl

theorem mem_unfulfilled :
    name ∈ unfulfilled stages ↔
      .virtual name ∈ stages ∧ ∀ f, .feature f ∈ stages → f.name ≠ name := by
  rw [unfulfilled, Finset.mem_filter, mem_virtualNames, ← Option.not_isSome, Bool.not_eq_true',
    ← Bool.not_eq_true, isSome_fulfillment]
  constructor
  · rintro ⟨hvirtual, hnone⟩
    exact ⟨hvirtual, fun f hf hname => hnone ⟨hvirtual, f, hf, hname⟩⟩
  · rintro ⟨hvirtual, hnone⟩
    exact ⟨hvirtual, fun ⟨_, f, hf, hname⟩ => hnone f hf hname⟩

theorem isSome_namespaceDefaults :
    (namespaceDefaults stages name).isSome ↔
      ∃ defaults, .initialDefaults name defaults ∈ stages := by
  suffices all : ∀ collected : Context (List (String × Value)),
      (stages.foldl collectDefaults collected name).isSome ↔
        (collected name).isSome ∨ ∃ defaults, .initialDefaults name defaults ∈ stages by
    simpa [namespaceDefaults] using all fun _ => none
  induction stages with
  | nil => simp
  | cons stage rest ih =>
    intro collected
    rw [List.foldl_cons, ih]
    cases stage with
    | initialDefaults other defaults =>
      by_cases hname : name = other
      · subst hname
        simp [collectDefaults]
      · simp [collectDefaults, hname]
    | _ => simp [collectDefaults]

theorem eq_of_buildPipeline {interpreter : Interpreter Value Err}
    {resultSelectors : ResultSelectors Value Err} {built : Built Value Err}
    (h : buildPipeline interpreter stages resultSelectors = .ok built) :
    built = plan stages resultSelectors := by
  obtain ⟨-, -, hplan⟩ := FallibleFold.exists_of_bind_eq_ok h
  exact (Except.ok.inj hplan).symm

end Building

section Seeding

variable (interpreter : Interpreter Value Err) (built : Built Value Err)
  (injections initial : Context Value)

/-- What seeding leaves as it is. -/
structure SameWork (s t : RunState Value) : Prop where
  stepResultCtx : t.stepResultCtx = s.stepResultCtx
  pruned : t.pruned = s.pruned
  prunedSteps : t.prunedSteps = s.prunedSteps
  place : t.place = s.place
  evaluations : t.evaluations = s.evaluations
  exposures : t.exposures = s.exposures

theorem sameWork_seedStage (s : RunState Value) (stage : PreparedStage Value Err) :
    SameWork s (seedStage interpreter injections s stage) := by
  cases stage <;> constructor <;> rfl

theorem SameWork.trans {s t u : RunState Value} (h : SameWork s t) (h' : SameWork t u) :
    SameWork s u :=
  ⟨h'.stepResultCtx.trans h.stepResultCtx, h'.pruned.trans h.pruned,
    h'.prunedSteps.trans h.prunedSteps, h'.place.trans h.place,
    h'.evaluations.trans h.evaluations, h'.exposures.trans h.exposures⟩

theorem sameWork_foldl_seedStage (order : List (PreparedStage Value Err)) (s : RunState Value) :
    SameWork s (order.foldl (seedStage interpreter injections) s) := by
  induction order generalizing s with
  | nil => exact ⟨rfl, rfl, rfl, rfl, rfl, rfl⟩
  | cons stage rest ih => exact (sameWork_seedStage interpreter injections s stage).trans (ih _)

theorem isSome_stepCtx_foldl_seedStage (order : List (PreparedStage Value Err))
    (s : RunState Value) (name : String) :
    ((order.foldl (seedStage interpreter injections) s).stepCtx name).isSome ↔
      (s.stepCtx name).isSome ∨ ∃ isPublic, .injection name isPublic ∈ order := by
  induction order generalizing s with
  | nil => simp
  | cons stage rest ih =>
    rw [List.foldl_cons, ih]
    cases stage with
    | injection other isPublic =>
      by_cases hname : name = other
      · subst hname
        simp [seedStage]
      · simp [seedStage, hname]
    | _ => simp [seedStage]

theorem isSome_exprCtx_foldl_seedStage (order : List (PreparedStage Value Err))
    (s : RunState Value) (name : String) :
    ((order.foldl (seedStage interpreter injections) s).exprCtx name).isSome ↔
      (s.exprCtx name).isSome ∨ .injection name true ∈ order ∨
        ∃ fn, .pureFunction name fn ∈ order := by
  induction order generalizing s with
  | nil => simp
  | cons stage rest ih =>
    rw [List.foldl_cons, ih]
    cases stage with
    | injection other isPublic =>
      by_cases hname : name = other
      · subst hname
        cases isPublic <;> simp [seedStage]
      · cases isPublic <;> simp [seedStage, hname]
    | pureFunction other fn =>
      by_cases hname : name = other
      · subst hname
        simp [seedStage]
      · simp [seedStage, hname]
    | _ => simp [seedStage]

theorem isSome_mergedInitial (name : String) :
    (built.mergedInitial interpreter initial name).isSome ↔
      (built.namespaceDefaults name).isSome ∨ (initial name).isSome := by
  rw [Built.mergedInitial]
  cases built.namespaceDefaults name <;> simp

end Seeding

section Recording

theorem putResult_of_ne {output : Context Value} {resultKey key : String} (h : key ≠ resultKey)
    (found : Option Value) : putResult output resultKey found key = output key := by
  cases found with
  | none => rfl
  | some value => exact Function.update_of_ne h ..

theorem putResult_self {output : Context Value} {resultKey : String}
    (h : output resultKey = none) (found : Option Value) :
    putResult output resultKey found resultKey = found := by
  cases found with
  | none => exact h
  | some value => exact Function.update_self ..

theorem putResult_comm {name other : String} (h : name ≠ other) (ctx : Context Value)
    (a b : Option Value) :
    putResult (putResult ctx name a) other b = putResult (putResult ctx other b) name a := by
  cases a <;> cases b
  · rfl
  · rfl
  · rfl
  · exact Function.update_comm h ..

variable (interpreter : Interpreter Value Err)

/-- What a feature makes visible, none if it is private or pruned. -/
def exposure (f : RuntimeFeature Value Err) (computed : Option (List (String × Value))) :
    Option Value :=
  computed.bind fun ns => publicPart interpreter ns f.publicKeys

variable {interpreter} {s : RunState Value} {f : RuntimeFeature Value Err}
  {evaluations : List (Evaluation Value)} {computed : Option (List (String × Value))}

@[simp] theorem finishFeature_place :
    (finishFeature interpreter s f evaluations computed).place = s.place + 1 := by
  cases computed <;> rfl

@[simp] theorem finishFeature_evaluations :
    (finishFeature interpreter s f evaluations computed).evaluations =
      s.evaluations ++ evaluations := by
  cases computed <;> rfl

theorem mem_finishFeature_pruned {name : String} :
    name ∈ (finishFeature interpreter s f evaluations computed).pruned ↔
      name ∈ s.pruned ∨ name = f.name ∧ computed = none := by
  cases computed with
  | none => simp [finishFeature, or_comm]
  | some ns => simp [finishFeature]

theorem exposure_of_private (h : f.publicKeys = .none) :
    exposure interpreter f computed = none := by
  cases computed <;> simp [exposure, h, publicPart]

theorem exposure_eq_none (h : f.publicKeys ≠ .none) :
    exposure interpreter f computed = none ↔ computed = none := by
  cases computed with
  | none => simp [exposure]
  | some ns => cases hkeys : f.publicKeys <;> simp_all [exposure, publicPart]

theorem finishFeature_stepCtx :
    (finishFeature interpreter s f evaluations computed).stepCtx =
      putResult s.stepCtx f.name (computed.map interpreter.object) := by
  cases computed <;> rfl

theorem finishFeature_exprCtx :
    (finishFeature interpreter s f evaluations computed).exprCtx =
      putResult s.exprCtx f.name (exposure interpreter f computed) := by
  cases computed with
  | none => rfl
  | some ns =>
    cases hkeys : f.publicKeys <;>
      simp [finishFeature, exposure, hkeys, publicPart, putResult]

theorem finishFeature_exposures (h : f.publicKeys ≠ .none) :
    (finishFeature interpreter s f evaluations computed).exposures =
      s.exposures ++ [exposure interpreter f computed] := by
  cases computed <;> simp [finishFeature, exposure, h]

@[simp] theorem finishFeature_stepResultCtx :
    (finishFeature interpreter s f evaluations computed).stepResultCtx = s.stepResultCtx := by
  cases computed <;> rfl

@[simp] theorem finishFeature_prunedSteps :
    (finishFeature interpreter s f evaluations computed).prunedSteps = s.prunedSteps := by
  cases computed <;> rfl

end Recording

section Results

open FallibleFold

variable {interpreter : Interpreter Value Err} {built : Built Value Err} {s : RunState Value}

theorem collect_completes {selectors : List (String × SelectorPath)} (output : Context Value)
    (h : ∀ entry ∈ selectors, ∃ found, built.selectResult interpreter s entry.2 = .ok found) :
    ∃ results, built.collect interpreter s output selectors = .ok results := by
  induction selectors generalizing output with
  | nil => exact ⟨output, rfl⟩
  | cons entry rest ih =>
    obtain ⟨found, hfound⟩ := h entry List.mem_cons_self
    obtain ⟨results, hresults⟩ := ih (putResult output entry.1 found) fun e he =>
      h e (List.mem_cons_of_mem _ he)
    refine ⟨results, ?_⟩
    exact (runAll_cons_ok (bind_of_ok hfound)).trans hresults

/-- Every selector has put what it found under its key. -/
theorem collect_eq_ok {selectors : List (String × SelectorPath)} {output results : Context Value}
    (h : built.collect interpreter s output selectors = .ok results)
    (hnodup : (selectors.map Prod.fst).Nodup)
    (hfresh : ∀ entry ∈ selectors, output entry.1 = none) :
    (∀ entry ∈ selectors, built.selectResult interpreter s entry.2 = .ok (results entry.1)) ∧
      ∀ key ∉ selectors.map Prod.fst, results key = output key := by
  induction selectors generalizing output with
  | nil =>
    cases h
    exact ⟨by simp, fun _ _ => rfl⟩
  | cons entry rest ih =>
    obtain ⟨hkey, hrest⟩ := List.nodup_cons.mp hnodup
    obtain ⟨next, hput, hnext⟩ := runAll_cons_eq_ok h
    obtain ⟨found, hfound, hput⟩ := exists_of_bind_eq_ok hput
    cases hput
    obtain ⟨hall, hsame⟩ := ih hnext hrest fun e he => by
      have hne : e.1 ≠ entry.1 := fun heq => hkey (heq ▸ List.mem_map_of_mem he)
      rw [putResult_of_ne hne]
      exact hfresh e (List.mem_cons_of_mem _ he)
    have hentry : results entry.1 = found := by
      rw [hsame _ hkey, putResult_self (hfresh entry List.mem_cons_self)]
    refine ⟨List.forall_mem_cons.mpr ⟨by rw [hfound, hentry], hall⟩, fun key hnot => ?_⟩
    rw [List.map_cons, List.mem_cons, not_or] at hnot
    rw [hsame key hnot.2, putResult_of_ne hnot.1]

theorem resolvePath_congr {ctx ctx' : Context Value} {selector : SelectorPath}
    (h : find interpreter ctx selector.top = find interpreter ctx' selector.top) :
    resolvePath interpreter selector ctx = resolvePath interpreter selector ctx' := by
  cases selector with
  | whole name => exact congrArg Except.ok h
  | part name key =>
    simp only [SelectorPath.top] at h
    simp only [resolvePath, h]

theorem exists_of_run {injections initial output : Context Value} {s : RunState Value}
    (h : built.run interpreter injections initial = .ok (output, s)) :
    built.stateAfter interpreter built.executionOrder injections initial = .ok s ∧
      built.results interpreter s = .ok output := by
  obtain ⟨t, hloop, hrest⟩ := exists_of_bind_eq_ok h
  obtain ⟨found, hresults, hpair⟩ := exists_of_bind_eq_ok hrest
  cases hpair
  exact ⟨hloop, hresults⟩

end Results

end RandomArt.Pipeline
