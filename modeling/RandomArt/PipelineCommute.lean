import RandomArt.PipelineOrder
import RandomArt.PipelinePresence
import RandomArt.FallibleOutcome

/-!
# Stages that commute

A stage computes from the names it starts from and then records under its own name. Two
stages of different names neither of which starts from the other's commute: in either
order a run reaches the same contexts and prunes the same, or fails.
-/

namespace RandomArt.Pipeline

open FallibleFold

variable {Value Err : Type} (interpreter : Interpreter Value Err) (roots : Value → Set String)

/-- Two states that differ only in what they noted of the way there. -/
structure SameView (s t : RunState Value) : Prop where
  stepCtx : s.stepCtx = t.stepCtx
  exprCtx : s.exprCtx = t.exprCtx
  stepResultCtx : s.stepResultCtx = t.stepResultCtx
  pruned : s.pruned = t.pruned
  prunedSteps : s.prunedSteps = t.prunedSteps

/-- A property finds the same in two states. -/
structure SeesSame (s t : RunState Value) (property : BuilderPropertyDef Value Err) : Prop where
  reads : ∀ root, property.Reads interpreter roots root →
    find interpreter s.stepCtx root = find interpreter t.stepCtx root
  inner : ∀ outer, property = .indirect outer → s.exprCtx = t.exprCtx

/-- A feature neither starts from a name nor may come to it through inner expressions. -/
structure Ignores (f : RuntimeFeature Value Err) (name : String) (publicKeys : PublicKeys) :
    Prop where
  reads : ¬f.Reads interpreter roots name
  inner : ∀ entry ∈ f.properties.entries, ∀ outer, entry.2 = .indirect outer → publicKeys = .none

/-- Stages that a feature may be moved past. -/
def Independent (f : RuntimeFeature Value Err) : PreparedStage Value Err → Prop
  | .feature g => f.name ≠ g.name ∧ Ignores interpreter roots f g.name g.publicKeys ∧
      Ignores interpreter roots g f.name f.publicKeys
  | .step _ impl => ∀ selector ∈ impl.selectors, selector.top ≠ f.name
  | _ => True

variable {interpreter roots} {s t : RunState Value}

theorem SameView.refl (s : RunState Value) : SameView s s := ⟨rfl, rfl, rfl, rfl, rfl⟩

theorem SameView.symm (h : SameView s t) : SameView t s :=
  ⟨h.stepCtx.symm, h.exprCtx.symm, h.stepResultCtx.symm, h.pruned.symm, h.prunedSteps.symm⟩

theorem SameView.trans {s t u : RunState Value} (h : SameView s t) (h' : SameView t u) :
    SameView s u :=
  ⟨h.stepCtx.trans h'.stepCtx, h.exprCtx.trans h'.exprCtx,
    h.stepResultCtx.trans h'.stepResultCtx, h.pruned.trans h'.pruned,
    h.prunedSteps.trans h'.prunedSteps⟩

theorem SeesSame.symm {property : BuilderPropertyDef Value Err}
    (h : SeesSame interpreter roots s t property) : SeesSame interpreter roots t s property :=
  ⟨fun root hread => (h.reads root hread).symm, fun outer houter => (h.inner outer houter).symm⟩

theorem resolveArgs_congr {ctx ctx' : Context Value} {selectors : List SelectorPath}
    (h : ∀ selector ∈ selectors,
      find interpreter ctx selector.top = find interpreter ctx' selector.top) :
    resolveArgs interpreter ctx selectors = resolveArgs interpreter ctx' selectors := by
  induction selectors with
  | nil => rfl
  | cons selector rest ih =>
    rw [resolveArgs, resolveArgs, resolvePath_congr (h selector List.mem_cons_self),
      ih fun other hother => h other (List.mem_cons_of_mem _ hother)]

section Computing

variable (hlocal : Local interpreter roots)
include hlocal

theorem computeProperty_congr {key : String} {property : BuilderPropertyDef Value Err}
    (h : SeesSame interpreter roots s t property) :
    Outcome (fun r r' => r.1 = r'.1) (computeProperty interpreter s key property)
      (computeProperty interpreter t key property) := by
  have heval : ∀ text, (∀ root ∈ roots (interpreter.string text),
      find interpreter s.stepCtx root = find interpreter t.stepCtx root) →
      evaluateCompiled interpreter text s.stepCtx = evaluateCompiled interpreter text t.stepCtx :=
    fun text hroots => by rw [evaluateCompiled, evaluateCompiled, hlocal _ _ _ hroots]
  cases property with
  | expr text =>
    rw [computeProperty, computeProperty, heval text h.reads]
    rcases evaluateCompiled interpreter text t.stepCtx with error | value
    · trivial
    · exact rfl
  | indirect outer =>
    rw [computeProperty, computeProperty, heval outer h.reads, h.inner outer rfl]
    rcases evaluateCompiled interpreter outer t.stepCtx with error | innerExpr
    · trivial
    · simp only [bind, Except.bind]
      rcases evaluate interpreter innerExpr t.exprCtx with error | (_ | value)
      · trivial
      · exact rfl
      · exact rfl
  | method impl =>
    have hargs : resolveArgs interpreter s.stepCtx impl.selectors =
        resolveArgs interpreter t.stepCtx impl.selectors :=
      resolveArgs_congr fun selector hselector => h.reads _ ⟨selector, hselector, rfl⟩
    rw [computeProperty, computeProperty, hargs]
    exact Outcome.refl (fun r => (rfl : r.1 = r.1)) _

theorem computeProperties_congr {properties : List (String × BuilderPropertyDef Value Err)}
    (h : ∀ entry ∈ properties, SeesSame interpreter roots s t entry.2) :
    Outcome (fun r r' => r.1 = r'.1) (computeProperties interpreter s properties)
      (computeProperties interpreter t properties) := by
  induction properties with
  | nil => exact rfl
  | cons entry rest ih =>
    obtain ⟨key, property⟩ := entry
    refine (computeProperty_congr hlocal (h _ List.mem_cons_self)).bind ?_
    rintro ⟨value, evaluations⟩ ⟨value', evaluations'⟩ hvalue
    obtain rfl : value = value' := hvalue
    cases value with
    | none => exact rfl
    | some value =>
      refine (ih fun e he => h e (List.mem_cons_of_mem _ he)).bind ?_
      rintro ⟨ns, more⟩ ⟨ns', more'⟩ hns
      obtain rfl : ns = ns' := hns
      exact rfl

end Computing

section Recording

variable {f g : RuntimeFeature Value Err} {evaluations : List (Evaluation Value)}
  {computed : Option (List (String × Value))}

theorem runFeature_eq_map : runFeature interpreter s f =
    (computeProperties interpreter s f.properties.entries).map fun r =>
      finishFeature interpreter s f r.2 r.1 := by
  rw [runFeature]
  cases computeProperties interpreter s f.properties.entries <;> rfl

theorem runStep_eq_map {unfulfilled : Finset String} {name : String}
    {impl : RuntimeContextualMethod Value Err} :
    runStep interpreter unfulfilled s name impl =
      (computeStep interpreter unfulfilled s impl).map (finishStep s name) := by
  rw [runStep]
  cases computeStep interpreter unfulfilled s impl <;> rfl

/-- What a feature records leaves a feature that ignores it seeing the same. -/
theorem Ignores.seesSame (h : Ignores interpreter roots g f.name f.publicKeys) :
    ∀ entry ∈ g.properties.entries, SeesSame interpreter roots s
      (finishFeature interpreter s f evaluations computed) entry.2 := by
  intro entry hentry
  refine ⟨fun root hread => ?_, fun outer houter => ?_⟩
  · have hne : root ≠ f.name := fun heq => h.reads (heq ▸ ⟨entry, hentry, hread⟩)
    rw [find, find, finishFeature_stepCtx, putResult_of_ne hne]
  · rw [finishFeature_exprCtx, exposure_of_private (h.inner entry hentry outer houter)]
    rfl

theorem SameView.finishFeature {evaluations' : List (Evaluation Value)} (h : SameView s t) :
    SameView (finishFeature interpreter s f evaluations computed)
      (finishFeature interpreter t f evaluations' computed) := by
  obtain ⟨hstep, hexpr, hresult, hpruned, hprunedSteps⟩ := h
  cases computed <;> constructor <;> simp_all [Pipeline.finishFeature]

theorem SameView.finishStep {name : String} {result : Option Value} (h : SameView s t) :
    SameView (finishStep s name result) (finishStep t name result) := by
  obtain ⟨hstep, hexpr, hresult, hpruned, hprunedSteps⟩ := h
  cases result <;> constructor <;> simp_all [Pipeline.finishStep]

/-- Features of different names record in either order. -/
theorem sameView_features (hname : f.name ≠ g.name)
    {evaluations' evaluations'' evaluations''' : List (Evaluation Value)}
    {other : Option (List (String × Value))} :
    SameView
      (finishFeature interpreter (finishFeature interpreter s f evaluations computed) g
        evaluations' other)
      (finishFeature interpreter (finishFeature interpreter s g evaluations'' other) f
        evaluations''' computed) := by
  constructor
  · simp only [finishFeature_stepCtx, putResult_comm hname]
  · simp only [finishFeature_exprCtx, putResult_comm hname]
  · simp only [finishFeature_stepResultCtx]
  · ext name
    simp only [mem_finishFeature_pruned]
    tauto
  · simp only [finishFeature_prunedSteps]

theorem sameView_feature_step {name : String} {result : Option Value}
    {evaluations' : List (Evaluation Value)} :
    SameView (finishStep (finishFeature interpreter s f evaluations computed) name result)
      (finishFeature interpreter (finishStep s name result) f evaluations' computed) := by
  cases computed <;> cases result <;> exact ⟨rfl, rfl, rfl, rfl, rfl⟩

/-- A step that does not select a feature computes the same after it. -/
theorem computeStep_finishFeature {unfulfilled : Finset String}
    {impl : RuntimeContextualMethod Value Err}
    (h : ∀ selector ∈ impl.selectors, selector.top ≠ f.name) :
    computeStep interpreter unfulfilled (finishFeature interpreter s f evaluations computed) impl =
      computeStep interpreter unfulfilled s impl := by
  have hselectable : selectable unfulfilled
      (finishFeature interpreter s f evaluations computed).pruned impl.selectors =
        selectable unfulfilled s.pruned impl.selectors := by
    rw [Bool.eq_iff_iff, selectable, selectable, List.all_eq_true, List.all_eq_true]
    refine forall₂_congr fun selector hselector => ?_
    simp only [mem_finishFeature_pruned, h selector hselector, false_and, or_false]
  have hargs : resolveArgs interpreter
      (finishFeature interpreter s f evaluations computed).stepCtx impl.selectors =
        resolveArgs interpreter s.stepCtx impl.selectors :=
    resolveArgs_congr fun selector hselector => by
      rw [find, find, finishFeature_stepCtx, putResult_of_ne (h selector hselector)]
  rw [computeStep, computeStep, hselectable, hargs]

end Recording

section Stages

variable {unfulfilled : Finset String} (hlocal : Local interpreter roots)
include hlocal

theorem runStage_sameView (h : SameView s t) (stage : PreparedStage Value Err) :
    Outcome SameView (runStage interpreter unfulfilled s stage)
      (runStage interpreter unfulfilled t stage) := by
  cases stage with
  | feature f =>
    simp only [runStage, runFeature_eq_map]
    refine (computeProperties_congr hlocal fun entry _ => ⟨fun _ _ => by rw [h.stepCtx],
      fun _ _ => h.exprCtx⟩).map ?_
    rintro ⟨computed, evaluations⟩ ⟨computed', evaluations'⟩ hcomputed
    obtain rfl : computed = computed' := hcomputed
    exact h.finishFeature
  | step name impl =>
    have hcompute : computeStep interpreter unfulfilled s impl =
        computeStep interpreter unfulfilled t impl := by
      simp only [computeStep, h.stepCtx, h.pruned]
    simp only [runStage, runStep_eq_map, hcompute]
    refine (Outcome.refl (fun _ => rfl) _).map ?_
    rintro result _ rfl
    exact h.finishStep
  | injection name isPublic => exact h
  | pureFunction name fn => exact h

/-- A feature and a stage that it is independent of commute. -/
theorem runStage_swap {f : RuntimeFeature Value Err} {stage : PreparedStage Value Err}
    (h : Independent interpreter roots f stage) (s : RunState Value) :
    Outcome SameView
      ((runStage interpreter unfulfilled s (.feature f)).bind
        (runStage interpreter unfulfilled · stage))
      ((runStage interpreter unfulfilled s stage).bind
        (runStage interpreter unfulfilled · (.feature f))) := by
  have hright : ∀ x : Except Err (RunState Value), x.bind (fun s => .ok s) = x := fun x => by
    cases x <;> rfl
  cases stage with
  | feature g =>
    obtain ⟨hname, hf, hg⟩ := h
    simp only [runStage, runFeature_eq_map]
    refine Outcome.swap (fun s => computeProperties interpreter s f.properties.entries)
      (fun s r => finishFeature interpreter s f r.2 r.1)
      (fun s => computeProperties interpreter s g.properties.entries)
      (fun s r => finishFeature interpreter s g r.2 r.1)
      (fun _ => computeProperties_congr hlocal hf.seesSame)
      (fun _ => computeProperties_congr hlocal fun entry hentry =>
        (hg.seesSame entry hentry).symm) ?_
    rintro ⟨computed, _⟩ ⟨computed', _⟩ ⟨other, _⟩ ⟨other', _⟩ hcomputed hother
    obtain rfl : computed = computed' := hcomputed
    obtain rfl : other = other' := hother
    exact sameView_features hname
  | step name impl =>
    simp only [runStage, runFeature_eq_map, runStep_eq_map]
    refine Outcome.swap (fun s => computeProperties interpreter s f.properties.entries)
      (fun s r => finishFeature interpreter s f r.2 r.1)
      (fun s => computeStep interpreter unfulfilled s impl) (fun s r => finishStep s name r)
      (fun result => computeProperties_congr hlocal fun entry _ => ?_)
      (fun r => Outcome.of_eq (fun _ => rfl) (computeStep_finishFeature h)) ?_
    · cases result <;> exact ⟨fun _ _ => rfl, fun _ _ => rfl⟩
    · rintro ⟨computed, _⟩ ⟨computed', _⟩ result _ hcomputed rfl
      obtain rfl : computed = computed' := hcomputed
      exact sameView_feature_step
  | injection name isPublic =>
    simp only [runStage]
    rw [hright]
    exact Outcome.refl SameView.refl _
  | pureFunction name fn =>
    simp only [runStage]
    rw [hright]
    exact Outcome.refl SameView.refl _

end Stages

end RandomArt.Pipeline
