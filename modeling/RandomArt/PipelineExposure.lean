import RandomArt.PipelineOrder
import RandomArt.NameLanguage

/-!
# What a pipeline exposes

Two runs of a pipeline that agree on the input, on the public injections and on what the
public features make visible have the same expression context at every stage, and
evaluate inner expressions in the same contexts. Their results agree as well, but for
entries whose name a private feature shares with something visible: such an entry is
left out as soon as the private feature is pruned.
-/

namespace RandomArt.Pipeline

open FallibleFold

variable {Value Err : Type} (interpreter : Interpreter Value Err)

/-- Evaluations of one place, whose inner expressions see one context. -/
def Placed (place : ℕ) (exprCtx : Context Value) (evaluations : List (Evaluation Value)) : Prop :=
  ∀ e ∈ evaluations, e.place = place ∧ (e.isInner = true → e.ctx = exprCtx)

section Evaluations

variable {interpreter} {s : RunState Value}

theorem Placed.append {place : ℕ} {exprCtx : Context Value}
    {first second : List (Evaluation Value)} (hfirst : Placed place exprCtx first)
    (hsecond : Placed place exprCtx second) : Placed place exprCtx (first ++ second) :=
  fun e he => (List.mem_append.mp he).elim (hfirst e) (hsecond e)

theorem placed_computeProperty {key : String} {property : BuilderPropertyDef Value Err}
    {value : Option Value} {evaluations : List (Evaluation Value)}
    (h : computeProperty interpreter s key property = .ok (value, evaluations)) :
    Placed s.place s.exprCtx evaluations := by
  cases property with
  | expr text =>
    obtain ⟨found, -, h⟩ := exists_of_bind_eq_ok h
    cases h
    simp [Placed]
  | indirect outer =>
    obtain ⟨innerExpr, -, h⟩ := exists_of_bind_eq_ok h
    obtain ⟨found, -, h⟩ := exists_of_bind_eq_ok h
    cases found <;> cases h <;> simp [Placed]
  | method impl =>
    obtain ⟨args, -, h⟩ := exists_of_bind_eq_ok h
    cases args with
    | none =>
      cases h
      simp [Placed]
    | some args =>
      obtain ⟨found, -, h⟩ := exists_of_bind_eq_ok h
      cases h
      simp [Placed]

theorem placed_computeProperties {properties : List (String × BuilderPropertyDef Value Err)}
    {computed : Option (List (String × Value))} {evaluations : List (Evaluation Value)}
    (h : computeProperties interpreter s properties = .ok (computed, evaluations)) :
    Placed s.place s.exprCtx evaluations := by
  induction properties generalizing computed evaluations with
  | nil =>
    cases h
    simp [Placed]
  | cons entry rest ih =>
    obtain ⟨⟨found, earlier⟩, hfound, h⟩ := exists_of_bind_eq_ok h
    cases found with
    | none =>
      cases h
      exact placed_computeProperty hfound
    | some value =>
      obtain ⟨⟨ns, more⟩, hmore, h⟩ := exists_of_bind_eq_ok h
      cases h
      exact (placed_computeProperty hfound).append (ih hmore)

end Evaluations

section TwoRuns

variable (order : List (PreparedStage Value Err))

/-- Whether a private feature has the name. -/
def PrivateName (name : String) : Prop :=
  ∃ f, .feature f ∈ order ∧ f.name = name ∧ f.publicKeys = .none

def InnerAgree (first second : List (Evaluation Value)) : Prop :=
  ∀ e ∈ first, ∀ e' ∈ second, e.isInner = true → e'.isInner = true → e.place = e'.place →
    e.ctx = e'.ctx

/-- The public side of two runs after the same stages. -/
structure Aligned (s t : RunState Value) : Prop where
  exprCtx : s.exprCtx = t.exprCtx
  place : s.place = t.place
  before_left : ∀ e ∈ s.evaluations, e.place < s.place
  before_right : ∀ e ∈ t.evaluations, e.place < t.place
  inner : InnerAgree s.evaluations t.evaluations
  pruned : ∀ name, ¬PrivateName order name → (name ∈ s.pruned ↔ name ∈ t.pruned)

/-- The two runs have made the same visible so far. -/
def SameExposures (s t : RunState Value) : Prop := s.exposures = t.exposures

variable {interpreter order} {unfulfilled : Finset String} {s t s' t' : RunState Value}

theorem sameExposures_before (stage : PreparedStage Value Err)
    (hs : runStage interpreter unfulfilled s stage = .ok s')
    (ht : runStage interpreter unfulfilled t stage = .ok t') (h : SameExposures s' t') :
    SameExposures s t := by
  cases stage with
  | feature f =>
    obtain ⟨computed, evaluations, -, rfl⟩ := exists_of_runFeature interpreter hs
    obtain ⟨computed', evaluations', -, rfl⟩ := exists_of_runFeature interpreter ht
    unfold SameExposures at *
    by_cases hprivate : f.publicKeys = .none
    · cases computed <;> cases computed' <;> simpa [finishFeature, hprivate] using h
    · cases computed <;> cases computed' <;> simp [finishFeature, hprivate] at h <;>
        first | exact h | exact h.1
  | step name impl =>
    obtain ⟨result, -, rfl⟩ := exists_of_runStep interpreter hs
    obtain ⟨result', -, rfl⟩ := exists_of_runStep interpreter ht
    cases result <;> cases result' <;> exact h
  | injection name isPublic =>
    cases hs
    cases ht
    exact h
  | pureFunction name fn =>
    cases hs
    cases ht
    exact h

theorem InnerAgree.append {first second more more' : List (Evaluation Value)} {place : ℕ}
    {exprCtx : Context Value} (h : InnerAgree first second)
    (hfirst : ∀ e ∈ first, e.place < place) (hsecond : ∀ e ∈ second, e.place < place)
    (hmore : Placed place exprCtx more) (hmore' : Placed place exprCtx more') :
    InnerAgree (first ++ more) (second ++ more') := by
  intro e he e' he' hinner hinner' hplace
  rcases List.mem_append.mp he with hold | hnew <;> rcases List.mem_append.mp he' with hold' | hnew'
  · exact h e hold e' hold' hinner hinner' hplace
  · have := hfirst e hold
    have := (hmore' e' hnew').1
    omega
  · have := (hmore e hnew).1
    have := hsecond e' hold'
    omega
  · rw [(hmore e hnew).2 hinner, (hmore' e' hnew').2 hinner']

theorem aligned_finishStep {name : String} {result result' : Option Value}
    (h : Aligned order s t) :
    Aligned order (finishStep s name result) (finishStep t name result') := by
  have hleft : ∀ e ∈ s.evaluations, e.place < s.place + 1 := fun e he =>
    (h.before_left e he).trans (Nat.lt_succ_self _)
  have hright : ∀ e ∈ t.evaluations, e.place < t.place + 1 := fun e he =>
    (h.before_right e he).trans (Nat.lt_succ_self _)
  cases result <;> cases result' <;>
    exact ⟨h.exprCtx, congrArg (· + 1) h.place, hleft, hright, h.inner, h.pruned⟩

private theorem before_append {evaluations more : List (Evaluation Value)} {place : ℕ}
    {exprCtx : Context Value} (h : ∀ e ∈ evaluations, e.place < place)
    (hmore : Placed place exprCtx more) : ∀ e ∈ evaluations ++ more, e.place < place + 1 := by
  intro e he
  rcases List.mem_append.mp he with hold | hnew
  · exact (h e hold).trans (Nat.lt_succ_self _)
  · exact (hmore e hnew).1 ▸ Nat.lt_succ_self _

theorem aligned_finishFeature {f : RuntimeFeature Value Err} (hf : .feature f ∈ order)
    (h : Aligned order s t) (hexposures : SameExposures s t)
    {computed computed' : Option (List (String × Value))}
    {evaluations evaluations' : List (Evaluation Value)}
    (hplaced : Placed s.place s.exprCtx evaluations)
    (hplaced' : Placed t.place t.exprCtx evaluations')
    (hsame : SameExposures (finishFeature interpreter s f evaluations computed)
      (finishFeature interpreter t f evaluations' computed')) :
    Aligned order (finishFeature interpreter s f evaluations computed)
      (finishFeature interpreter t f evaluations' computed') := by
  have hexposure : exposure interpreter f computed = exposure interpreter f computed' := by
    by_cases hprivate : f.publicKeys = .none
    · rw [exposure_of_private hprivate, exposure_of_private hprivate]
    · unfold SameExposures at hexposures hsame
      rw [finishFeature_exposures hprivate, finishFeature_exposures hprivate, hexposures] at hsame
      simpa using hsame
  have hbefore_right : ∀ e ∈ t.evaluations, e.place < s.place := fun e he =>
    h.place ▸ h.before_right e he
  rw [← h.place, ← h.exprCtx] at hplaced'
  constructor
  · rw [finishFeature_exprCtx, finishFeature_exprCtx, h.exprCtx, hexposure]
  · rw [finishFeature_place, finishFeature_place, h.place]
  · rw [finishFeature_place, finishFeature_evaluations]
    exact before_append h.before_left hplaced
  · rw [finishFeature_place, finishFeature_evaluations, ← h.place]
    exact before_append hbefore_right hplaced'
  · rw [finishFeature_evaluations, finishFeature_evaluations]
    exact h.inner.append h.before_left hbefore_right hplaced hplaced'
  · intro name hname
    rw [mem_finishFeature_pruned, mem_finishFeature_pruned, h.pruned name hname]
    refine or_congr_right (and_congr_right fun heq => ?_)
    have hpublic : f.publicKeys ≠ .none := fun hprivate => hname ⟨f, hf, heq.symm, hprivate⟩
    rw [← exposure_eq_none hpublic, ← exposure_eq_none hpublic, hexposure]

/-- One stage keeps two runs aligned when it makes the same visible in both. -/
theorem aligned_runStage {stage : PreparedStage Value Err} (hstage : stage ∈ order)
    (hs : runStage interpreter unfulfilled s stage = .ok s')
    (ht : runStage interpreter unfulfilled t stage = .ok t') (hsame : SameExposures s' t')
    (h : Aligned order s t) : Aligned order s' t' := by
  have hbefore := sameExposures_before stage hs ht hsame
  cases stage with
  | feature f =>
    obtain ⟨computed, evaluations, hcompute, rfl⟩ := exists_of_runFeature interpreter hs
    obtain ⟨computed', evaluations', hcompute', rfl⟩ := exists_of_runFeature interpreter ht
    exact aligned_finishFeature hstage h hbefore (placed_computeProperties hcompute)
      (placed_computeProperties hcompute') hsame
  | step name impl =>
    obtain ⟨result, -, rfl⟩ := exists_of_runStep interpreter hs
    obtain ⟨result', -, rfl⟩ := exists_of_runStep interpreter ht
    exact aligned_finishStep h
  | injection name isPublic =>
    cases hs
    cases ht
    exact h
  | pureFunction name fn =>
    cases hs
    cases ht
    exact h

end TwoRuns

section Seeds

variable {interpreter} {injections injections' : Context Value}

theorem exprCtx_foldl_seedStage {order : List (PreparedStage Value Err)}
    (hpublic : ∀ name, .injection name true ∈ order →
      find interpreter injections name = find interpreter injections' name)
    {s t : RunState Value} (h : s.exprCtx = t.exprCtx) :
    (order.foldl (seedStage interpreter injections) s).exprCtx =
      (order.foldl (seedStage interpreter injections') t).exprCtx := by
  induction order generalizing s t with
  | nil => exact h
  | cons stage rest ih =>
    refine ih (fun name hname => hpublic name (List.mem_cons_of_mem _ hname)) ?_
    cases stage with
    | injection name isPublic =>
      cases isPublic with
      | false => exact h
      | true => simp only [seedStage, if_true, h, hpublic name List.mem_cons_self]
    | pureFunction name fn => simp only [seedStage, h]
    | feature f => exact h
    | step name impl => exact h

theorem aligned_seeded {built : Built Value Err} {initial : Context Value}
    (hpublic : ∀ name, .injection name true ∈ built.executionOrder →
      find interpreter injections name = find interpreter injections' name) :
    Aligned built.executionOrder (built.seeded interpreter injections initial)
      (built.seeded interpreter injections' initial) := by
  have hs := sameWork_foldl_seedStage interpreter injections built.executionOrder
    (built.unseeded interpreter initial)
  have ht := sameWork_foldl_seedStage interpreter injections' built.executionOrder
    (built.unseeded interpreter initial)
  refine ⟨exprCtx_foldl_seedStage hpublic rfl, hs.place.trans ht.place.symm, ?_, ?_, ?_, ?_⟩
  · rw [Built.seeded, hs.evaluations]
    simp [Built.unseeded]
  · rw [Built.seeded, ht.evaluations]
    simp [Built.unseeded]
  · rw [Built.seeded, Built.seeded, hs.evaluations, ht.evaluations]
    simp [Built.unseeded, InnerAgree]
  · intro name _
    rw [Built.seeded, Built.seeded, hs.pruned, ht.pruned]

end Seeds

section Results

variable (built : Built Value Err)

/-- Whether a name is visible from the start or through a feature. -/
def VisibleName (initial : Context Value) (name : String) : Prop :=
  (built.mergedInitial interpreter initial name).isSome ∨
    .injection name true ∈ built.executionOrder ∨
    (∃ fn, .pureFunction name fn ∈ built.executionOrder) ∨
    (∃ f, .feature f ∈ built.executionOrder ∧ f.name = name ∧ f.publicKeys ≠ .none) ∨
    (interpreter.inherited name).isSome

/-- Where the names come from that a run has made visible or returned from steps. -/
structure Known (initial : Context Value) (s : RunState Value) : Prop where
  exprCtx : ∀ name, (s.exprCtx name).isSome → VisibleName interpreter built initial name
  stepResultCtx : ∀ name, (s.stepResultCtx name).isSome →
    ∃ impl, .step name impl ∈ built.executionOrder
  prunedSteps : ∀ name ∈ s.prunedSteps, ∃ impl, .step name impl ∈ built.executionOrder

variable {interpreter built} {initial injections : Context Value} {s t : RunState Value}

theorem known_seeded :
    Known interpreter built initial (built.seeded interpreter injections initial) := by
  have hs := sameWork_foldl_seedStage interpreter injections built.executionOrder
    (built.unseeded interpreter initial)
  constructor
  · intro name hname
    rw [Built.seeded, isSome_exprCtx_foldl_seedStage] at hname
    rcases hname with hinitial | hinjection | hfunction
    · exact Or.inl hinitial
    · exact Or.inr (Or.inl hinjection)
    · exact Or.inr (Or.inr (Or.inl hfunction))
  · rw [Built.seeded, hs.stepResultCtx]
    simp [Built.unseeded]
  · rw [Built.seeded, hs.prunedSteps]
    simp [Built.unseeded]

theorem known_runStage {stage : PreparedStage Value Err} (hstage : stage ∈ built.executionOrder)
    (hs : runStage interpreter built.unfulfilled s stage = .ok t)
    (h : Known interpreter built initial s) : Known interpreter built initial t := by
  cases stage with
  | feature f =>
    obtain ⟨computed, evaluations, -, rfl⟩ := exists_of_runFeature interpreter hs
    refine ⟨fun name hname => ?_, ?_, ?_⟩
    · rw [finishFeature_exprCtx] at hname
      by_cases heq : name = f.name
      · by_cases hprivate : f.publicKeys = .none
        · rw [exposure_of_private hprivate] at hname
          exact h.exprCtx name hname
        · exact Or.inr (Or.inr (Or.inr (Or.inl ⟨f, hstage, heq.symm, hprivate⟩)))
      · rw [putResult_of_ne heq] at hname
        exact h.exprCtx name hname
    · cases computed <;> exact h.stepResultCtx
    · cases computed <;> exact h.prunedSteps
  | step name impl =>
    obtain ⟨result, -, rfl⟩ := exists_of_runStep interpreter hs
    refine ⟨?_, fun other hother => ?_, fun other hother => ?_⟩
    · cases result <;> exact h.exprCtx
    · by_cases heq : other = name
      · exact ⟨impl, heq ▸ hstage⟩
      · cases result with
        | none => exact h.stepResultCtx other hother
        | some value =>
          simp only [finishStep, Function.update_of_ne heq] at hother
          exact h.stepResultCtx other hother
    · by_cases heq : other = name
      · exact ⟨impl, heq ▸ hstage⟩
      · cases result with
        | none => exact h.prunedSteps other ((Finset.mem_insert.mp hother).resolve_left heq)
        | some value => exact h.prunedSteps other hother
  | injection name isPublic =>
    cases hs
    exact h
  | pureFunction name fn =>
    cases hs
    exact h

theorem known_stateAfter
    (h : built.stateAfter interpreter built.executionOrder injections initial = .ok s) :
    Known interpreter built initial s :=
  runAll_keeps (fun _ hstage _ _ hstep => known_runStage hstage hstep) h known_seeded

theorem Known.stepResultCtx_eq_none (h : Known interpreter built initial s) {name : String}
    (hstep : ∀ impl, .step name impl ∉ built.executionOrder) : s.stepResultCtx name = none :=
  Option.not_isSome_iff_eq_none.mp fun hsome => (h.stepResultCtx name hsome).elim hstep

theorem Known.find_eq_none (h : Known interpreter built initial s) {name : String}
    (hstep : ∀ impl, .step name impl ∉ built.executionOrder)
    (hhidden : ¬VisibleName interpreter built initial name) :
    find interpreter s.resultCtx name = none := by
  have hexpr : s.exprCtx name = none :=
    Option.not_isSome_iff_eq_none.mp fun hsome => hhidden (h.exprCtx _ hsome)
  have hinherited : interpreter.inherited name = none :=
    Option.not_isSome_iff_eq_none.mp fun hsome =>
      hhidden (Or.inr (Or.inr (Or.inr (Or.inr hsome))))
  simp [find, RunState.resultCtx, h.stepResultCtx_eq_none hstep, hexpr, hinherited]

theorem selectResult_eq_none {selector : SelectorPath}
    (h : find interpreter s.resultCtx selector.top = none) :
    built.selectResult interpreter s selector = .ok none := by
  rw [Built.selectResult]
  split_ifs
  · rfl
  · cases selector with
    | whole name => exact congrArg Except.ok h
    | part name key =>
      simp only [SelectorPath.top] at h
      simp only [resolvePath, h]

/-- An entry that selects no step and whose name is not at once visible and that of a
private feature finds the same in aligned runs. -/
theorem selectResult_eq (h : Aligned built.executionOrder s t)
    (hs : Known interpreter built initial s) (ht : Known interpreter built initial t)
    {selector : SelectorPath}
    (hstep : ∀ impl, .step selector.top impl ∉ built.executionOrder)
    (hshared : ¬(PrivateName built.executionOrder selector.top ∧
      VisibleName interpreter built initial selector.top)) :
    built.selectResult interpreter s selector = built.selectResult interpreter t selector := by
  have hnot : ∀ {r : RunState Value}, Known interpreter built initial r →
      selector.top ∉ r.prunedSteps := fun hr hmem => (hr.prunedSteps _ hmem).elim hstep
  by_cases hprivate : PrivateName built.executionOrder selector.top
  · have hhidden : ¬VisibleName interpreter built initial selector.top := fun hv =>
      hshared ⟨hprivate, hv⟩
    rw [selectResult_eq_none (hs.find_eq_none hstep hhidden),
      selectResult_eq_none (ht.find_eq_none hstep hhidden)]
  · have hfind : find interpreter s.resultCtx selector.top =
        find interpreter t.resultCtx selector.top := by
      simp only [find, RunState.resultCtx, hs.stepResultCtx_eq_none hstep,
        ht.stepResultCtx_eq_none hstep, h.exprCtx]
    unfold Built.selectResult
    simp only [h.pruned _ hprivate, hnot hs, hnot ht, or_false, resolvePath_congr hfind]

end Results

/-- Two completing runs that agree on the input, the public injections and what the public
features make visible have the same expression context at every stage, evaluate inner
expressions in the same contexts, and return the same for each entry that selects no step
and whose name is not at once visible and that of a private feature. -/
theorem public_view_agrees {interpreter : Interpreter Value Err} {built : Built Value Err}
    {injections injections' initial output output' : Context Value} {s s' : RunState Value}
    (hpublic : ∀ name, .injection name true ∈ built.executionOrder →
      find interpreter injections name = find interpreter injections' name)
    (hrun : built.run interpreter injections initial = .ok (output, s))
    (hrun' : built.run interpreter injections' initial = .ok (output', s'))
    (hsame : SameExposures s s') :
    (∀ before after, built.executionOrder = before ++ after → ∀ t t',
      built.stateAfter interpreter before injections initial = .ok t →
      built.stateAfter interpreter before injections' initial = .ok t' → t.exprCtx = t'.exprCtx) ∧
    InnerAgree s.evaluations s'.evaluations ∧
    ∀ selectors, built.resultSelectors = .map selectors → ∀ entry ∈ selectors.entries,
      (∀ impl, .step entry.2.top impl ∉ built.executionOrder) →
      ¬(PrivateName built.executionOrder entry.2.top ∧
        VisibleName interpreter built initial entry.2.top) →
      output entry.1 = output' entry.1 := by
  obtain ⟨hloop, hresults⟩ := exists_of_run hrun
  obtain ⟨hloop', hresults'⟩ := exists_of_run hrun'
  have halign : ∀ before after t t', built.executionOrder = before ++ after →
      built.stateAfter interpreter before injections initial = .ok t →
      built.stateAfter interpreter before injections' initial = .ok t' → SameExposures t t' →
      Aligned built.executionOrder t t' := fun before after t t' hsplit ht ht' hagree =>
    runAll_related (fun stage _ _ _ _ => sameExposures_before stage)
      (fun stage hstage _ _ _ _ hstep hstep' hafter =>
        aligned_runStage (hsplit ▸ List.mem_append_left _ hstage) hstep hstep' hafter)
      ht ht' hagree (aligned_seeded hpublic)
  have hfinal := halign _ [] s s' (List.append_nil _).symm hloop hloop' hsame
  refine ⟨fun before after hsplit t t' ht ht' => ?_, hfinal.inner, ?_⟩
  · have hrest : runAll (runStage interpreter built.unfulfilled) after t = .ok s := by
      rw [← runAll_append_ok ht, ← hsplit]
      exact hloop
    have hrest' : runAll (runStage interpreter built.unfulfilled) after t' = .ok s' := by
      rw [← runAll_append_ok ht', ← hsplit]
      exact hloop'
    have hagree : SameExposures t t' := runAll_agree_start
      (fun stage _ _ _ _ => sameExposures_before stage) hrest hrest' hsame
    exact (halign before after t t' hsplit ht ht' hagree).exprCtx
  · intro selectors hselectors entry hentry hstep hshared
    simp only [Built.results, hselectors] at hresults hresults'
    have hfound := (collect_eq_ok hresults selectors.nodup fun _ _ => rfl).1 entry hentry
    have hfound' := (collect_eq_ok hresults' selectors.nodup fun _ _ => rfl).1 entry hentry
    rw [selectResult_eq hfinal (known_stateAfter hloop) (known_stateAfter hloop') hstep hshared,
      hfound'] at hfound
    exact (Except.ok.inj hfound).symm

section NameLanguage

def withSecret (value : NameValue) : Context NameValue := fun name =>
  if name = "secret" then some value else none

/-- A feature whose public key shows the input and whose private key holds the secret. -/
def splitPipeline : Built NameValue String :=
  plan [.initialDefaults "input" ⟨[], List.nodup_nil⟩, .injection "secret" false,
    addFeature "both" ⟨[("a", .expr "input")], List.nodup_singleton "a"⟩
      ⟨[("b", .expr "secret")], List.nodup_singleton "b"⟩,
    .feature ⟨"out", .all, ⟨[("s", .indirect "both")], List.nodup_singleton "s"⟩⟩]
    (.map ⟨[("a", .part "both" "a")], List.nodup_singleton "a"⟩)

theorem public_view_agrees_split : ∃ output s output' s',
    splitPipeline.run nameLanguage (withSecret .undefined) (fun _ => none) = .ok (output, s) ∧
    splitPipeline.run nameLanguage (withSecret .method) (fun _ => none) = .ok (output', s') ∧
    InnerAgree s.evaluations s'.evaluations ∧ output "a" = output' "a" := by
  have hpublic : ∀ name, .injection name true ∈ splitPipeline.executionOrder →
      find nameLanguage (withSecret .undefined) name =
        find nameLanguage (withSecret .method) name := by
    simp [splitPipeline, plan, executionOrder, List.filterMap_cons, slot, addFeature, fulfillment]
  obtain ⟨output, s, output', s', hrun, hrun', hsame⟩ : ∃ output s output' s',
      splitPipeline.run nameLanguage (withSecret .undefined) (fun _ => none) = .ok (output, s) ∧
      splitPipeline.run nameLanguage (withSecret .method) (fun _ => none) = .ok (output', s') ∧
      SameExposures s s' := ⟨_, _, _, _, rfl, rfl, rfl⟩
  obtain ⟨-, hinner, hresults⟩ := public_view_agrees hpublic hrun hrun' hsame
  refine ⟨output, s, output', s', hrun, hrun', hinner,
    hresults _ rfl ("a", .part "both" "a") List.mem_cons_self ?_ ?_⟩
  · simp [splitPipeline, plan, executionOrder, List.filterMap_cons, slot, addFeature, fulfillment]
  · simp [splitPipeline, plan, executionOrder, List.filterMap_cons, slot, addFeature, fulfillment,
      PrivateName, SelectorPath.top]

/-- A pure function under the name of a private feature that needs a key of the secret. -/
def sharedPipeline : Built NameValue String :=
  plan [.pureFunction "p" .method, .injection "secret" false,
    .feature ⟨"p", .none, ⟨[("x", .method (firstOf (.part "secret" "x")))],
      List.nodup_singleton "x"⟩⟩]
    (.map ⟨[("p", .whole "p")], List.nodup_singleton "p"⟩)

/-- A private feature that is pruned takes a visible function of its name out of the results. -/
theorem pruned_private_hides_function : ∃ output s output' s',
    sharedPipeline.run nameLanguage (withSecret (.object [("x", .undefined)])) (fun _ => none) =
      .ok (output, s) ∧
    sharedPipeline.run nameLanguage (withSecret (.object [])) (fun _ => none) =
      .ok (output', s') ∧
    (∀ name, .injection name true ∉ sharedPipeline.executionOrder) ∧
    (∀ name impl, .step name impl ∉ sharedPipeline.executionOrder) ∧
    SameExposures s s' ∧ output "p" ≠ output' "p" := by
  refine ⟨_, _, _, _, rfl, rfl, ?_, ?_, rfl, ?_⟩
  · simp [sharedPipeline, plan, executionOrder, slot, fulfillment]
  · simp [sharedPipeline, plan, executionOrder, slot, fulfillment]
  · exact Option.some_ne_none NameValue.method

end NameLanguage

end RandomArt.Pipeline
