import RandomArt.PipelineCommute
import RandomArt.PipelineExposure
import RandomArt.PipelineNames
import RandomArt.NameLanguage

/-!
# Declaring a virtual that is already concrete

An extra virtual of a name that an earlier stage has made concrete is to change nothing.
Building treats it like any other virtual: without a feature of the name it counts as
unfulfilled, and with one it takes that feature into its own slot. The requests agree when
nothing consults the name, or what the feature is taken past is independent of it.
-/

namespace RandomArt.Pipeline

open FallibleFold

variable {Value Err : Type} (interpreter : Interpreter Value Err) (roots : Value → Set String)

/-- The same results from states that prune and contain the same. -/
def SameResult (r r' : Context Value × RunState Value) : Prop := r.1 = r'.1 ∧ SameView r.2 r'.2

/-- Two requests that both fail to build, both reject, or both return the same. -/
def SameRequest (r r' : Except (BuildError Err) (Except Err (Context Value × RunState Value))) :
    Prop :=
  Outcome (Outcome SameResult) r r'

/-- The same pipeline with a name counted among the unfulfilled virtuals. -/
def Built.declare (built : Built Value Err) (name : String) : Built Value Err :=
  { built with unfulfilled := insert name built.unfulfilled }

/-- Nothing consults whether a name without a feature is fulfilled: each step that selects
it selects an unfulfilled virtual, and each result that starts from it finds nothing. -/
structure Unconsulted (stages : List (RuntimeStage Value Err))
    (resultSelectors : ResultSelectors Value Err) (initial : Context Value) (name : String) :
    Prop where
  steps : ∀ step impl, .step step impl ∈ stages →
    (∃ selector ∈ impl.selectors, selector.top = name) →
      ∃ selector ∈ impl.selectors, selector.top ∈ unfulfilled stages
  results : ∀ selectors, resultSelectors = .map selectors → ∀ entry ∈ selectors.entries,
    entry.2.top = name → (∀ impl, .step name impl ∉ stages) ∧
      ¬VisibleName interpreter (plan stages resultSelectors) initial name

/-- What stands between a slot of a feature and the place between two parts of an order. -/
inductive Between (early late : List (PreparedStage Value Err)) (f : RuntimeFeature Value Err)
    (between : List (PreparedStage Value Err)) : Prop where
  | earlier (pre : List (PreparedStage Value Err)) (h : early = pre ++ .feature f :: between)
  | later (post : List (PreparedStage Value Err)) (h : late = between ++ .feature f :: post)

/-- The feature of a name stands where only stages independent of it are between. -/
def Near (before after : List (RuntimeStage Value Err)) (f : RuntimeFeature Value Err) : Prop :=
  ∃ between, Between (before.filterMap (slot (before ++ after)))
      (after.filterMap (slot (before ++ after))) f between ∧
    ∀ stage ∈ between, Independent interpreter roots f stage

/-- When an extra virtual of a name between two parts of a pipeline changes nothing. -/
inductive HarmlessVirtual (before after : List (RuntimeStage Value Err))
    (resultSelectors : ResultSelectors Value Err) (initial : Context Value) (name : String) :
    Prop where
  | declared (hfeature : ∀ f, .feature f ∈ before ++ after → f.name ≠ name)
      (hvirtual : .virtual name ∈ before ++ after)
  | unconsulted (hfeature : ∀ f, .feature f ∈ before ++ after → f.name ≠ name)
      (h : Unconsulted interpreter (before ++ after) resultSelectors initial name)
  | moved (f : RuntimeFeature Value Err) (hvirtual : .virtual name ∉ before ++ after)
      (hfeature : (features (before ++ after)).filter (fun g => g.name = name) = [f])
      (hnear : Near interpreter roots before after f)
  | repeated (f : RuntimeFeature Value Err)
      (hfulfilled : fulfillment (before ++ after) name = some f)
      (hself : Ignores interpreter roots f name f.publicKeys)
      (hnear : Near interpreter roots before after f)

section Requests

variable {interpreter}

theorem compile_ok_iff {order : List (PreparedStage Value Err)} :
    order.forM (compileStage interpreter) = .ok () ↔
      ∀ stage ∈ order, compileStage interpreter stage = .ok () := by
  induction order with
  | nil => exact ⟨fun _ _ h => absurd h List.not_mem_nil, fun _ => rfl⟩
  | cons stage rest ih =>
    rw [List.forall_mem_cons, ← ih]
    change (compileStage interpreter stage).bind (fun _ => rest.forM (compileStage interpreter)) =
      _ ↔ _
    rcases compileStage interpreter stage with error | _ <;> simp [Except.bind]

theorem sameRequest_of_run {stages stages' : List (RuntimeStage Value Err)}
    {resultSelectors : ResultSelectors Value Err} {injections initial : Context Value}
    (hmem : ∀ stage, stage ∈ executionOrder stages' ↔ stage ∈ executionOrder stages)
    (hrun : Outcome SameResult
      ((plan stages' resultSelectors).run interpreter injections initial)
      ((plan stages resultSelectors).run interpreter injections initial)) :
    SameRequest (request interpreter stages' resultSelectors injections initial)
      (request interpreter stages resultSelectors injections initial) := by
  have hcompile : (executionOrder stages').forM (compileStage interpreter) = .ok () ↔
      (executionOrder stages).forM (compileStage interpreter) = .ok () := by
    rw [compile_ok_iff, compile_ok_iff]
    exact forall_congr' fun stage => by rw [hmem]
  unfold SameRequest request buildPipeline
  rcases h' : (executionOrder stages').forM (compileStage interpreter) with error | _ <;>
    rcases h : (executionOrder stages).forM (compileStage interpreter) with error' | _
  · trivial
  · rw [h, h'] at hcompile
    simp at hcompile
  · rw [h, h'] at hcompile
    simp at hcompile
  · exact hrun

theorem run_eq_bind {built : Built Value Err} {injections initial : Context Value} :
    built.run interpreter injections initial =
      (built.stateAfter interpreter built.executionOrder injections initial).bind fun s =>
        (built.results interpreter s).map fun output => (output, s) := by
  rw [Built.run]
  rcases built.stateAfter interpreter built.executionOrder injections initial with error | s
  · rfl
  · simp only [bind, Except.bind]
    cases built.results interpreter s <;> rfl

theorem results_congr {built built' : Built Value Err} {s t : RunState Value}
    (hunfulfilled : built'.unfulfilled = built.unfulfilled)
    (hselectors : built'.resultSelectors = built.resultSelectors) (h : SameView s t) :
    built'.results interpreter s = built.results interpreter t := by
  have hctx : s.resultCtx = t.resultCtx := by
    funext name
    rw [RunState.resultCtx, RunState.resultCtx, h.stepResultCtx, h.exprCtx]
  have hselect : built'.selectResult interpreter s = built.selectResult interpreter t := by
    funext selector
    simp only [Built.selectResult, hunfulfilled, h.pruned, h.prunedSteps, hctx]
  simp only [Built.results, Built.collect, hselectors, hselect, hctx]

end Requests

section Names

variable {name other : String} {before after : List (RuntimeStage Value Err)}

theorem mem_with_virtual {stage : RuntimeStage Value Err} :
    stage ∈ before ++ .virtual name :: after ↔ stage = .virtual name ∨ stage ∈ before ++ after := by
  simp only [List.mem_append, List.mem_cons]
  tauto

theorem features_with_virtual :
    features (before ++ .virtual name :: after) = features (before ++ after) := by
  simp [features]

theorem fulfillment_with_virtual (h : other ≠ name ∨ .virtual name ∈ before ++ after) :
    fulfillment (before ++ .virtual name :: after) other = fulfillment (before ++ after) other := by
  have hmem : other ∈ virtualNames (before ++ .virtual name :: after) ↔
      other ∈ virtualNames (before ++ after) := by
    rw [mem_virtualNames, mem_virtualNames, mem_with_virtual]
    grind
  simp only [fulfillment, features_with_virtual, hmem]

theorem namespaceDefaults_with_virtual :
    namespaceDefaults (before ++ .virtual name :: after) = namespaceDefaults (before ++ after) := by
  simp [namespaceDefaults, collectDefaults]

theorem slot_congr {stages stages' : List (RuntimeStage Value Err)}
    (h : fulfillment stages' = fulfillment stages) : slot stages' = slot stages := by
  funext stage
  cases stage <;> simp only [slot, h]

theorem mem_unfulfilled_with_virtual :
    other ∈ unfulfilled (before ++ .virtual name :: after) ↔
      other ∈ unfulfilled (before ++ after) ∨
        other = name ∧ ∀ f, .feature f ∈ before ++ after → f.name ≠ name := by
  rw [mem_unfulfilled, mem_unfulfilled]
  simp only [mem_with_virtual]
  grind

theorem unfulfilled_with_feature {f : RuntimeFeature Value Err}
    (hf : .feature f ∈ before ++ after) (hname : f.name = name) :
    unfulfilled (before ++ .virtual name :: after) = unfulfilled (before ++ after) := by
  ext other
  rw [mem_unfulfilled_with_virtual]
  exact or_iff_left fun h => h.2 f hf hname

theorem executionOrder_without_feature
    (hfeature : ∀ f, .feature f ∈ before ++ after → f.name ≠ name) :
    executionOrder (before ++ .virtual name :: after) = executionOrder (before ++ after) := by
  have habsent : ∀ {stages : List (RuntimeStage Value Err)},
      features stages = features (before ++ after) → fulfillment stages name = none := by
    intro stages hfeatures
    apply Option.not_isSome_iff_eq_none.mp
    intro hsome
    obtain ⟨-, f, hf, hname⟩ := isSome_fulfillment.mp hsome
    rw [← mem_features, hfeatures, mem_features] at hf
    exact hfeature f hf hname
  have hsame : fulfillment (before ++ .virtual name :: after) = fulfillment (before ++ after) := by
    funext other
    by_cases hother : other = name
    · rw [hother, habsent features_with_virtual, habsent rfl]
    · exact fulfillment_with_virtual (Or.inl hother)
  rw [executionOrder, executionOrder, slot_congr hsame, List.filterMap_append,
    List.filterMap_append, List.filterMap_cons_none (by rw [slot, habsent rfl]; rfl)]

theorem unfulfilled_without_feature
    (hfeature : ∀ f, .feature f ∈ before ++ after → f.name ≠ name) :
    unfulfilled (before ++ .virtual name :: after) =
      insert name (unfulfilled (before ++ after)) := by
  ext other
  rw [Finset.mem_insert, mem_unfulfilled_with_virtual]
  grind

end Names

section Unconsulted

variable {interpreter} {stages : List (RuntimeStage Value Err)} {name : String}
  {resultSelectors : ResultSelectors Value Err} {injections initial : Context Value}
  (h : Unconsulted interpreter stages resultSelectors initial name)
include h

theorem Unconsulted.runStage (s : RunState Value) {stage : PreparedStage Value Err}
    (hstage : stage ∈ executionOrder stages) :
    runStage interpreter (insert name (unfulfilled stages)) s stage =
      Pipeline.runStage interpreter (unfulfilled stages) s stage := by
  cases stage with
  | step step impl =>
    have hselectable : selectable (insert name (unfulfilled stages)) s.pruned impl.selectors =
        selectable (unfulfilled stages) s.pruned impl.selectors := by
      rw [Bool.eq_iff_iff, selectable, selectable, List.all_eq_true, List.all_eq_true]
      by_cases hconsulted : ∃ selector ∈ impl.selectors, selector.top = name
      · obtain ⟨selector, hselector, hvirtual⟩ :=
          h.steps step impl (runtime_mem_of_mem hstage) hconsulted
        constructor
        · exact fun hall => absurd (hall selector hselector) (by simp [hvirtual])
        · exact fun hall => absurd (hall selector hselector) (by simp [hvirtual])
      · apply forall₂_congr
        intro selector hselector
        have hne : selector.top ≠ name := fun heq => hconsulted ⟨selector, hselector, heq⟩
        simp [hne]
    simp only [Pipeline.runStage, runStep, computeStep, hselectable]
  | _ => rfl

theorem Unconsulted.selectResult {s : RunState Value}
    (hs : Known interpreter (plan stages resultSelectors) initial s)
    {selectors : Record SelectorPath} (hselectors : resultSelectors = .map selectors)
    {entry : String × SelectorPath} (hentry : entry ∈ selectors.entries) :
    ((plan stages resultSelectors).declare name).selectResult interpreter s entry.2 =
      (plan stages resultSelectors).selectResult interpreter s entry.2 := by
  by_cases htop : entry.2.top = name
  · obtain ⟨hstep, hhidden⟩ := h.results selectors hselectors entry hentry htop
    have hfind : find interpreter s.resultCtx entry.2.top = none :=
      htop ▸ hs.find_eq_none (fun impl hmem => hstep impl (runtime_mem_of_mem hmem)) hhidden
    rw [selectResult_eq_none hfind, selectResult_eq_none hfind]
  · exact if_congr (by simp [Built.declare, htop]) rfl rfl

/-- A run does not tell whether an unconsulted name is fulfilled. -/
theorem Unconsulted.run :
    ((plan stages resultSelectors).declare name).run interpreter injections initial =
      (plan stages resultSelectors).run interpreter injections initial := by
  have hstate : ((plan stages resultSelectors).declare name).stateAfter interpreter
      (executionOrder stages) injections initial =
      (plan stages resultSelectors).stateAfter interpreter (executionOrder stages) injections
        initial :=
    runAll_congr (fun s _ hstage => h.runStage s hstage) _
  have hresults : ∀ s, (plan stages resultSelectors).stateAfter interpreter
      (executionOrder stages) injections initial = .ok s →
      ((plan stages resultSelectors).declare name).results interpreter s =
        (plan stages resultSelectors).results interpreter s := by
    intro s hs
    cases hselectors : resultSelectors with
    | function fn => rfl
    | map selectors =>
      subst hselectors
      refine runAll_congr (fun output entry hentry => ?_) _
      rw [h.selectResult (known_stateAfter hs) rfl hentry]
  rw [run_eq_bind, run_eq_bind]
  change (((plan stages resultSelectors).declare name).stateAfter interpreter
    (executionOrder stages) injections initial).bind _ =
      ((plan stages resultSelectors).stateAfter interpreter (executionOrder stages) injections
        initial).bind _
  rw [hstate]
  rcases hloop : (plan stages resultSelectors).stateAfter interpreter (executionOrder stages)
    injections initial with error | s
  · rfl
  · simp only [Except.bind, hresults s hloop]

end Unconsulted

section Slots

variable {name : String} {before after : List (RuntimeStage Value Err)}
  {f : RuntimeFeature Value Err}

def PreparedStage.isFeatureOf (name : String) : PreparedStage Value Err → Bool
  | .feature g => g.name = name
  | _ => false

/-- What a virtual of a name takes out of the slots: the features of the name. -/
theorem filterMap_slot_with_virtual (hvirtual : .virtual name ∉ before ++ after)
    (hf : .feature f ∈ before ++ after) (hname : f.name = name)
    {part : List (RuntimeStage Value Err)} (hpart : ∀ stage ∈ part, stage ∈ before ++ after) :
    part.filterMap (slot (before ++ .virtual name :: after)) =
      (part.filterMap (slot (before ++ after))).filter fun stage => !stage.isFeatureOf name := by
  rw [List.filter_filterMap]
  apply List.filterMap_congr
  intro stage hstage
  cases stage with
  | virtual other =>
    have hother : other ≠ name := fun heq => hvirtual (heq ▸ hpart _ hstage)
    simp only [slot, fulfillment_with_virtual (Or.inl hother)]
    rcases hfulfilled : fulfillment (before ++ after) other with _ | g
    · rfl
    · have hg := (fulfillment_eq_some hfulfilled).2.2
      simp [PreparedStage.isFeatureOf, hg, hother, Option.filter]
  | feature g =>
    by_cases hg : g.name = name
    · have hsome : (fulfillment (before ++ .virtual name :: after) g.name).isSome :=
        isSome_fulfillment.mpr
          ⟨hg ▸ by simp, f, mem_with_virtual.mpr (Or.inr hf), hname.trans hg.symm⟩
      rw [slot, if_pos hsome, slot]
      split_ifs <;> simp [PreparedStage.isFeatureOf, hg, Option.filter]
    · simp only [slot, fulfillment_with_virtual (Or.inl hg)]
      split_ifs <;> simp [PreparedStage.isFeatureOf, hg, Option.filter]
  | _ => rfl

/-- Without a virtual of their name all features stand in the execution order. -/
theorem filter_isFeatureOf_executionOrder {stages : List (RuntimeStage Value Err)}
    (hvirtual : .virtual name ∉ stages) :
    (executionOrder stages).filter (·.isFeatureOf name) =
      ((features stages).filter fun g => g.name = name).map .feature := by
  have hnone : fulfillment stages name = none := by
    rw [fulfillment, if_neg (by simpa using hvirtual)]
  rw [executionOrder, features, List.filter_filterMap, List.filter_filterMap, List.map_filterMap]
  apply List.filterMap_congr
  intro stage hstage
  cases stage with
  | virtual other =>
    have hother : other ≠ name := fun heq => hvirtual (heq ▸ hstage)
    rcases hfulfilled : fulfillment stages other with _ | g
    · simp [slot, hfulfilled]
    · have hg := (fulfillment_eq_some hfulfilled).2.2
      simp [slot, hfulfilled, PreparedStage.isFeatureOf, hg, hother, Option.filter]
  | feature g =>
    by_cases hg : g.name = name
    · simp [slot, hg, hnone, PreparedStage.isFeatureOf, Option.filter]
    · simp only [slot]
      split_ifs <;> simp [PreparedStage.isFeatureOf, hg, Option.filter]
  | _ => rfl

theorem filter_around {α : Type} {p : α → Bool} {a : α} {pre post part : List α}
    (h : (pre ++ a :: post).filter p = [a]) (hpart : part ⊆ pre ++ post) :
    part.filter (fun b => !p b) = part ∧ (a :: part).filter (fun b => !p b) = part := by
  have ha : p a = true := (List.mem_filter.mp (h ▸ List.mem_singleton_self a)).2
  have hpost : (pre ++ post).filter p = [] := by
    rw [List.filter_append, List.filter_cons_of_pos ha, List.append_eq_singleton_iff] at h
    rcases h with ⟨hpre, hpost⟩ | ⟨-, hpost⟩
    · rw [List.filter_append, hpre, (List.cons.inj hpost).2, List.append_nil]
    · cases hpost
  have hkept : part.filter (fun b => !p b) = part := List.filter_eq_self.mpr fun b hb => by
    simpa using List.filter_eq_nil_iff.mp hpost b (hpart hb)
  exact ⟨hkept, by rw [List.filter_cons_of_neg (by simp [ha]), hkept]⟩

end Slots

section Moving

variable {interpreter roots} {name : String} {before after : List (RuntimeStage Value Err)}
  {f : RuntimeFeature Value Err} {between : List (PreparedStage Value Err)}
  {resultSelectors : ResultSelectors Value Err} {injections initial : Context Value}

theorem foldl_seedStage_feature (s : RunState Value) :
    (between ++ [PreparedStage.feature f]).foldl (seedStage interpreter injections) s =
      (.feature f :: between).foldl (seedStage interpreter injections) s := by
  simp [seedStage]

theorem foldl_seedStage_again (s : RunState Value) :
    (PreparedStage.feature f :: (between ++ [.feature f])).foldl
      (seedStage interpreter injections) s =
      (PreparedStage.feature f :: between).foldl (seedStage interpreter injections) s := by
  simp [seedStage]

variable (hlocal : Local interpreter roots)
include hlocal

theorem sameRequest_of_stretch {stages stages' : List (RuntimeStage Value Err)}
    {pre post l l' : List (PreparedStage Value Err)}
    (hdefaults : namespaceDefaults stages' = namespaceDefaults stages)
    (hunfulfilled : unfulfilled stages' = unfulfilled stages)
    (horder' : executionOrder stages' = pre ++ (l ++ post))
    (horder : executionOrder stages = pre ++ (l' ++ post))
    (hmem : ∀ stage, stage ∈ l ↔ stage ∈ l')
    (hseed : ∀ s, l.foldl (seedStage interpreter injections) s =
      l'.foldl (seedStage interpreter injections) s)
    (hrun : ∀ s, Outcome SameView (runAll (runStage interpreter (unfulfilled stages)) l s)
      (runAll (runStage interpreter (unfulfilled stages)) l' s)) :
    SameRequest (request interpreter stages' resultSelectors injections initial)
      (request interpreter stages resultSelectors injections initial) := by
  refine sameRequest_of_run (fun stage => by simp only [horder, horder', List.mem_append, hmem]) ?_
  have hseeded : (plan stages' resultSelectors).seeded interpreter injections initial =
      (plan stages resultSelectors).seeded interpreter injections initial := by
    have hmerged : (plan stages' resultSelectors).mergedInitial interpreter initial =
        (plan stages resultSelectors).mergedInitial interpreter initial := by
      funext name
      simp only [Built.mergedInitial, plan, hdefaults]
    simp only [Built.seeded, Built.unseeded, hmerged]
    simp only [plan, horder, horder', List.foldl_append, hseed]
  have hstate : Outcome SameView
      ((plan stages' resultSelectors).stateAfter interpreter (executionOrder stages') injections
        initial)
      ((plan stages resultSelectors).stateAfter interpreter (executionOrder stages) injections
        initial) := by
    rw [Built.stateAfter, Built.stateAfter, hseeded, horder, horder']
    simp only [plan, hunfulfilled]
    exact runAll_within (fun stage _ s t h => runStage_sameView hlocal h stage) hrun _
  rw [run_eq_bind, run_eq_bind]
  apply hstate.bind
  intro s t hst
  have hresults : (plan stages' resultSelectors).results interpreter s =
      (plan stages resultSelectors).results interpreter t := results_congr hunfulfilled rfl hst
  rw [hresults]
  exact (Outcome.refl (fun _ => rfl) _).map fun output output' h => ⟨h, hst⟩

theorem outcome_moved {unfulfilled : Finset String}
    (hbetween : ∀ stage ∈ between, Independent interpreter roots f stage) (s : RunState Value) :
    Outcome SameView (runAll (runStage interpreter unfulfilled) (.feature f :: between) s)
      (runAll (runStage interpreter unfulfilled) (between ++ [.feature f]) s) :=
  runAll_move SameView.refl (fun _ _ _ => SameView.trans)
    (fun stage _ _ _ h => runStage_sameView hlocal h stage)
    (fun stage hstage s => runStage_swap hlocal (hbetween stage hstage) s) s

/-- A feature that ignores itself computes the same again. -/
theorem runFeature_again {unfulfilled : Finset String}
    (hself : Ignores interpreter roots f f.name f.publicKeys) (s : RunState Value) :
    Outcome SameView
      ((runStage interpreter unfulfilled s (.feature f)).bind
        (runStage interpreter unfulfilled · (.feature f)))
      (runStage interpreter unfulfilled s (.feature f)) := by
  simp only [runStage, runFeature_eq_map]
  rcases hs : computeProperties interpreter s f.properties.entries with
    error | ⟨computed, evaluations⟩
  · trivial
  · have hsame : Outcome (fun r r' => r.1 = r'.1)
        (computeProperties interpreter s f.properties.entries)
        (computeProperties interpreter (finishFeature interpreter s f evaluations computed)
          f.properties.entries) := computeProperties_congr hlocal hself.seesSame
    rw [hs] at hsame
    simp only [Except.map, Except.bind]
    rcases ht : computeProperties interpreter (finishFeature interpreter s f evaluations computed)
      f.properties.entries with error | ⟨computed', evaluations'⟩
    · rw [ht] at hsame
      exact hsame.elim
    · rw [ht] at hsame
      obtain rfl : computed = computed' := hsame
      cases computed with
      | none => constructor <;> simp [finishFeature]
      | some ns => constructor <;> simp +contextual [finishFeature]

theorem outcome_repeated {unfulfilled : Finset String}
    (hself : Ignores interpreter roots f f.name f.publicKeys)
    (hbetween : ∀ stage ∈ between, Independent interpreter roots f stage) (s : RunState Value) :
    Outcome SameView
      (runAll (runStage interpreter unfulfilled) (.feature f :: (between ++ [.feature f])) s)
      (runAll (runStage interpreter unfulfilled) (.feature f :: between) s) :=
  runAll_again SameView.refl (fun _ _ => SameView.symm) (fun _ _ _ => SameView.trans)
    (fun stage _ _ _ h => runStage_sameView hlocal h stage)
    (fun stage hstage s => runStage_swap hlocal (hbetween stage hstage) s)
    (runFeature_again hlocal hself) s

theorem outcome_taken {unfulfilled : Finset String}
    (hself : Ignores interpreter roots f f.name f.publicKeys)
    (hbetween : ∀ stage ∈ between, Independent interpreter roots f stage) (s : RunState Value) :
    Outcome SameView
      (runAll (runStage interpreter unfulfilled) (.feature f :: (between ++ [.feature f])) s)
      (runAll (runStage interpreter unfulfilled) (between ++ [.feature f]) s) :=
  (outcome_repeated hlocal hself hbetween s).trans (fun _ _ _ h h' => h.trans h')
    (outcome_moved hlocal hbetween s)

end Moving

section Requests

variable {interpreter roots} {name : String} {before after : List (RuntimeStage Value Err)}
  {f : RuntimeFeature Value Err} {resultSelectors : ResultSelectors Value Err}
  {injections initial : Context Value}

theorem request_declared (hfeature : ∀ f, .feature f ∈ before ++ after → f.name ≠ name)
    (hvirtual : .virtual name ∈ before ++ after) :
    SameRequest
      (request interpreter (before ++ .virtual name :: after) resultSelectors injections initial)
      (request interpreter (before ++ after) resultSelectors injections initial) := by
  have hunfulfilled : name ∈ unfulfilled (before ++ after) :=
    mem_unfulfilled.mpr ⟨hvirtual, hfeature⟩
  have hplan : plan (before ++ .virtual name :: after) resultSelectors =
      plan (before ++ after) resultSelectors := by
    simp only [plan, namespaceDefaults_with_virtual, unfulfilled_without_feature hfeature,
      Finset.insert_eq_of_mem hunfulfilled, executionOrder_without_feature hfeature]
  refine sameRequest_of_run (fun _ => by rw [executionOrder_without_feature hfeature]) ?_
  rw [hplan]
  exact Outcome.refl (fun r => ⟨rfl, SameView.refl r.2⟩) _

theorem request_unconsulted (hfeature : ∀ f, .feature f ∈ before ++ after → f.name ≠ name)
    (h : Unconsulted interpreter (before ++ after) resultSelectors initial name) :
    SameRequest
      (request interpreter (before ++ .virtual name :: after) resultSelectors injections initial)
      (request interpreter (before ++ after) resultSelectors injections initial) := by
  have hplan : plan (before ++ .virtual name :: after) resultSelectors =
      (plan (before ++ after) resultSelectors).declare name := by
    simp only [plan, Built.declare, namespaceDefaults_with_virtual,
      unfulfilled_without_feature hfeature, executionOrder_without_feature hfeature]
  refine sameRequest_of_run (fun _ => by rw [executionOrder_without_feature hfeature]) ?_
  rw [hplan, h.run]
  exact Outcome.refl (fun r => ⟨rfl, SameView.refl r.2⟩) _

theorem executionOrder_append :
    executionOrder (before ++ after) =
      before.filterMap (slot (before ++ after)) ++ after.filterMap (slot (before ++ after)) :=
  List.filterMap_append

theorem executionOrder_moved (hvirtual : .virtual name ∉ before ++ after)
    (hfeature : (features (before ++ after)).filter (fun g => g.name = name) = [f]) :
    executionOrder (before ++ .virtual name :: after) =
      (before.filterMap (slot (before ++ after))).filter (fun stage => !stage.isFeatureOf name) ++
        .feature f :: (after.filterMap (slot (before ++ after))).filter
          fun stage => !stage.isFeatureOf name := by
  have hmem : f ∈ (features (before ++ after)).filter fun g => g.name = name :=
    hfeature ▸ List.mem_singleton_self f
  simp only [List.mem_filter, mem_features, decide_eq_true_eq] at hmem
  obtain ⟨hf, hname⟩ := hmem
  have hfulfilled : fulfillment (before ++ .virtual name :: after) name = some f := by
    rw [fulfillment, if_pos (by simp), features_with_virtual, hfeature]
    rfl
  rw [executionOrder, List.filterMap_append,
    List.filterMap_cons_some (by rw [slot, hfulfilled]; rfl),
    filterMap_slot_with_virtual hvirtual hf hname fun stage => List.mem_append_left _,
    filterMap_slot_with_virtual hvirtual hf hname fun stage => List.mem_append_right _]

/-- With the extra virtual a feature that is already fulfilled stands there once more. -/
theorem executionOrder_repeated (hfulfilled : fulfillment (before ++ after) name = some f) :
    executionOrder (before ++ .virtual name :: after) =
      before.filterMap (slot (before ++ after)) ++
        .feature f :: after.filterMap (slot (before ++ after)) := by
  have hvirtual := (fulfillment_eq_some hfulfilled).1
  have hslot : slot (before ++ .virtual name :: after) = slot (before ++ after) :=
    slot_congr (funext fun other => fulfillment_with_virtual (Or.inr hvirtual))
  rw [executionOrder, List.filterMap_append, hslot,
    List.filterMap_cons_some (by rw [slot, hfulfilled]; rfl)]

variable (hlocal : Local interpreter roots)
include hlocal

theorem request_moved (hvirtual : .virtual name ∉ before ++ after)
    (hfeature : (features (before ++ after)).filter (fun g => g.name = name) = [f])
    (hnear : Near interpreter roots before after f) :
    SameRequest
      (request interpreter (before ++ .virtual name :: after) resultSelectors injections initial)
      (request interpreter (before ++ after) resultSelectors injections initial) := by
  have hmem : f ∈ (features (before ++ after)).filter fun g => g.name = name :=
    hfeature ▸ List.mem_singleton_self f
  simp only [List.mem_filter, mem_features, decide_eq_true_eq] at hmem
  have horder' := executionOrder_moved hvirtual hfeature
  have horder : executionOrder (before ++ after) = _ := executionOrder_append
  have honly := filter_isFeatureOf_executionOrder hvirtual
  rw [hfeature, horder] at honly
  have hunfulfilled := unfulfilled_with_feature hmem.1 hmem.2
  obtain ⟨between, hplace, hindependent⟩ := hnear
  cases hplace with
  | earlier pre hearly =>
    rw [hearly, List.append_assoc, List.cons_append] at honly
    have hwith : executionOrder (before ++ .virtual name :: after) =
        pre ++ ((between ++ [.feature f]) ++ after.filterMap (slot (before ++ after))) := by
      rw [horder', hearly, List.filter_append, (filter_around honly (by simp)).1,
        (filter_around honly (by simp)).2, (filter_around honly (by simp)).1]
      simp
    have hwithout : executionOrder (before ++ after) =
        pre ++ ((.feature f :: between) ++ after.filterMap (slot (before ++ after))) := by
      rw [horder, hearly]
      simp
    exact sameRequest_of_stretch hlocal namespaceDefaults_with_virtual hunfulfilled hwith hwithout
      (by simp [or_comm]) foldl_seedStage_feature fun s =>
        (outcome_moved hlocal hindependent s).symm fun _ _ => SameView.symm
  | later post hlate =>
    rw [hlate, ← List.append_assoc] at honly
    have hwith : executionOrder (before ++ .virtual name :: after) =
        before.filterMap (slot (before ++ after)) ++ ((.feature f :: between) ++ post) := by
      rw [horder', hlate, List.filter_append, (filter_around honly (by simp)).1,
        (filter_around honly (by simp)).1, (filter_around honly (by simp)).2]
      simp
    have hwithout : executionOrder (before ++ after) =
        before.filterMap (slot (before ++ after)) ++ ((between ++ [.feature f]) ++ post) := by
      rw [horder, hlate]
      simp
    exact sameRequest_of_stretch hlocal namespaceDefaults_with_virtual hunfulfilled hwith hwithout
      (by simp [or_comm]) (fun s => (foldl_seedStage_feature s).symm) fun s =>
        outcome_moved hlocal hindependent s

theorem request_repeated (hfulfilled : fulfillment (before ++ after) name = some f)
    (hself : Ignores interpreter roots f name f.publicKeys)
    (hnear : Near interpreter roots before after f) :
    SameRequest
      (request interpreter (before ++ .virtual name :: after) resultSelectors injections initial)
      (request interpreter (before ++ after) resultSelectors injections initial) := by
  obtain ⟨-, hf, rfl⟩ := fulfillment_eq_some hfulfilled
  have horder' := executionOrder_repeated hfulfilled
  have horder : executionOrder (before ++ after) = _ := executionOrder_append
  have hunfulfilled := unfulfilled_with_feature hf rfl
  obtain ⟨between, hplace, hindependent⟩ := hnear
  cases hplace with
  | earlier pre hearly =>
    have hwith : executionOrder (before ++ .virtual f.name :: after) =
        pre ++ ((.feature f :: (between ++ [.feature f])) ++
          after.filterMap (slot (before ++ after))) := by
      rw [horder', hearly]
      simp
    have hwithout : executionOrder (before ++ after) =
        pre ++ ((.feature f :: between) ++ after.filterMap (slot (before ++ after))) := by
      rw [horder, hearly]
      simp
    exact sameRequest_of_stretch hlocal namespaceDefaults_with_virtual hunfulfilled hwith hwithout
      (by simp [or_comm]) foldl_seedStage_again fun s =>
        outcome_repeated hlocal hself hindependent s
  | later post hlate =>
    have hwith : executionOrder (before ++ .virtual f.name :: after) =
        before.filterMap (slot (before ++ after)) ++
          ((.feature f :: (between ++ [.feature f])) ++ post) := by
      rw [horder', hlate]
      simp
    have hwithout : executionOrder (before ++ after) =
        before.filterMap (slot (before ++ after)) ++ ((between ++ [.feature f]) ++ post) := by
      rw [horder, hlate]
      simp
    exact sameRequest_of_stretch hlocal namespaceDefaults_with_virtual hunfulfilled hwith hwithout
      (by simp) (fun _ => rfl) fun s => outcome_taken hlocal hself hindependent s

end Requests

section Consulted

variable {interpreter} {stages : List (RuntimeStage Value Err)} {name : String}
  {selectors : Record SelectorPath} {injections initial output : Context Value}
  {s : RunState Value}

theorem prunedSteps_runStage {unfulfilled : Finset String} {stage : PreparedStage Value Err}
    {s s' : RunState Value} (h : runStage interpreter unfulfilled s stage = .ok s')
    {step : String} (hstep : step ∈ s.prunedSteps) : step ∈ s'.prunedSteps := by
  cases stage with
  | feature f =>
    obtain ⟨computed, evaluations, -, rfl⟩ := exists_of_runFeature interpreter h
    rwa [finishFeature_prunedSteps]
  | step other impl =>
    obtain ⟨result, -, rfl⟩ := exists_of_runStep interpreter h
    cases result with
    | none => exact Finset.mem_insert_of_mem hstep
    | some value => exact hstep
  | injection other isPublic =>
    cases h
    exact hstep
  | pureFunction other fn =>
    cases h
    exact hstep

theorem prunedSteps_of_unfulfilled {unfulfilled : Finset String} {s s' : RunState Value}
    {step : String} {impl : RuntimeContextualMethod Value Err}
    (h : runStep interpreter unfulfilled s step impl = .ok s')
    (hselects : ∃ selector ∈ impl.selectors, selector.top ∈ unfulfilled) :
    step ∈ s'.prunedSteps := by
  obtain ⟨selector, hselector, hvirtual⟩ := hselects
  have hnot : ¬selectable unfulfilled s.pruned impl.selectors := by
    intro hall
    simpa [hvirtual] using List.all_eq_true.mp hall selector hselector
  obtain ⟨result, hcompute, rfl⟩ := exists_of_runStep interpreter h
  rw [computeStep, if_neg hnot] at hcompute
  cases hcompute
  exact Finset.mem_insert_self ..

/-- A run prunes every step that selects an unfulfilled virtual and leaves out every result
that starts from one. -/
theorem run_leaves_out (hname : name ∈ unfulfilled stages)
    (hrun : (plan stages (.map selectors)).run interpreter injections initial =
      .ok (output, s)) :
    (∀ step impl, .step step impl ∈ stages → (∃ selector ∈ impl.selectors, selector.top = name) →
      step ∈ s.prunedSteps) ∧
    ∀ entry ∈ selectors.entries, entry.2.top = name → output entry.1 = none := by
  obtain ⟨hloop, hresults⟩ := exists_of_run hrun
  constructor
  · intro step impl hstage hselects
    have hmem : PreparedStage.step step impl ∈ executionOrder stages :=
      mem_executionOrder_of_runtime (by simp) hstage
    obtain ⟨before, after, hsplit⟩ := List.append_of_mem hmem
    have hstages : runAll (runStage interpreter (unfulfilled stages))
        (before ++ .step step impl :: after)
        ((plan stages (.map selectors)).seeded interpreter injections initial) = .ok s :=
      hsplit ▸ hloop
    rw [runAll_append] at hstages
    obtain ⟨t, -, hrest⟩ := exists_of_bind_eq_ok hstages
    obtain ⟨t', hstep, hafter⟩ := runAll_cons_eq_ok hrest
    have hpruned : step ∈ t'.prunedSteps := by
      refine prunedSteps_of_unfulfilled hstep ?_
      obtain ⟨selector, hselector, htop⟩ := hselects
      exact ⟨selector, hselector, htop ▸ hname⟩
    exact runAll_keeps (fun _ _ _ _ h hmem => prunedSteps_runStage h hmem) hafter hpruned
  · intro entry hentry htop
    have hfound := (collect_eq_ok hresults selectors.nodup fun _ _ => rfl).1 entry hentry
    rw [Built.selectResult, if_pos (Or.inl (htop ▸ hname))] at hfound
    exact (Except.ok.inj hfound).symm

/-- Where an extra virtual without a feature changes nothing, every step that selects the name
was pruned already, and every result that starts from it was left out. -/
theorem leaves_out_of_sameRequest {before after : List (RuntimeStage Value Err)}
    (hfeature : ∀ f, .feature f ∈ before ++ after → f.name ≠ name)
    (hrequest : request interpreter (before ++ after) (.map selectors) injections initial =
      .ok (.ok (output, s)))
    (hsame : SameRequest
      (request interpreter (before ++ .virtual name :: after) (.map selectors) injections initial)
      (request interpreter (before ++ after) (.map selectors) injections initial)) :
    (∀ step impl, .step step impl ∈ before ++ after →
      (∃ selector ∈ impl.selectors, selector.top = name) → step ∈ s.prunedSteps) ∧
    ∀ entry ∈ selectors.entries, entry.2.top = name → output entry.1 = none := by
  rw [hrequest] at hsame
  rcases hwith : request interpreter (before ++ .virtual name :: after) (.map selectors) injections
    initial with error | (error | ⟨output', s'⟩)
  · rw [hwith] at hsame
    exact hsame.elim
  · rw [hwith] at hsame
    exact hsame.elim
  · rw [hwith] at hsame
    obtain ⟨houtput, hview⟩ := hsame
    obtain rfl : output' = output := houtput
    obtain ⟨built, hbuilt, hrun⟩ := exists_of_map_eq_ok hwith
    obtain rfl := eq_of_buildPipeline hbuilt
    have hname : name ∈ unfulfilled (before ++ .virtual name :: after) := by
      rw [unfulfilled_without_feature hfeature]
      exact Finset.mem_insert_self ..
    obtain ⟨hsteps, hentries⟩ := run_leaves_out hname hrun
    refine ⟨fun step impl hstage hselects => ?_, hentries⟩
    exact hview.prunedSteps ▸ hsteps step impl (mem_with_virtual.mpr (Or.inr hstage)) hselects

end Consulted

/-- A harmless extra virtual changes nothing: both requests fail to build, both reject, or
both return the same results with the same prune decisions. -/
theorem redundant_virtual_harmless {interpreter : Interpreter Value Err}
    {roots : Value → Set String} (hlocal : Local interpreter roots)
    {before after : List (RuntimeStage Value Err)} {resultSelectors : ResultSelectors Value Err}
    {injections initial : Context Value} {name : String}
    (h : HarmlessVirtual interpreter roots before after resultSelectors initial name) :
    SameRequest
      (request interpreter (before ++ .virtual name :: after) resultSelectors injections initial)
      (request interpreter (before ++ after) resultSelectors injections initial) := by
  cases h with
  | declared hfeature hvirtual => exact request_declared hfeature hvirtual
  | unconsulted hfeature h => exact request_unconsulted hfeature h
  | moved f hvirtual hfeature hnear => exact request_moved hlocal hvirtual hfeature hnear
  | repeated f hfulfilled hself hnear => exact request_repeated hlocal hfulfilled hself hnear

section NameLanguage

def input : RuntimeStage NameValue String := .initialDefaults "input" ⟨[], List.nodup_nil⟩

def shown : RuntimeFeature NameValue String :=
  ⟨"shown", .all, ⟨[("y", .expr "input")], List.nodup_singleton "y"⟩⟩

/-- Whether a request has returned a result. -/
def returns (key : String)
    (r : Except (BuildError String) (Except String (Context NameValue × RunState NameValue))) :
    Bool :=
  match r with
  | .ok (.ok (output, _)) => (output key).isSome
  | _ => false

theorem returns_congr {key : String}
    {r r' : Except (BuildError String) (Except String (Context NameValue × RunState NameValue))}
    (h : SameRequest r r') : returns key r = returns key r' := by
  rcases r with _ | _ | ⟨output, s⟩ <;> rcases r' with _ | _ | ⟨output', s'⟩ <;>
    first
    | rfl
    | exact h.elim
    | exact congrArg (fun output : Context NameValue => (output key).isSome) h.1

theorem redundant_virtual_shown : SameRequest
    (request nameLanguage ([input, .feature shown, .step "measure" (firstOf (.whole "input"))] ++
      .virtual "shown" :: [.step "use" (firstOf (.part "shown" "y"))])
      (.map ⟨[("y", .whole "use")], List.nodup_singleton "y"⟩) (fun _ => none)
      (fun name => if name = "input" then some (.object []) else none))
    (request nameLanguage ([input, .feature shown, .step "measure" (firstOf (.whole "input"))] ++
      [.step "use" (firstOf (.part "shown" "y"))])
      (.map ⟨[("y", .whole "use")], List.nodup_singleton "y"⟩) (fun _ => none)
      (fun name => if name = "input" then some (.object []) else none)) := by
  refine redundant_virtual_harmless nameLanguage_local
    (.moved shown (by simp [input, firstOf]) (by simp [features, input, firstOf, shown]) ?_)
  refine ⟨[.step "measure" (firstOf (.whole "input"))],
    .earlier [] ?_, ?_⟩
  · simp [List.filterMap_cons, slot, input, firstOf, fulfillment]
  · simp [Independent, firstOf, SelectorPath.top, shown]

/-- An input that a step selects is taken for an unfulfilled virtual. -/
theorem concrete_input_unfulfilled : ¬SameRequest
    (request nameLanguage
      ([input] ++ .virtual "input" :: [.step "measure" (firstOf (.whole "input"))])
      (.map ⟨[("n", .whole "measure")], List.nodup_singleton "n"⟩) (fun _ => none)
      (fun name => if name = "input" then some (.object []) else none))
    (request nameLanguage ([input] ++ [.step "measure" (firstOf (.whole "input"))])
      (.map ⟨[("n", .whole "measure")], List.nodup_singleton "n"⟩) (fun _ => none)
      (fun name => if name = "input" then some (.object []) else none)) :=
  fun h => absurd (@returns_congr "n" _ _ h) (by decide +kernel)

end NameLanguage

end RandomArt.Pipeline
