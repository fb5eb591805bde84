import RandomArt.PipelineNames
import RandomArt.NameLanguage

/-!
# What a pipeline prunes

A run computes a feature, runs a step and returns a result exactly when nothing it
depends on, directly or through features, is a virtual that no feature fulfills.
-/

namespace RandomArt.Pipeline

open FallibleFold

variable {Value Err : Type} (interpreter : Interpreter Value Err)
  (roots : Value → Set String) (stages : List (RuntimeStage Value Err))
  (base : Finset String)

/-- The methods and direct expressions of a stage hold. -/
def StageHolds (ctx : Context Value) : PreparedStage Value Err → Prop
  | .feature f => ∀ entry ∈ f.properties.entries, PropertyHolds interpreter roots ctx entry.2
  | .step _ impl => MethodHolds interpreter ctx impl
  | _ => True

/-- An input with every name that no stage declares, and none besides these and the
namespaces. -/
structure Supplied (initial : Context Value) : Prop where
  required : ∀ name ∈ base, (initial name).isSome
  declared : ∀ name, (initial name).isSome →
    name ∈ base ∨ ∃ defaults, .initialDefaults name defaults ∈ stages

/-- The names that are in the expression context from the start. -/
def PublicSeed (name : String) : Prop :=
  name ∈ base ∨ (∃ defaults, .initialDefaults name defaults ∈ stages) ∨
    .injection name true ∈ stages

/-- The names that a result selector may start from. -/
def ResultName (name : String) : Prop :=
  PublicSeed stages base name ∨
    (∃ f, .feature f ∈ stages ∧ f.name = name ∧ f.publicKeys ≠ .none) ∨
    (∃ impl, .step name impl ∈ stages) ∨ name ∈ unfulfilled stages

/-- What a run has made of the stages it has taken. -/
structure Progress (done : List (PreparedStage Value Err)) (s : RunState Value) : Prop where
  stepCtx : ∀ name, (s.stepCtx name).isSome ↔ Seed stages base name ∨
    ∃ f, .feature f ∈ done ∧ f.name = name ∧ Clean interpreter roots stages name
  exprCtx : ∀ name, (s.exprCtx name).isSome ↔ PublicSeed stages base name ∨
    ∃ f, .feature f ∈ done ∧ f.name = name ∧ f.publicKeys ≠ .none ∧
      Clean interpreter roots stages name
  stepResultCtx : ∀ name, (s.stepResultCtx name).isSome ↔
    ∃ impl, .step name impl ∈ done ∧ Clean interpreter roots stages name
  pruned : ∀ name ∈ s.pruned, ¬Clean interpreter roots stages name
  prunedSteps : ∀ name ∈ s.prunedSteps, ¬Clean interpreter roots stages name
  evaluations : RootsPresent interpreter roots s.evaluations

variable {interpreter roots stages base}

theorem isSome_update {ctx : Context Value} {name other : String} {value : Value} :
    (Function.update ctx name (some value) other).isSome ↔ other = name ∨ (ctx other).isSome := by
  by_cases hname : other = name
  · subst hname
    simp
  · simp [hname]

theorem RootsPresent.append {first second : List (Evaluation Value)}
    (hfirst : RootsPresent interpreter roots first)
    (hsecond : RootsPresent interpreter roots second) :
    RootsPresent interpreter roots (first ++ second) := fun e he =>
  (List.mem_append.mp he).elim (hfirst e) (hsecond e)

theorem isSome_publicPart {ns : List (String × Value)} {publicKeys : PublicKeys} :
    (publicPart interpreter ns publicKeys).isSome ↔ publicKeys ≠ .none := by
  cases publicKeys <;> simp [publicPart]

theorem Progress.after_feature {done : List (PreparedStage Value Err)}
    {f : RuntimeFeature Value Err} {s : RunState Value}
    (hs : Progress interpreter roots stages base done s) {ns : Option (List (String × Value))}
    {evaluations : List (Evaluation Value)}
    (hclean : ns.isSome ↔ Clean interpreter roots stages f.name)
    (hroots : RootsPresent interpreter roots evaluations) :
    Progress interpreter roots stages base (done ++ [.feature f])
      (finishFeature interpreter s f evaluations ns) := by
  have hsteps : ∀ name impl, PreparedStage.step name impl ∈ done ++ [.feature f] ↔
      PreparedStage.step name impl ∈ done := by simp
  have hfeatures : ∀ g, PreparedStage.feature g ∈ done ++ [.feature f] ↔
      PreparedStage.feature g ∈ done ∨ g = f := by simp
  cases ns with
  | none =>
    have hnot : ¬Clean interpreter roots stages f.name := fun hc => by simpa using hclean.mpr hc
    refine ⟨fun name => ?_, fun name => ?_, fun name => ?_, ?_, hs.prunedSteps,
      hs.evaluations.append hroots⟩
    · refine (hs.stepCtx name).trans ?_
      grind
    · refine (hs.exprCtx name).trans ?_
      grind
    · refine (hs.stepResultCtx name).trans ?_
      simp [hsteps]
    · exact (Finset.forall_mem_insert _ _ _).mpr ⟨hnot, hs.pruned⟩
  | some ns =>
    have hyes : Clean interpreter roots stages f.name := hclean.mp rfl
    refine ⟨fun name => ?_, fun name => ?_, fun name => ?_, hs.pruned, hs.prunedSteps,
      hs.evaluations.append hroots⟩
    · refine isSome_update.trans ?_
      rw [hs.stepCtx]
      grind
    · simp only [finishFeature]
      split_ifs with hprivate
      · refine (hs.exprCtx name).trans ?_
        grind
      · obtain ⟨exposed, hexposed⟩ := Option.isSome_iff_exists.mp
          (isSome_publicPart.mpr hprivate :
            (publicPart interpreter ns f.publicKeys).isSome = true)
        rw [hexposed, isSome_update, hs.exprCtx]
        grind
    · refine (hs.stepResultCtx name).trans ?_
      simp [hsteps]

theorem Progress.after_seed {done : List (PreparedStage Value Err)}
    {stage : PreparedStage Value Err} {s : RunState Value}
    (hs : Progress interpreter roots stages base done s) (hfeature : ∀ f, stage ≠ .feature f)
    (hstep : ∀ name impl, stage ≠ .step name impl) :
    Progress interpreter roots stages base (done ++ [stage]) s := by
  have hfeatures : ∀ f, .feature f ∈ done ++ [stage] ↔ .feature f ∈ done := fun f => by
    simp [(hfeature f).symm]
  have hsteps : ∀ name impl, .step name impl ∈ done ++ [stage] ↔ .step name impl ∈ done :=
    fun name impl => by simp [(hstep name impl).symm]
  refine ⟨?_, ?_, ?_, hs.pruned, hs.prunedSteps, hs.evaluations⟩
  · simpa only [hfeatures] using hs.stepCtx
  · simpa only [hfeatures] using hs.exprCtx
  · simpa only [hsteps] using hs.stepResultCtx

theorem Progress.after_step {done : List (PreparedStage Value Err)} {name : String}
    {impl : RuntimeContextualMethod Value Err} {s : RunState Value}
    (hs : Progress interpreter roots stages base done s) {result : Option Value}
    (hclean : result.isSome ↔ Clean interpreter roots stages name) :
    Progress interpreter roots stages base (done ++ [.step name impl])
      (finishStep s name result) := by
  have hfeatures : ∀ g, PreparedStage.feature g ∈ done ++ [.step name impl] ↔
      PreparedStage.feature g ∈ done := by simp
  have hsteps : ∀ other, (∃ i, PreparedStage.step other i ∈ done ++ [.step name impl]) ↔
      (∃ i, PreparedStage.step other i ∈ done) ∨ other = name := by
    simp [exists_or]
  have hfull : ∀ other, (s.stepCtx other).isSome ↔ Seed stages base other ∨
      ∃ f, .feature f ∈ done ++ [.step name impl] ∧ f.name = other ∧
        Clean interpreter roots stages other := by
    simpa only [hfeatures] using hs.stepCtx
  have hexpr : ∀ other, (s.exprCtx other).isSome ↔ PublicSeed stages base other ∨
      ∃ f, .feature f ∈ done ++ [.step name impl] ∧ f.name = other ∧ f.publicKeys ≠ .none ∧
        Clean interpreter roots stages other := by
    simpa only [hfeatures] using hs.exprCtx
  cases result with
  | none =>
    have hnot : ¬Clean interpreter roots stages name := fun hc => by simpa using hclean.mpr hc
    refine ⟨hfull, hexpr, fun other => ?_, hs.pruned, ?_, hs.evaluations⟩
    · refine (hs.stepResultCtx other).trans ?_
      grind
    · exact (Finset.forall_mem_insert _ _ _).mpr ⟨hnot, hs.prunedSteps⟩
  | some value =>
    have hyes : Clean interpreter roots stages name := hclean.mp rfl
    refine ⟨hfull, hexpr, fun other => ?_, hs.pruned, hs.prunedSteps, hs.evaluations⟩
    refine isSome_update.trans ?_
    rw [hs.stepResultCtx]
    grind

section Stages

variable (h : WellNamed interpreter roots stages base)
include h

theorem Progress.start {built : Built Value Err}
    (hdefaults : built.namespaceDefaults = namespaceDefaults stages)
    (horder : built.executionOrder = executionOrder stages) {injections initial : Context Value}
    (hsupplied : Supplied stages base initial) :
    Progress interpreter roots stages base [] (built.seeded interpreter injections initial) := by
  have hmerged : ∀ name, (built.mergedInitial interpreter initial name).isSome ↔
      name ∈ base ∨ ∃ defaults, .initialDefaults name defaults ∈ stages := by
    intro name
    rw [isSome_mergedInitial, hdefaults, isSome_namespaceDefaults]
    exact ⟨fun h => h.elim Or.inr (hsupplied.declared name),
      fun h => h.elim (fun hbase => Or.inr (hsupplied.required name hbase)) Or.inl⟩
  have hinjection : ∀ name isPublic, .injection name isPublic ∈ built.executionOrder ↔
      .injection name isPublic ∈ stages := fun name isPublic => by
    rw [horder]
    exact ⟨fun hmem => runtime_mem_of_mem hmem,
      fun hmem => mem_executionOrder_of_runtime (by simp) hmem⟩
  have hfunction : ∀ name fn, .pureFunction name fn ∉ built.executionOrder := fun name fn hmem =>
    h.kinds _ (runtime_mem_of_mem (horder ▸ hmem)) name fn rfl
  have hsame := sameWork_foldl_seedStage interpreter injections built.executionOrder
    (built.unseeded interpreter initial)
  refine ⟨fun name => ?_, fun name => ?_, fun name => ?_, ?_, ?_, ?_⟩
  · rw [Built.seeded, isSome_stepCtx_foldl_seedStage]
    simp [Built.unseeded, hmerged, hinjection, Seed, or_assoc]
  · rw [Built.seeded, isSome_exprCtx_foldl_seedStage]
    simp [Built.unseeded, hmerged, hinjection, hfunction, PublicSeed, or_assoc]
  · rw [Built.seeded, hsame.stepResultCtx]
    simp [Built.unseeded]
  · rw [Built.seeded, hsame.pruned]
    simp [Built.unseeded]
  · rw [Built.seeded, hsame.prunedSteps]
    simp [Built.unseeded]
  · rw [Built.seeded, hsame.evaluations]
    intro e he
    cases he

/-- A name that the next stage reads is present exactly when it is clean. -/
theorem Progress.present_iff {done rest : List (PreparedStage Value Err)}
    {stage : PreparedStage Value Err} {s : RunState Value}
    (hs : Progress interpreter roots stages base done s)
    (hsplit : executionOrder stages = done ++ stage :: rest) {root : String}
    (hread : stage.runtime.Reads interpreter roots root) :
    (find interpreter s.stepCtx root).isSome ↔ Clean interpreter roots stages root := by
  have hdone : ∀ f, .feature f ∈ done → .feature f ∈ stages := by
    intro f hf
    have hmem : .feature f ∈ executionOrder stages := hsplit ▸ List.mem_append_left _ hf
    exact runtime_mem_of_mem hmem
  have hready := h.ready hsplit hread
  have hown : interpreter.inherited root = none := by
    refine h.own root ?_
    rcases hready with (hbase | ⟨defaults, hstage⟩ | ⟨isPublic, hstage⟩) | hvirtual | ⟨f, hf, hname⟩
    · exact Or.inl hbase
    · exact Or.inr ⟨_, hstage, rfl⟩
    · exact Or.inr ⟨_, hstage, rfl⟩
    · exact Or.inr ⟨_, (mem_unfulfilled.mp hvirtual).1, rfl⟩
    · exact Or.inr ⟨_, hdone f hf, hname⟩
  rw [find, hown, Option.or_none, hs.stepCtx]
  constructor
  · rintro (hseed | ⟨-, -, -, hclean⟩)
    · exact h.clean_of_seed hseed
    · exact hclean
  · intro hclean
    rcases hready with hseed | hvirtual | ⟨f, hf, hname⟩
    · exact Or.inl hseed
    · exact absurd hvirtual (hclean root .refl)
    · exact Or.inr ⟨f, hf, hname, hclean⟩

theorem Progress.feature {done rest : List (PreparedStage Value Err)}
    {f : RuntimeFeature Value Err} {s : RunState Value}
    (hs : Progress interpreter roots stages base done s)
    (hsplit : executionOrder stages = done ++ .feature f :: rest)
    (hholds : StageHolds interpreter roots s.stepCtx (.feature f)) :
    ∃ s', runFeature interpreter s f = .ok s' ∧
      Progress interpreter roots stages base (done ++ [.feature f]) s' := by
  have hmem : .feature f ∈ stages := by
    have hmem : .feature f ∈ executionOrder stages := by
      rw [hsplit]
      exact List.mem_append_right _ List.mem_cons_self
    exact runtime_mem_of_mem hmem
  have hpresent : ∀ root, f.Reads interpreter roots root →
      ((find interpreter s.stepCtx root).isSome ↔ Clean interpreter roots stages root) :=
    fun root hread => hs.present_iff h hsplit hread
  have hdirect : ∀ entry ∈ f.properties.entries,
      DirectPresent interpreter roots s.stepCtx entry.2 := by
    rintro ⟨key, property⟩ hentry
    cases property with
    | expr text =>
      exact fun root hroot => (hpresent root ⟨_, hentry, hroot⟩).mpr
        (h.expressions f hmem _ hentry text rfl root hroot)
    | indirect outer => trivial
    | method impl => trivial
  obtain ⟨ns, evaluations, hcompute, hiff, hroots⟩ := computeProperties_spec hholds hdirect
  have hclean : ns.isSome ↔ Clean interpreter roots stages f.name := by
    rw [hiff, show f.name = (RuntimeStage.feature f).name from rfl, h.clean_iff hmem (by simp)]
    constructor
    · rintro hall root ⟨entry, hentry, hread⟩
      exact (hpresent root ⟨entry, hentry, hread⟩).mp (hall entry hentry root hread)
    · intro hall entry hentry root hread
      exact (hpresent root ⟨entry, hentry, hread⟩).mpr (hall root ⟨entry, hentry, hread⟩)
  refine ⟨finishFeature interpreter s f evaluations ns,
    bind_of_ok hcompute, ?_⟩
  exact hs.after_feature hclean hroots

theorem Progress.step {done rest : List (PreparedStage Value Err)} {name : String}
    {impl : RuntimeContextualMethod Value Err} {s : RunState Value}
    (hs : Progress interpreter roots stages base done s)
    (hsplit : executionOrder stages = done ++ .step name impl :: rest)
    (hholds : StageHolds interpreter roots s.stepCtx (.step name impl)) :
    ∃ s', runStep interpreter (unfulfilled stages) s name impl = .ok s' ∧
      Progress interpreter roots stages base (done ++ [.step name impl]) s' := by
  have hmem : .step name impl ∈ stages := by
    have hmem : .step name impl ∈ executionOrder stages := by
      rw [hsplit]
      exact List.mem_append_right _ List.mem_cons_self
    exact runtime_mem_of_mem hmem
  have hclean : (∀ selector ∈ impl.selectors,
      (find interpreter s.stepCtx selector.top).isSome) ↔ Clean interpreter roots stages name := by
    rw [show name = (RuntimeStage.step name impl).name from rfl, h.clean_iff hmem (by simp)]
    constructor
    · rintro hall root ⟨selector, hselector, rfl⟩
      exact (hs.present_iff h hsplit ⟨selector, hselector, rfl⟩).mp (hall selector hselector)
    · intro hall selector hselector
      exact (hs.present_iff h hsplit ⟨selector, hselector, rfl⟩).mpr
        (hall _ ⟨selector, hselector, rfl⟩)
  suffices hresult : ∃ result, computeStep interpreter (unfulfilled stages) s impl = .ok result ∧
      (result.isSome ↔ Clean interpreter roots stages name) by
    obtain ⟨result, hcompute, hiff⟩ := hresult
    exact ⟨finishStep s name result, bind_of_ok hcompute, hs.after_step hiff⟩
  obtain ⟨args, hargs, hfound⟩ := resolveArgs_spec hholds.selectors
  rw [hclean] at hfound
  rw [computeStep]
  split_ifs with hselectable
  · rcases args with _ | args
    · exact ⟨none, bind_of_ok hargs, by simpa using hfound⟩
    · obtain ⟨value, hvalue⟩ := hholds.returns args hargs
      exact ⟨some value, (bind_of_ok hargs).trans (bind_of_ok hvalue), by simpa using hfound⟩
  · refine ⟨none, rfl, iff_of_false (by simp) fun hname => hselectable ?_⟩
    have hall := (h.clean_iff hmem (by simp)).mp hname
    apply List.all_eq_true.mpr
    intro selector hselector
    have hroot := hall _ ⟨selector, hselector, rfl⟩
    simp only [Bool.and_eq_true, decide_eq_true_eq]
    exact ⟨fun hpruned => hs.pruned _ hpruned hroot, hroot _ .refl⟩

/-- Every stage of the main loop completes and makes progress. -/
theorem Progress.stage {done rest : List (PreparedStage Value Err)}
    {stage : PreparedStage Value Err} {s : RunState Value}
    (hs : Progress interpreter roots stages base done s)
    (hsplit : executionOrder stages = done ++ stage :: rest)
    (hholds : StageHolds interpreter roots s.stepCtx stage) :
    ∃ s', runStage interpreter (unfulfilled stages) s stage = .ok s' ∧
      Progress interpreter roots stages base (done ++ [stage]) s' := by
  cases stage with
  | feature f => exact hs.feature h hsplit hholds
  | step name impl => exact hs.step h hsplit hholds
  | injection name isPublic =>
    exact ⟨s, rfl, hs.after_seed (by simp) (by simp)⟩
  | pureFunction name fn => exact ⟨s, rfl, hs.after_seed (by simp) (by simp)⟩

theorem Progress.selectResult {s : RunState Value} {built : Built Value Err}
    (hs : Progress interpreter roots stages base (executionOrder stages) s)
    (hunfulfilled : built.unfulfilled = unfulfilled stages) {selector : SelectorPath}
    (hname : ResultName stages base selector.top)
    (hholds : SelectorsHold interpreter s.resultCtx [selector]) :
    ∃ found, built.selectResult interpreter s selector = .ok found ∧
      (found.isSome ↔ Clean interpreter roots stages selector.top) := by
  rw [Built.selectResult]
  split_ifs with hskip
  · refine ⟨none, rfl, iff_of_false (by simp) fun hclean => ?_⟩
    rcases hskip with hvirtual | hpruned | hpruned
    · exact hclean _ .refl (hunfulfilled ▸ hvirtual)
    · exact hs.pruned _ hpruned hclean
    · exact hs.prunedSteps _ hpruned hclean
  · obtain ⟨found, hfound, hiff⟩ := resolvePath_spec hholds
    refine ⟨found, hfound, hiff.trans ?_⟩
    have hown : interpreter.inherited selector.top = none := by
      refine h.own _ ?_
      rcases hname with (hbase | ⟨_, hmem⟩ | hmem) | ⟨f, hmem, hf, -⟩ | ⟨_, hmem⟩ | hmem
      · exact Or.inl hbase
      · exact Or.inr ⟨_, hmem, rfl⟩
      · exact Or.inr ⟨_, hmem, rfl⟩
      · exact Or.inr ⟨_, hmem, hf⟩
      · exact Or.inr ⟨_, hmem, rfl⟩
      · exact Or.inr ⟨_, (mem_unfulfilled.mp hmem).1, rfl⟩
    rw [find, hown, Option.or_none, RunState.resultCtx, Option.isSome_or, Bool.or_eq_true,
      hs.stepResultCtx, hs.exprCtx]
    constructor
    · rintro (⟨-, -, hclean⟩ | hseed | ⟨-, -, -, -, hclean⟩)
      · exact hclean
      · exact h.clean_of_seed (hseed.imp id (Or.imp id fun hmem => ⟨true, hmem⟩))
      · exact hclean
    · intro hclean
      rcases hname with hseed | ⟨f, hmem, hf, hpublic⟩ | ⟨impl, hmem⟩ | hmem
      · exact Or.inr (Or.inl hseed)
      · exact Or.inr (Or.inr ⟨f, h.feature_mem_executionOrder.mpr hmem, hf, hpublic, hclean⟩)
      · exact Or.inl ⟨impl, mem_executionOrder_of_runtime (by simp) hmem, hclean⟩
      · exact absurd hmem (hclean _ .refl)

end Stages

/-- A run of a pipeline does not reject, evaluates no expression from a missing name, and
computes each feature, runs each step and returns each result exactly when it depends on no
unfulfilled virtual. -/
theorem run_prunes_exactly (h : WellNamed interpreter roots stages base)
    {selectors : Record SelectorPath} {built : Built Value Err}
    (hbuilt : buildPipeline interpreter stages (.map selectors) = .ok built)
    (hresults : ∀ entry ∈ selectors.entries, ResultName stages base entry.2.top)
    {injections initial : Context Value} (hsupplied : Supplied stages base initial)
    (hholds : ∀ before stage after s, built.executionOrder = before ++ stage :: after →
      built.stateAfter interpreter before injections initial = .ok s →
      StageHolds interpreter roots s.stepCtx stage)
    (hselected : ∀ s,
      built.stateAfter interpreter built.executionOrder injections initial = .ok s →
      SelectorsHold interpreter s.resultCtx (selectors.entries.map Prod.snd)) :
    ∃ output s, built.run interpreter injections initial = .ok (output, s) ∧
      RootsPresent interpreter roots s.evaluations ∧
      (∀ f, .feature f ∈ stages →
        ((s.stepCtx f.name).isSome ↔ Clean interpreter roots stages f.name)) ∧
      (∀ name impl, .step name impl ∈ stages →
        ((s.stepResultCtx name).isSome ↔ Clean interpreter roots stages name)) ∧
      ∀ entry ∈ selectors.entries,
        ((output entry.1).isSome ↔ Clean interpreter roots stages entry.2.top) := by
  obtain rfl := eq_of_buildPipeline hbuilt
  set built : Built Value Err := plan stages (.map selectors)
  have hloop : ∃ s, built.stateAfter interpreter built.executionOrder injections initial = .ok s ∧
      Progress interpreter roots stages base (executionOrder stages) s :=
    runAll_completes (fun before stage after s hsplit hreached hs =>
      hs.stage h hsplit (hholds before stage after s hsplit hreached))
      (Progress.start h rfl rfl hsupplied)
  obtain ⟨s, hrun, hs⟩ := hloop
  have hfound : ∀ entry ∈ selectors.entries,
      ∃ found, built.selectResult interpreter s entry.2 = .ok found ∧
        (found.isSome ↔ Clean interpreter roots stages entry.2.top) := fun entry hentry =>
    hs.selectResult h rfl (hresults entry hentry) fun name key hmem =>
      hselected s hrun name key
        (List.mem_singleton.mp hmem ▸ List.mem_map_of_mem hentry)
  obtain ⟨output, hcollect⟩ := collect_completes (fun _ => none) fun entry hentry =>
    (hfound entry hentry).imp fun _ h => h.1
  obtain ⟨hselect, -⟩ := collect_eq_ok hcollect selectors.nodup fun _ _ => rfl
  refine ⟨output, s, ?_, hs.evaluations, fun f hf => ?_, fun name impl hmem => ?_,
    fun entry hentry => ?_⟩
  · have houtput : built.results interpreter s = .ok output := hcollect
    exact (bind_of_ok hrun).trans (bind_of_ok houtput)
  · rw [hs.stepCtx]
    refine ⟨?_, fun hclean => Or.inr ⟨f, h.feature_mem_executionOrder.mpr hf, rfl, hclean⟩⟩
    rintro (hseed | ⟨-, -, -, hclean⟩)
    · exact h.clean_of_seed hseed
    · exact hclean
  · rw [hs.stepResultCtx]
    exact ⟨fun ⟨_, _, hclean⟩ => hclean,
      fun hclean => ⟨impl, mem_executionOrder_of_runtime (by simp) hmem, hclean⟩⟩
  · obtain ⟨found, hsame, hiff⟩ := hfound entry hentry
    rw [hselect entry hentry] at hsame
    rw [Except.ok.inj hsame]
    exact hiff

section NameLanguage

def independent : RuntimeFeature NameValue String :=
  ⟨"independent", .all, ⟨[("y", .expr "input")], List.nodup_singleton "y"⟩⟩

def consumer : RuntimeFeature NameValue String :=
  ⟨"consumer", .all, ⟨[("k", .method (firstOf (.part "v" "x")))], List.nodup_singleton "k"⟩⟩

def virtualStages : List (RuntimeStage NameValue String) :=
  [.virtual "independent", .virtual "v", .feature consumer,
    .step "measure" (firstOf (.part "consumer" "k")),
    .step "copy" (firstOf (.part "independent" "y")), .feature independent]

theorem unfulfilled_virtualStages {name : String} :
    name ∈ unfulfilled virtualStages ↔ name = "v" := by
  rw [mem_unfulfilled]
  simp [virtualStages, consumer, independent]
  grind

theorem wellNamed_virtualStages : WellNamed nameLanguage nameRoots virtualStages {"input"} where
  kinds := by simp [virtualStages]
  direct := by simp [virtualStages, consumer, independent]
  fresh := by
    simp only [virtualStages, forall_split_cons, forall_split_nil]
    simp [RuntimeStage.name, consumer, independent]
  own := by
    have hnames : ∀ name ∈ ["input", "independent", "v", "consumer", "measure", "copy"],
        nameLanguage.inherited name = none := by
      simp [nameLanguage, inheritedName, prototypeNames]
    intro name hname
    simp only [virtualStages, RuntimeStage.name, consumer, independent, List.exists_mem_cons_iff,
      Finset.mem_singleton] at hname
    refine hnames name ?_
    simp
    grind
  declared := by
    simp only [virtualStages, forall_split_cons, forall_split_nil]
    simp [RuntimeStage.Reads, RuntimeFeature.Reads, Readable, consumer, independent, firstOf,
      BuilderPropertyDef.Reads, nameLanguage, nameRoots, SelectorPath.top, RuntimeStage.InContext,
      RuntimeStage.name]
  fulfilling := by
    intro before between after f hsplit root hread
    have hvirtual : .virtual f.name ∈ virtualStages := hsplit ▸ by simp
    have hf : .feature f ∈ virtualStages := hsplit ▸ by simp
    simp only [virtualStages, List.mem_cons, reduceCtorEq, RuntimeStage.feature.injEq] at hf
    rcases (by simpa using hf : f = consumer ∨ f = independent) with rfl | rfl
    · simp [virtualStages, consumer] at hvirtual
    · refine Or.inl ?_
      simpa [RuntimeFeature.Reads, independent, BuilderPropertyDef.Reads, nameLanguage,
        nameRoots] using hread
  expressions := by
    have hinput : Clean nameLanguage nameRoots virtualStages "input" := by
      intro root hdepends
      rcases hdepends.cases_head with rfl | ⟨next, ⟨stage, hstage, hname, -⟩, -⟩
      · simp [unfulfilled_virtualStages]
      · simp [virtualStages] at hstage
        rcases hstage with rfl | rfl | rfl | rfl | rfl | rfl <;>
          simp [RuntimeStage.name, consumer, independent] at hname
    simpa [virtualStages, consumer, independent, nameLanguage, nameRoots] using hinput

def virtualResults : Record SelectorPath :=
  ⟨[("k", .part "consumer" "k"), ("y", .whole "copy")], by simp⟩

def someInput : Context NameValue := fun name => if name = "input" then some .undefined else none

theorem firstOf_holds {ctx : Context NameValue} {name key : String} {found : Option NameValue}
    (hfound : find nameLanguage ctx name = found)
    (hkey : ∀ sub, found = some sub → nameLanguage.propertyIn key sub = .ok true) :
    MethodHolds nameLanguage ctx (firstOf (.part name key)) := by
  refine ⟨fun other otherKey hmem sub hsub => ?_, fun args _ => ⟨_, rfl⟩⟩
  obtain ⟨rfl, rfl⟩ := SelectorPath.part.inj (List.mem_singleton.mp hmem)
  exact hkey sub (hfound.symm.trans hsub)

theorem holds_virtualStages : ∀ before stage after, executionOrder virtualStages =
    before ++ stage :: after → ∀ s,
      (plan virtualStages (.map virtualResults)).stateAfter nameLanguage before (fun _ => none)
        someInput = .ok s → StageHolds nameLanguage nameRoots s.stepCtx stage := by
  have horder : executionOrder virtualStages = [.feature independent, .feature consumer,
      .step "measure" (firstOf (.part "consumer" "k")),
      .step "copy" (firstOf (.part "independent" "y"))] := rfl
  simp only [horder, forall_split_cons, forall_split_nil, and_true]
  refine ⟨fun s hs => ?_, fun s hs => ?_, fun s hs => ?_, fun s hs => ?_⟩
  · simp only [StageHolds, independent, List.forall_mem_singleton, PropertyHolds]
    exact fun _ => ⟨_, rfl⟩
  · simp only [StageHolds, consumer, List.forall_mem_singleton, PropertyHolds]
    cases hs
    exact @firstOf_holds _ "v" "x" none rfl nofun
  · cases hs
    exact @firstOf_holds _ "consumer" "k" none rfl nofun
  · cases hs
    refine @firstOf_holds _ "independent" "y" (some (.object [("y", .undefined)])) rfl ?_
    rintro _ ⟨⟩
    rfl

theorem run_prunes_exactly_virtualStages : ∃ output s,
    (plan virtualStages (.map virtualResults)).run nameLanguage (fun _ => none) someInput =
        .ok (output, s) ∧
      RootsPresent nameLanguage nameRoots s.evaluations ∧
      ∀ entry ∈ virtualResults.entries,
        ((output entry.1).isSome ↔ Clean nameLanguage nameRoots virtualStages entry.2.top) := by
  have hbuilt : buildPipeline nameLanguage virtualStages (.map virtualResults) =
      .ok (plan virtualStages (.map virtualResults)) := rfl
  have hnames : ∀ entry ∈ virtualResults.entries,
      ResultName virtualStages {"input"} entry.2.top := by
    simp [virtualResults, ResultName, virtualStages, consumer, independent, SelectorPath.top]
  have hsupplied : Supplied virtualStages {"input"} someInput :=
    ⟨by simp [someInput], by simp [someInput]⟩
  have hselected : ∀ s, (plan virtualStages (.map virtualResults)).stateAfter nameLanguage
      (executionOrder virtualStages) (fun _ => none) someInput = .ok s →
      SelectorsHold nameLanguage s.resultCtx (virtualResults.entries.map Prod.snd) := by
    intro s hs name key hmem sub hsub
    cases hs
    obtain ⟨rfl, rfl⟩ : name = "consumer" ∧ key = "k" := by simpa [virtualResults] using hmem
    exact absurd hsub.symm (Option.some_ne_none sub)
  obtain ⟨output, s, hrun, hroots, -, -, hresults⟩ := run_prunes_exactly wellNamed_virtualStages
    hbuilt hnames hsupplied
    (fun before stage after s hsplit hs => holds_virtualStages before stage after hsplit s hs)
    hselected
  exact ⟨output, s, hrun, hroots, hresults⟩

end NameLanguage

end RandomArt.Pipeline
