import RandomArt.Pipeline

/-!
# Running a pipeline

A run seeds its contexts with the input, the pure functions and the injections, takes
the stages of the execution order one after another, and selects the results.
-/

namespace RandomArt.Pipeline

open FallibleFold

variable {Value Err : Type} (interpreter : Interpreter Value Err)

/-- One evaluation of an expression: where it happened, and in which context. `place` counts
the steps and features before it. -/
structure Evaluation (Value : Type) where
  place : ℕ
  propertyKey : String
  isInner : Bool
  text : Value
  ctx : Context Value

/-- The state of a run. `exposures` notes what each public or split feature put into the
expression context, none if it was pruned. -/
structure RunState (Value : Type) where
  stepCtx : Context Value
  exprCtx : Context Value
  stepResultCtx : Context Value
  pruned : Finset String
  prunedSteps : Finset String
  place : ℕ
  evaluations : List (Evaluation Value)
  exposures : List (Option Value)

/-- What result selectors may start from: public features and step results. -/
def RunState.resultCtx (s : RunState Value) : Context Value := fun name =>
  (s.stepResultCtx name).or (s.exprCtx name)

/-- What an object with the given own properties has under a name. -/
def find (ctx : Context Value) (name : String) : Option Value :=
  (ctx name).or (interpreter.inherited name)

def resolvePath (selector : SelectorPath) (ctx : Context Value) : Except Err (Option Value) :=
  match selector with
  | .whole name => .ok (find interpreter ctx name)
  | .part name key =>
    match find interpreter ctx name with
    | none => .ok none
    | some sub => do
      if ← interpreter.propertyIn key sub then return some (interpreter.property sub key)
      else return none

def resolveArgs (ctx : Context Value) : List SelectorPath → Except Err (Option (List Value))
  | [] => .ok (some [])
  | selector :: rest => do
    match ← resolvePath interpreter selector ctx with
    | none => return none
    | some value => return (← resolveArgs ctx rest).map (value :: ·)

/-- Compile a text and evaluate it, none if there is nothing to evaluate. -/
def evaluate (text : Value) (ctx : Context Value) : Except Err (Option Value) := do
  match ← interpreter.compile text with
  | none => return none
  | some fn => return some (← fn ctx)

def evaluateCompiled (text : String) (ctx : Context Value) : Except Err Value := do
  match ← evaluate interpreter (interpreter.string text) ctx with
  | none => throw interpreter.notAFunction
  | some value => return value

/-- The value of a property, none if it fails, and the evaluations on the way. -/
def computeProperty (s : RunState Value) (key : String) :
    BuilderPropertyDef Value Err → Except Err (Option Value × List (Evaluation Value))
  | .expr text => do
    let value ← evaluateCompiled interpreter text s.stepCtx
    return (some value, [⟨s.place, key, false, interpreter.string text, s.stepCtx⟩])
  | .indirect outer => do
    let innerExpr ← evaluateCompiled interpreter outer s.stepCtx
    let evaluations := [⟨s.place, key, false, interpreter.string outer, s.stepCtx⟩]
    match ← evaluate interpreter innerExpr s.exprCtx with
    | none => return (none, evaluations)
    | some value =>
      return (some value, evaluations ++ [⟨s.place, key, true, innerExpr, s.exprCtx⟩])
  | .method impl => do
    match ← resolveArgs interpreter s.stepCtx impl.selectors with
    | none => return (none, [])
    | some args => return (some (← impl.fn args), [])

def computeProperties (s : RunState Value) :
    List (String × BuilderPropertyDef Value Err) →
      Except Err (Option (List (String × Value)) × List (Evaluation Value))
  | [] => .ok (some [], [])
  | (key, property) :: rest => do
    match ← computeProperty interpreter s key property with
    | (none, evaluations) => return (none, evaluations)
    | (some value, evaluations) =>
      let (ns, more) ← computeProperties s rest
      return (ns.map ((key, value) :: ·), evaluations ++ more)

/-- What a feature with the given properties puts into the expression context. -/
def publicPart (ns : List (String × Value)) : PublicKeys → Option Value
  | .all => some (interpreter.object ns)
  | .none => none
  | .keys keys => some (interpreter.object (keys.filterMap fun key =>
      ((ns.lookup key).or (interpreter.inherited key)).map (key, ·)))

/-- Whether no selector starts from an unfulfilled virtual or a pruned feature. -/
def selectable (unfulfilled pruned : Finset String) (selectors : List SelectorPath) : Bool :=
  selectors.all fun selector => selector.top ∉ pruned && selector.top ∉ unfulfilled

def computeStep (unfulfilled : Finset String) (s : RunState Value)
    (impl : RuntimeContextualMethod Value Err) : Except Err (Option Value) := do
  if selectable unfulfilled s.pruned impl.selectors then
    match ← resolveArgs interpreter s.stepCtx impl.selectors with
    | none => return none
    | some args => return some (← impl.fn args)
  else return none

def finishStep (s : RunState Value) (name : String) : Option Value → RunState Value
  | none => { s with
      prunedSteps := insert name s.prunedSteps
      place := s.place + 1 }
  | some result => { s with
      stepResultCtx := Function.update s.stepResultCtx name (some result)
      place := s.place + 1 }

def runStep (unfulfilled : Finset String) (s : RunState Value) (name : String)
    (impl : RuntimeContextualMethod Value Err) : Except Err (RunState Value) := do
  return finishStep s name (← computeStep interpreter unfulfilled s impl)

/-- The state after a feature with its properties, none if one of them failed. -/
def finishFeature (s : RunState Value) (feature : RuntimeFeature Value Err)
    (evaluations : List (Evaluation Value)) : Option (List (String × Value)) → RunState Value
  | none => { s with
      pruned := insert feature.name s.pruned
      place := s.place + 1
      evaluations := s.evaluations ++ evaluations
      exposures := if feature.publicKeys = .none then s.exposures else s.exposures ++ [none] }
  | some ns =>
    let exposed := publicPart interpreter ns feature.publicKeys
    { s with
      stepCtx := Function.update s.stepCtx feature.name (some (interpreter.object ns))
      exprCtx :=
        if feature.publicKeys = .none then s.exprCtx
        else Function.update s.exprCtx feature.name exposed
      place := s.place + 1
      evaluations := s.evaluations ++ evaluations
      exposures := if feature.publicKeys = .none then s.exposures else s.exposures ++ [exposed] }

def runFeature (s : RunState Value) (feature : RuntimeFeature Value Err) :
    Except Err (RunState Value) := do
  let (computed, evaluations) ← computeProperties interpreter s feature.properties.entries
  return finishFeature interpreter s feature evaluations computed

theorem exists_of_runStep {unfulfilled : Finset String} {s s' : RunState Value} {name : String}
    {impl : RuntimeContextualMethod Value Err}
    (h : runStep interpreter unfulfilled s name impl = .ok s') :
    ∃ result, computeStep interpreter unfulfilled s impl = .ok result ∧
      s' = finishStep s name result := by
  obtain ⟨result, hcompute, hfinish⟩ := exists_of_bind_eq_ok h
  exact ⟨result, hcompute, (Except.ok.inj hfinish).symm⟩

theorem exists_of_runFeature {s s' : RunState Value} {feature : RuntimeFeature Value Err}
    (h : runFeature interpreter s feature = .ok s') :
    ∃ computed evaluations,
      computeProperties interpreter s feature.properties.entries = .ok (computed, evaluations) ∧
      s' = finishFeature interpreter s feature evaluations computed := by
  obtain ⟨⟨computed, evaluations⟩, hcompute, hfinish⟩ := exists_of_bind_eq_ok h
  exact ⟨computed, evaluations, hcompute, (Except.ok.inj hfinish).symm⟩

/-- One stage of the main loop. Pure functions and injections are seeded before it. -/
def runStage (unfulfilled : Finset String) (s : RunState Value) :
    PreparedStage Value Err → Except Err (RunState Value)
  | .feature feature => runFeature interpreter s feature
  | .step name impl => runStep interpreter unfulfilled s name impl
  | .injection _ _ => .ok s
  | .pureFunction _ _ => .ok s

def seedStage (injections : Context Value) (s : RunState Value) :
    PreparedStage Value Err → RunState Value
  | .pureFunction name fn => { s with exprCtx := Function.update s.exprCtx name (some fn) }
  | .injection name isPublic =>
    let value := (find interpreter injections name).getD interpreter.undefined
    { s with
      stepCtx := Function.update s.stepCtx name (some value)
      exprCtx := if isPublic then Function.update s.exprCtx name (some value) else s.exprCtx }
  | _ => s

structure Built (Value Err : Type) where
  namespaceDefaults : Context (List (String × Value))
  unfulfilled : Finset String
  executionOrder : List (PreparedStage Value Err)
  resultSelectors : ResultSelectors Value Err

def plan (stages : List (RuntimeStage Value Err)) (resultSelectors : ResultSelectors Value Err) :
    Built Value Err where
  namespaceDefaults := namespaceDefaults stages
  unfulfilled := unfulfilled stages
  executionOrder := executionOrder stages
  resultSelectors := resultSelectors

def buildPipeline (stages : List (RuntimeStage Value Err))
    (resultSelectors : ResultSelectors Value Err) : Except (BuildError Err) (Built Value Err) := do
  (executionOrder stages).forM (compileStage interpreter)
  return plan stages resultSelectors

def putResult (output : Context Value) (resultKey : String) : Option Value → Context Value
  | none => output
  | some value => Function.update output resultKey (some value)

namespace Built

variable (built : Built Value Err)

/-- The input with the defaults of each namespace filled in. -/
def mergedInitial (initial : Context Value) : Context Value := fun name =>
  match built.namespaceDefaults name with
  | none => initial name
  | some defaults => some (interpreter.object (Record.assignEntries defaults
      (((find interpreter initial name).map interpreter.ownEntries).getD [])))

def unseeded (initial : Context Value) : RunState Value where
  stepCtx := built.mergedInitial interpreter initial
  exprCtx := built.mergedInitial interpreter initial
  stepResultCtx := fun _ => none
  pruned := ∅
  prunedSteps := ∅
  place := 0
  evaluations := []
  exposures := []

def seeded (injections initial : Context Value) : RunState Value :=
  built.executionOrder.foldl (seedStage interpreter injections)
    (built.unseeded interpreter initial)

def stateAfter (stages : List (PreparedStage Value Err)) (injections initial : Context Value) :
    Except Err (RunState Value) :=
  runAll (runStage interpreter built.unfulfilled) stages
    (built.seeded interpreter injections initial)

def selectResult (s : RunState Value) (selector : SelectorPath) : Except Err (Option Value) :=
  if selector.top ∈ built.unfulfilled ∨ selector.top ∈ s.pruned ∨ selector.top ∈ s.prunedSteps then
    .ok none
  else resolvePath interpreter selector s.resultCtx

def collect (s : RunState Value) (output : Context Value)
    (selectors : List (String × SelectorPath)) : Except Err (Context Value) :=
  runAll (fun output entry => do
    return putResult output entry.1 (← built.selectResult interpreter s entry.2)) selectors output

def results (s : RunState Value) : Except Err (Context Value) :=
  match built.resultSelectors with
  | .map selectors => built.collect interpreter s (fun _ => none) selectors.entries
  | .function fn => fn s.resultCtx

/-- One request: the results and the state they were selected from. -/
def run (injections initial : Context Value) : Except Err (Context Value × RunState Value) := do
  let s ← built.stateAfter interpreter built.executionOrder injections initial
  return (← built.results interpreter s, s)

end Built

/-- One request to a pipeline that is built for it. -/
def request (stages : List (RuntimeStage Value Err)) (resultSelectors : ResultSelectors Value Err)
    (injections initial : Context Value) :
    Except (BuildError Err) (Except Err (Context Value × RunState Value)) :=
  (buildPipeline interpreter stages resultSelectors).map fun built =>
    built.run interpreter injections initial

end RandomArt.Pipeline
