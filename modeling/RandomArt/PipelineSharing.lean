import RandomArt.Coroutine
import RandomArt.PipelineRun
import RandomArt.NameLanguage
import Mathlib.Algebra.GroupWithZero.Nat

/-!
# Runs that share a pipeline

All runs of a pipeline share the compiled inner expressions of its indirect properties. A run
gives way to others wherever it awaits what a method returns. What the caches hold is what
compiling the text gives, so that no run depends on which texts others have brought.
-/

namespace RandomArt.Pipeline

open Coroutine

variable {Value Err : Type} (interpreter : Interpreter Value Err)

abbrev CompiledExpr (Value Err : Type) := Context Value → Except Err Value

/-- The caches of all indirect properties: by the place of the feature in the execution order
and the key of the property. -/
abbrev Caches (Value Err : Type) := ℕ → String → Value → Option (CompiledExpr Value Err)

abbrev Running (Value Err α : Type) := Coroutine (Caches Value Err) Err α

/-- The caches of a pipeline that was just built. -/
def noCaches : Caches Value Err := fun _ _ _ => none

section Program

variable [DecidableEq Value]

/-- `cache.set(text, compiled)` -/
def Caches.set (caches : Caches Value Err) (place : ℕ) (key : String) (text : Value)
    (compiled : CompiledExpr Value Err) : Caches Value Err :=
  fun place' key' text' =>
    if place' = place ∧ key' = key ∧ text' = text then some compiled
    else caches place' key' text'

/-- The compiled form of an inner expression, from the cache or by compiling it, none if it
compiles to nothing. -/
def cachedCompile (place : ℕ) (key : String) (innerExpr : Value) :
    Running Value Err (Option (CompiledExpr Value Err)) := do
  match ← read fun caches => caches place key innerExpr with
  | some innerFn => return some innerFn
  | none =>
    match ← lift (interpreter.compile innerExpr) with
    | none => return none
    | some compiled =>
      modify fun caches => caches.set place key innerExpr compiled
      return some compiled

def runningProperty (s : RunState Value) (key : String) :
    BuilderPropertyDef Value Err → Running Value Err (Option Value × List (Evaluation Value))
  | .expr text => do
    let value ← lift (evaluateCompiled interpreter text s.stepCtx)
    return (some value, [⟨s.place, key, false, interpreter.string text, s.stepCtx⟩])
  | .indirect outer => do
    let innerExpr ← lift (evaluateCompiled interpreter outer s.stepCtx)
    let evaluations := [⟨s.place, key, false, interpreter.string outer, s.stepCtx⟩]
    match ← cachedCompile interpreter s.place key innerExpr with
    | none => return (none, evaluations)
    | some innerFn =>
      let value ← lift (innerFn s.exprCtx)
      return (some value, evaluations ++ [⟨s.place, key, true, innerExpr, s.exprCtx⟩])
  | .method impl => do
    match ← lift (resolveArgs interpreter s.stepCtx impl.selectors) with
    | none => return (none, [])
    | some args =>
      let value ← awaiting (impl.fn args)
      return (some value, [])

def runningProperties (s : RunState Value) :
    List (String × BuilderPropertyDef Value Err) →
      Running Value Err (Option (List (String × Value)) × List (Evaluation Value))
  | [] => return (some [], [])
  | (key, property) :: rest => do
    match ← runningProperty interpreter s key property with
    | (none, evaluations) => return (none, evaluations)
    | (some value, evaluations) =>
      let (ns, more) ← runningProperties s rest
      return (ns.map ((key, value) :: ·), evaluations ++ more)

def runningStep (unfulfilled : Finset String) (s : RunState Value)
    (impl : RuntimeContextualMethod Value Err) : Running Value Err (Option Value) := do
  if selectable unfulfilled s.pruned impl.selectors then
    match ← lift (resolveArgs interpreter s.stepCtx impl.selectors) with
    | none => return none
    | some args =>
      let result ← awaiting (impl.fn args)
      return some result
  else return none

def runningStage (unfulfilled : Finset String) (s : RunState Value) :
    PreparedStage Value Err → Running Value Err (RunState Value)
  | .feature feature => do
    let (computed, evaluations) ← runningProperties interpreter s feature.properties.entries
    return finishFeature interpreter s feature evaluations computed
  | .step name impl => do
    let result ← runningStep interpreter unfulfilled s impl
    return finishStep s name result
  | .injection _ _ => return s
  | .pureFunction _ _ => return s

def runningStages (unfulfilled : Finset String) :
    List (PreparedStage Value Err) → RunState Value → Running Value Err (RunState Value)
  | [], s => return s
  | stage :: rest, s => do
    let s' ← runningStage interpreter unfulfilled s stage
    runningStages unfulfilled rest s'

/-- What a run is called with: the injections that its pipeline was given, and the input. -/
structure RunInput (Value : Type) where
  injections : Context Value
  initial : Context Value

def Built.running (built : Built Value Err) (input : RunInput Value) :
    Running Value Err (Context Value × RunState Value) := do
  let s ← runningStages interpreter built.unfulfilled built.executionOrder
    (built.seeded interpreter input.injections input.initial)
  let output ← lift (built.results interpreter s)
  return (output, s)

/-- What a pipeline that was just built returns when nothing else runs. -/
def Built.freshRun (built : Built Value Err) (input : RunInput Value) :
    Except Err (Context Value × RunState Value) :=
  ((built.running interpreter input).complete noCaches).1

end Program

section Awaits

def BuilderPropertyDef.awaits : BuilderPropertyDef Value Err → ℕ
  | .method _ => 1
  | _ => 0

def PreparedStage.awaits : PreparedStage Value Err → ℕ
  | .feature f => (f.properties.entries.map fun entry => entry.2.awaits).sum
  | .step _ _ => 1
  | _ => 0

/-- The awaits of a run in which nothing is pruned: one for each step and method property. -/
def Built.awaits (built : Built Value Err) : ℕ :=
  (built.executionOrder.map PreparedStage.awaits).sum

end Awaits

section Settling

variable {interpreter}

variable (interpreter) in
/-- Every cached expression is what its text compiles to. -/
def Sound (caches : Caches Value Err) : Prop :=
  ∀ place key text fn, caches place key text = some fn → interpreter.compile text = .ok (some fn)

theorem sound_noCaches : Sound interpreter (noCaches : Caches Value Err) :=
  fun _ _ _ _ h => nomatch h

theorem settles_runningStep (unfulfilled : Finset String) (s : RunState Value)
    (impl : RuntimeContextualMethod Value Err) :
    (runningStep interpreter unfulfilled s impl).Settles (Sound interpreter)
      (computeStep interpreter unfulfilled s impl) 1 := by
  rw [runningStep, computeStep]
  split_ifs
  · refine settles_lift_bind ?_
    rintro (_ | args) _
    · exact settles_pure _ 1
    · exact (settles_awaiting (impl.fn args)).bind (m := 0) fun value _ => settles_pure _ 0
  · exact settles_pure _ 1

variable [DecidableEq Value]

theorem Sound.set {caches : Caches Value Err} (h : Sound interpreter caches) {place : ℕ}
    {key : String} {text : Value} {compiled : CompiledExpr Value Err}
    (hcompile : interpreter.compile text = .ok (some compiled)) :
    Sound interpreter (caches.set place key text compiled) := by
  intro place' key' text' fn hfn
  rw [Caches.set] at hfn
  split_ifs at hfn with hsame
  · obtain ⟨-, -, rfl⟩ := hsame
    cases hfn
    exact hcompile
  · exact h place' key' text' fn hfn

/-- From sound caches the compiled form is what compiling gives, whoever has compiled it. -/
theorem settles_cachedCompile (place : ℕ) (key : String) (innerExpr : Value) :
    (cachedCompile interpreter place key innerExpr).Settles (Sound interpreter)
      (interpreter.compile innerExpr) 0 := by
  refine settles_read_bind fun caches hsound => ?_
  cases hcached : caches place key innerExpr with
  | some innerFn =>
    rw [hsound place key innerExpr innerFn hcached]
    exact settles_pure _ 0
  | none =>
    rcases hcompile : interpreter.compile innerExpr with error | (_ | compiled)
    · exact rfl
    · exact rfl
    · exact settles_modify_bind (fun _ hs => hs.set hcompile) (settles_pure _ 0)

theorem settles_runningProperty (s : RunState Value) (key : String)
    (property : BuilderPropertyDef Value Err) :
    (runningProperty interpreter s key property).Settles (Sound interpreter)
      (computeProperty interpreter s key property) property.awaits := by
  cases property with
  | expr text => exact settles_lift_bind fun value _ => settles_pure _ 0
  | indirect outer =>
    refine settles_lift_bind fun innerExpr _ => ?_
    have hevaluate : ∀ next : Option Value → Except Err (Option Value × List (Evaluation Value)),
        (evaluate interpreter innerExpr s.exprCtx).bind next =
          (interpreter.compile innerExpr).bind fun
            | none => next none
            | some innerFn => (innerFn s.exprCtx).bind fun value => next (some value) := by
      intro next
      rw [evaluate]
      rcases interpreter.compile innerExpr with error | (_ | innerFn)
      · rfl
      · rfl
      · simp only [Bind.bind, Except.bind]
        cases innerFn s.exprCtx <;> rfl
    change Settles _ ((evaluate interpreter innerExpr s.exprCtx).bind _) _ _
    rw [hevaluate]
    refine (settles_cachedCompile s.place key innerExpr).bind (m := 0) ?_
    rintro (_ | innerFn) _
    · exact settles_pure _ 0
    · exact settles_lift_bind fun value _ => settles_pure _ 0
  | method impl =>
    refine settles_lift_bind ?_
    rintro (_ | args) _
    · exact settles_pure _ 1
    · exact (settles_awaiting (impl.fn args)).bind (m := 0) fun value _ => settles_pure _ 0

theorem settles_runningProperties (s : RunState Value)
    (properties : List (String × BuilderPropertyDef Value Err)) :
    (runningProperties interpreter s properties).Settles (Sound interpreter)
      (computeProperties interpreter s properties)
      (properties.map fun entry => entry.2.awaits).sum := by
  induction properties with
  | nil => exact settles_pure _ 0
  | cons entry rest ih =>
    obtain ⟨key, property⟩ := entry
    rw [List.map_cons, List.sum_cons]
    refine (settles_runningProperty s key property).bind ?_
    rintro ⟨_ | value, evaluations⟩ _
    · exact settles_pure _ _
    · exact ih.bind (m := 0) fun computed _ => settles_pure _ 0

theorem settles_runningStage (unfulfilled : Finset String) (s : RunState Value)
    (stage : PreparedStage Value Err) :
    (runningStage interpreter unfulfilled s stage).Settles (Sound interpreter)
      (runStage interpreter unfulfilled s stage) stage.awaits := by
  cases stage with
  | feature f =>
    exact (settles_runningProperties s f.properties.entries).bind (m := 0) fun computed _ =>
      settles_pure _ 0
  | step name impl =>
    exact (settles_runningStep unfulfilled s impl).bind (m := 0) fun result _ => settles_pure _ 0
  | injection name isPublic => exact settles_pure _ 0
  | pureFunction name fn => exact settles_pure _ 0

theorem settles_runningStages (unfulfilled : Finset String)
    (stages : List (PreparedStage Value Err)) (s : RunState Value) :
    (runningStages interpreter unfulfilled stages s).Settles (Sound interpreter)
      (FallibleFold.runAll (runStage interpreter unfulfilled) stages s)
      (stages.map PreparedStage.awaits).sum := by
  induction stages generalizing s with
  | nil => exact settles_pure _ 0
  | cons stage rest ih =>
    rw [List.map_cons, List.sum_cons]
    exact (settles_runningStage unfulfilled s stage).bind fun s' _ => ih s'

/-- A run among others comes to what the run by itself comes to. -/
theorem settles_running (built : Built Value Err) (input : RunInput Value) :
    (built.running interpreter input).Settles (Sound interpreter)
      (built.run interpreter input.injections input.initial) built.awaits := by
  refine (settles_runningStages built.unfulfilled built.executionOrder
    (built.seeded interpreter input.injections input.initial)).bind (m := 0) fun s _ => ?_
  exact settles_lift_bind fun output _ => settles_pure _ 0

theorem freshRun_eq_run (built : Built Value Err) (input : RunInput Value) :
    built.freshRun interpreter input = built.run interpreter input.injections input.initial :=
  (settles_running built input).complete sound_noCaches

end Settling

end RandomArt.Pipeline
