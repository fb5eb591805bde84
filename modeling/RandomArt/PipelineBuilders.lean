import RandomArt.PipelineSharing

/-!
# Builders that share their stages

A builder holds an array of stages. Adding an operation makes a new stage object and a new array
that starts with the stages of the old one: builders share stage objects, and no array is ever
written to. Neither are the caches of a pipeline seen by another: a pipeline that is built from
the same stages starts with empty ones.
-/

namespace RandomArt.Pipeline

open Coroutine

variable {Value Err : Type}

/-- Stage objects and the arrays of them that builders hold, both by reference. -/
structure Memory (Value Err : Type) where
  objects : List (RuntimeStage Value Err)
  arrays : List (List ℕ)
  inBounds : ∀ stages ∈ arrays, ∀ stage ∈ stages, stage < objects.length

/-- `createPipeline` makes a builder without stages; every other operation of a builder makes a
builder with one stage more. -/
inductive BuilderAction (Value Err : Type) where
  | createPipeline
  | next (builder : ℕ) (stage : RuntimeStage Value Err)

namespace Memory

def empty : Memory Value Err := ⟨[], [], fun _ h => absurd h List.not_mem_nil⟩

/-- `createBuilderImpl(stages)` with a new array. -/
def createBuilderImpl (memory : Memory Value Err) (stages : List ℕ)
    (h : ∀ stage ∈ stages, stage < memory.objects.length) : Memory Value Err where
  objects := memory.objects
  arrays := memory.arrays ++ [stages]
  inBounds := by
    simp only [List.mem_append, List.mem_singleton]
    rintro array (harray | rfl)
    · exact memory.inBounds array harray
    · exact h

def addObject (memory : Memory Value Err) (stage : RuntimeStage Value Err) : Memory Value Err where
  objects := memory.objects ++ [stage]
  arrays := memory.arrays
  inBounds := fun array harray ref href => by
    have hold := memory.inBounds array harray ref href
    rw [List.length_append]
    omega

def perform (memory : Memory Value Err) : BuilderAction Value Err → Memory Value Err
  | .createPipeline => memory.createBuilderImpl [] fun _ h => absurd h List.not_mem_nil
  | .next builder stage =>
    match h : memory.arrays[builder]? with
    | none => memory
    | some stages =>
      (memory.addObject stage).createBuilderImpl (stages ++ [memory.objects.length]) <| by
        simp only [List.mem_append, List.mem_singleton]
        rintro ref (href | rfl)
        · have hold := memory.inBounds stages (List.mem_of_getElem? h) ref href
          exact Nat.lt_of_lt_of_le hold (by simp [addObject])
        · simp [addObject]

def performAll (memory : Memory Value Err) (actions : List (BuilderAction Value Err)) :
    Memory Value Err :=
  actions.foldl perform memory

/-- The stages of a builder, read through its references. -/
def stagesOf (memory : Memory Value Err) (builder : ℕ) : Option (List (RuntimeStage Value Err)) :=
  (memory.arrays[builder]?).map (List.filterMap (memory.objects[·]?))

def builds (memory : Memory Value Err) (interpreter : Interpreter Value Err) (builder : ℕ)
    (resultSelectors : ResultSelectors Value Err) :
    Option (Except (BuildError Err) (Built Value Err)) :=
  (memory.stagesOf builder).map (buildPipeline interpreter · resultSelectors)

/-- A memory in which everything that an older one has stands where it was. -/
structure Extends (later memory : Memory Value Err) : Prop where
  objects : ∀ (ref : ℕ) (stage : RuntimeStage Value Err),
    memory.objects[ref]? = some stage → later.objects[ref]? = some stage
  arrays : ∀ (builder : ℕ) (stages : List ℕ),
    memory.arrays[builder]? = some stages → later.arrays[builder]? = some stages

theorem getElem?_append_of_eq_some {α : Type} {l : List α} {i : ℕ} {a : α} (h : l[i]? = some a)
    (more : List α) : (l ++ more)[i]? = some a := by
  rw [List.getElem?_append_left (List.getElem?_eq_some_iff.mp h).1, h]

theorem Extends.refl (memory : Memory Value Err) : memory.Extends memory :=
  ⟨fun _ _ h => h, fun _ _ h => h⟩

theorem Extends.trans {latest later memory : Memory Value Err} (h : latest.Extends later)
    (h' : later.Extends memory) : latest.Extends memory :=
  ⟨fun ref stage hstage => h.objects ref stage (h'.objects ref stage hstage),
    fun builder stages hstages => h.arrays builder stages (h'.arrays builder stages hstages)⟩

theorem extends_createBuilderImpl (memory : Memory Value Err) {stages : List ℕ}
    (h : ∀ stage ∈ stages, stage < memory.objects.length) :
    (memory.createBuilderImpl stages h).Extends memory :=
  ⟨fun _ _ hstage => hstage, fun _ _ harray => getElem?_append_of_eq_some harray _⟩

theorem extends_addObject (memory : Memory Value Err) (stage : RuntimeStage Value Err) :
    (memory.addObject stage).Extends memory :=
  ⟨fun _ _ hstage => getElem?_append_of_eq_some hstage _, fun _ _ harray => harray⟩

theorem extends_perform (memory : Memory Value Err) (action : BuilderAction Value Err) :
    (memory.perform action).Extends memory := by
  cases action with
  | createPipeline =>
    rw [perform]
    exact extends_createBuilderImpl _ _
  | next builder stage =>
    rw [perform]
    split
    · exact Extends.refl memory
    · exact (extends_createBuilderImpl _ _).trans (extends_addObject memory stage)

theorem extends_performAll (memory : Memory Value Err)
    (actions : List (BuilderAction Value Err)) : (memory.performAll actions).Extends memory := by
  induction actions generalizing memory with
  | nil => exact Extends.refl memory
  | cons action rest ih => exact (ih (memory.perform action)).trans (extends_perform memory action)

theorem Extends.stagesOf {later memory : Memory Value Err} (h : later.Extends memory)
    {builder : ℕ} {stages : List (RuntimeStage Value Err)}
    (hstages : memory.stagesOf builder = some stages) : later.stagesOf builder = some stages := by
  rw [Memory.stagesOf] at hstages ⊢
  obtain ⟨refs, harray, rfl⟩ := Option.map_eq_some_iff.mp hstages
  rw [h.arrays builder refs harray, Option.map_some]
  congr 1
  refine List.filterMap_congr fun ref href => ?_
  have hbound := memory.inBounds refs (List.mem_of_getElem? harray) ref href
  rw [List.getElem?_eq_getElem hbound]
  exact h.objects ref _ (List.getElem?_eq_getElem hbound)

theorem stagesOf_next {memory : Memory Value Err} {builder : ℕ}
    {stages : List (RuntimeStage Value Err)} (h : memory.stagesOf builder = some stages)
    (stage : RuntimeStage Value Err) :
    (memory.perform (.next builder stage)).stagesOf memory.arrays.length =
      some (stages ++ [stage]) := by
  rw [stagesOf] at h
  obtain ⟨refs, harray, rfl⟩ := Option.map_eq_some_iff.mp h
  rw [perform]
  split
  · rename_i hnone
    rw [harray] at hnone
    cases hnone
  · rename_i refs' harray'
    obtain rfl : refs = refs' := Option.some.inj (harray.symm.trans harray')
    have hkeep : refs.filterMap ((memory.objects ++ [stage])[·]?) =
        refs.filterMap (memory.objects[·]?) := by
      refine List.filterMap_congr fun ref href => ?_
      exact List.getElem?_append_left (memory.inBounds refs (List.mem_of_getElem? harray) ref href)
    simp [stagesOf, createBuilderImpl, addObject, hkeep]

/-- What a builder builds, it builds whatever is added to other builders or to itself. -/
theorem builds_performAll {memory : Memory Value Err} {interpreter : Interpreter Value Err}
    {builder : ℕ} {resultSelectors : ResultSelectors Value Err}
    {built : Except (BuildError Err) (Built Value Err)}
    (h : memory.builds interpreter builder resultSelectors = some built)
    (actions : List (BuilderAction Value Err)) :
    (memory.performAll actions).builds interpreter builder resultSelectors = some built := by
  rw [builds] at h ⊢
  obtain ⟨stages, hstages, rfl⟩ := Option.map_eq_some_iff.mp h
  rw [(extends_performAll memory actions).stagesOf hstages]
  rfl

end Memory

section Independence

variable [DecidableEq Value]

/-- Whatever the schedule, each run of a pipeline returns what a run of a new pipeline returns,
after at most the pipeline's number of awaits. What a builder builds does not change with the
operations that are added after it to any builder. -/
theorem pipelines_independent (interpreter : Interpreter Value Err) :
    (∀ (built : Built Value Err) (schedule : List (Action (RunInput Value))),
      ∀ task ∈ (interleave (built.running interpreter) noCaches schedule).tasks,
        task.status = .returned (built.freshRun interpreter task.input) ∨
          (∃ rest, task.status = .waiting rest) ∧ task.resumed < built.awaits) ∧
    ∀ (made added : List (BuilderAction Value Err)) (builder : ℕ)
      (resultSelectors : ResultSelectors Value Err),
      builder < (Memory.empty.performAll made).arrays.length →
      ∃ built,
        (Memory.empty.performAll made).builds interpreter builder resultSelectors = some built ∧
        (Memory.empty.performAll (made ++ added)).builds interpreter builder resultSelectors =
          some built := by
  constructor
  · intro built schedule task htask
    have hcourse := (interleave_settles (fun input => settles_running built input) sound_noCaches
      schedule).2 task htask
    rw [Task.OnCourse] at hcourse
    rw [freshRun_eq_run]
    cases hstatus : task.status with
    | returned result =>
      rw [hstatus] at hcourse
      exact Or.inl (congrArg _ hcourse)
    | waiting rest =>
      rw [hstatus] at hcourse
      obtain ⟨n, -, hawaits⟩ := hcourse
      exact Or.inr ⟨⟨rest, rfl⟩, by omega⟩
  · intro made added builder resultSelectors hbuilder
    obtain ⟨built, hbuilds⟩ : ∃ built, (Memory.empty.performAll made).builds interpreter builder
        resultSelectors = some built := by
      rw [Memory.builds, Memory.stagesOf, List.getElem?_eq_getElem hbuilder]
      exact ⟨_, rfl⟩
    refine ⟨built, hbuilds, ?_⟩
    rw [Memory.performAll, List.foldl_append]
    exact Memory.builds_performAll hbuilds added

/-- A feature that awaits a method before it evaluates what the input names. -/
def indirectPipeline : Built NameValue String :=
  plan [.feature ⟨"feature", .all, ⟨[("first", .method (firstOf (.whole "input"))),
    ("second", .indirect "input")], by decide⟩⟩] (.map ⟨[("result", .whole "feature")], by decide⟩)

def namingInput (value : NameValue) : RunInput NameValue where
  injections := fun _ => none
  initial := fun key =>
    if key = "input" then some (.text "other") else if key = "other" then some value else none

/-- Two runs that await in turn: the second to go on finds the inner expression compiled. -/
theorem pipelines_independent_indirect :
    (∃ task ∈ (interleave (indirectPipeline.running nameLanguage) noCaches
        [.call (namingInput .method), .call (namingInput .undefined), .resume 1, .resume 0]).tasks,
      task.input = namingInput .method ∧
        task.status = .returned (indirectPipeline.freshRun nameLanguage task.input)) ∧
    ∃ built,
      (Memory.empty.performAll [.createPipeline, .next 0 (.virtual "first")]).builds nameLanguage 0
        (.map ⟨[], List.nodup_nil⟩) = some built ∧
      (Memory.empty.performAll ([.createPipeline, .next 0 (.virtual "first")] ++
          [.next 1 (.virtual "second"), .next 0 (.virtual "third")])).builds nameLanguage 0
        (.map ⟨[], List.nodup_nil⟩) = some built := by
  refine ⟨?_, (pipelines_independent nameLanguage).2 _ _ 0 _ (by decide)⟩
  refine ⟨_, List.mem_cons_self, rfl, ?_⟩
  rcases (pipelines_independent nameLanguage).1 indirectPipeline [.call (namingInput .method),
    .call (namingInput .undefined), .resume 1, .resume 0] _ List.mem_cons_self with
    hreturned | ⟨-, hresumed⟩
  · exact hreturned
  · exact absurd hresumed (by decide)

end Independence

end RandomArt.Pipeline
