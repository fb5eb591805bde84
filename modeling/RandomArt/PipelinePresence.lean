import RandomArt.PipelineOrder

/-!
# Names that are present

What a stage does depends on which of the names it starts from are present in the full
context: arguments are found, and a feature is computed, exactly when all of them are.
-/

namespace RandomArt.Pipeline

open FallibleFold

variable {Value Err : Type} (interpreter : Interpreter Value Err)
  (roots : Value → Set String)

section Reading

/-- What an expression evaluates to depends on the names it starts from. -/
def Local : Prop := ∀ text ctx ctx',
  (∀ root ∈ roots text, find interpreter ctx root = find interpreter ctx' root) →
    evaluate interpreter text ctx = evaluate interpreter text ctx'

/-- The names that a property starts from. -/
def BuilderPropertyDef.Reads : BuilderPropertyDef Value Err → String → Prop
  | .expr text, root => root ∈ roots (interpreter.string text)
  | .indirect outer, root => root ∈ roots (interpreter.string outer)
  | .method impl, root => ∃ selector ∈ impl.selectors, selector.top = root

def RuntimeFeature.Reads (feature : RuntimeFeature Value Err) (root : String) : Prop :=
  ∃ entry ∈ feature.properties.entries, entry.2.Reads interpreter roots root

/-- Two-part selectors whose name is present find a value with their key. -/
def SelectorsHold (ctx : Context Value) (selectors : List SelectorPath) : Prop :=
  ∀ name key, .part name key ∈ selectors → ∀ sub, find interpreter ctx name = some sub →
    interpreter.propertyIn key sub = .ok true

/-- A method whose selectors hold and that does not throw on what they find. -/
structure MethodHolds (ctx : Context Value) (impl : RuntimeContextualMethod Value Err) : Prop where
  selectors : SelectorsHold interpreter ctx impl.selectors
  returns : ∀ args, resolveArgs interpreter ctx impl.selectors = .ok (some args) →
    ∃ value, impl.fn args = .ok value

/-- A method that holds, or a direct expression that does not throw when its names are
present. -/
def PropertyHolds (ctx : Context Value) : BuilderPropertyDef Value Err → Prop
  | .expr text => (∀ root ∈ roots (interpreter.string text), (find interpreter ctx root).isSome) →
      ∃ value, evaluateCompiled interpreter text ctx = .ok value
  | .indirect _ => False
  | .method impl => MethodHolds interpreter ctx impl

variable {interpreter roots}

theorem resolvePath_spec {ctx : Context Value} {selector : SelectorPath}
    (h : SelectorsHold interpreter ctx [selector]) :
    ∃ found, resolvePath interpreter selector ctx = .ok found ∧
      (found.isSome ↔ (find interpreter ctx selector.top).isSome) := by
  cases selector with
  | whole name => exact ⟨_, rfl, Iff.rfl⟩
  | part name key =>
    rcases hsub : find interpreter ctx name with _ | sub
    · exact ⟨none, by simp [resolvePath, hsub], by simp [SelectorPath.top, hsub]⟩
    · have hkey := h name key (List.mem_singleton_self _) sub hsub
      refine ⟨some (interpreter.property sub key), ?_, by simp [SelectorPath.top, hsub]⟩
      rw [resolvePath, hsub]
      exact bind_of_ok hkey

theorem resolveArgs_spec {ctx : Context Value} {selectors : List SelectorPath}
    (h : SelectorsHold interpreter ctx selectors) :
    ∃ args, resolveArgs interpreter ctx selectors = .ok args ∧
      (args.isSome ↔ ∀ selector ∈ selectors, (find interpreter ctx selector.top).isSome) := by
  induction selectors with
  | nil => exact ⟨some [], rfl, by simp⟩
  | cons selector rest ih =>
    have hone : SelectorsHold interpreter ctx [selector] := fun name key hmem =>
      h name key (List.mem_cons.mpr (Or.inl (List.mem_singleton.mp hmem)))
    obtain ⟨found, hfound, hiff⟩ := resolvePath_spec hone
    obtain ⟨args, hargs, hrest⟩ := ih fun name key hmem => h name key (List.mem_cons_of_mem _ hmem)
    rw [resolveArgs, hfound]
    rcases found with _ | value
    · exact ⟨none, rfl, by simp_all⟩
    · refine ⟨args.map (value :: ·), bind_of_ok hargs, ?_⟩
      simp_all

variable (interpreter roots) in
def RootsPresent (evaluations : List (Evaluation Value)) : Prop :=
  ∀ e ∈ evaluations, ∀ root ∈ roots e.text, (find interpreter e.ctx root).isSome

variable (interpreter roots) in
def DirectPresent (ctx : Context Value) : BuilderPropertyDef Value Err → Prop
  | .expr text => ∀ root ∈ roots (interpreter.string text), (find interpreter ctx root).isSome
  | _ => True

theorem computeProperty_spec {s : RunState Value} (key : String)
    {property : BuilderPropertyDef Value Err}
    (hholds : PropertyHolds interpreter roots s.stepCtx property)
    (hdirect : DirectPresent interpreter roots s.stepCtx property) :
    ∃ value evaluations,
      computeProperty interpreter s key property = .ok (value, evaluations) ∧
      (value.isSome ↔ ∀ root, property.Reads interpreter roots root →
        (find interpreter s.stepCtx root).isSome) ∧
      RootsPresent interpreter roots evaluations := by
  cases property with
  | expr text =>
    obtain ⟨value, hvalue⟩ := hholds hdirect
    refine ⟨some value, _, bind_of_ok hvalue, ?_, ?_⟩
    · exact ⟨fun _ => hdirect, fun _ => rfl⟩
    · intro e he
      rw [List.mem_singleton.mp he]
      exact hdirect
  | indirect outer => exact hholds.elim
  | method impl =>
    obtain ⟨args, hargs, hiff⟩ := resolveArgs_spec hholds.selectors
    have hreads : (∀ selector ∈ impl.selectors, (find interpreter s.stepCtx selector.top).isSome) ↔
        ∀ root, BuilderPropertyDef.Reads interpreter roots (.method impl) root →
          (find interpreter s.stepCtx root).isSome := by
      constructor
      · rintro hall root ⟨selector, hselector, rfl⟩
        exact hall selector hselector
      · exact fun hall selector hselector => hall _ ⟨selector, hselector, rfl⟩
    rw [← hreads, ← hiff]
    rcases args with _ | args
    · exact ⟨none, [], bind_of_ok hargs, by simp, fun e he => by cases he⟩
    · obtain ⟨value, hvalue⟩ := hholds.returns args hargs
      exact ⟨some value, [], (bind_of_ok hargs).trans (bind_of_ok hvalue), by simp,
        fun e he => by cases he⟩

theorem computeProperties_spec {s : RunState Value}
    {properties : List (String × BuilderPropertyDef Value Err)}
    (hholds : ∀ entry ∈ properties, PropertyHolds interpreter roots s.stepCtx entry.2)
    (hdirect : ∀ entry ∈ properties, DirectPresent interpreter roots s.stepCtx entry.2) :
    ∃ ns evaluations,
      computeProperties interpreter s properties = .ok (ns, evaluations) ∧
      (ns.isSome ↔ ∀ entry ∈ properties, ∀ root, entry.2.Reads interpreter roots root →
        (find interpreter s.stepCtx root).isSome) ∧
      RootsPresent interpreter roots evaluations := by
  induction properties with
  | nil => exact ⟨some [], [], rfl, by simp, fun e he => by cases he⟩
  | cons entry rest ih =>
    obtain ⟨key, property⟩ := entry
    obtain ⟨value, evaluations, hvalue, hiff, hpresent⟩ := computeProperty_spec key
      (hholds _ List.mem_cons_self) (hdirect _ List.mem_cons_self)
    obtain ⟨ns, more, hns, hrest, hmore⟩ := ih (fun e he => hholds e (List.mem_cons_of_mem _ he))
      fun e he => hdirect e (List.mem_cons_of_mem _ he)
    simp only [List.forall_mem_cons, ← hiff, ← hrest]
    rcases value with _ | value
    · exact ⟨none, evaluations, bind_of_ok hvalue, by simp, hpresent⟩
    · refine ⟨ns.map ((key, value) :: ·), evaluations ++ more,
        (bind_of_ok hvalue).trans (bind_of_ok hns), by simp, ?_⟩
      exact fun e he => (List.mem_append.mp he).elim (hpresent e) (hmore e)

end Reading

end RandomArt.Pipeline
