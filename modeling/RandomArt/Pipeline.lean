import RandomArt.FallibleFold
import Mathlib.Data.Finset.Basic
import Mathlib.Logic.Function.Basic

/-!
# Pipelines

A builder collects stages. Building puts the features that fulfill a virtual into the
slot of that virtual; a run then goes through the stages once, growing a full context
and the part of it that expressions may see, and prunes what it cannot compute. A run
also notes which expressions it evaluated and what each feature made visible.
-/

namespace RandomArt

/-- A JavaScript object with its keys in the order in which they are enumerated. -/
structure Record (α : Type) where
  entries : List (String × α)
  nodup : (entries.map Prod.fst).Nodup

namespace Record

variable {α : Type}

def keys (record : Record α) : List String := record.entries.map Prod.fst

/-- The entries of `{...base, ...update}`. -/
def assignEntries (base update : List (String × α)) : List (String × α) :=
  base.map (fun entry => (entry.1, (update.lookup entry.1).getD entry.2)) ++
    update.filter fun entry => !(base.map Prod.fst).contains entry.1

theorem nodup_assignEntries {base update : List (String × α)} (hbase : (base.map Prod.fst).Nodup)
    (hupdate : (update.map Prod.fst).Nodup) : ((assignEntries base update).map Prod.fst).Nodup := by
  have hkept : (base.map (fun entry => (entry.1, (update.lookup entry.1).getD entry.2))).map
      Prod.fst = base.map Prod.fst := by
    rw [List.map_map]
    rfl
  rw [assignEntries, List.map_append, hkept]
  apply hbase.append (hupdate.sublist (List.filter_sublist.map _))
  intro key hkey hnew
  obtain ⟨entry, hentry, rfl⟩ := List.mem_map.mp hnew
  simp only [List.mem_filter, Bool.not_eq_true', List.contains_eq_mem, decide_eq_false_iff_not]
    at hentry
  exact hentry.2 hkey

def assign (base update : Record α) : Record α :=
  ⟨assignEntries base.entries update.entries, nodup_assignEntries base.nodup update.nodup⟩

end Record

namespace Pipeline

/-- The own properties of a context object. -/
abbrev Context (Value : Type) := String → Option Value

/-- Values of the language the pipeline is written in, and its expressions. `inherited`
is what every plain object has from its prototype. -/
structure Interpreter (Value Err : Type) where
  undefined : Value
  string : String → Value
  object : List (String × Value) → Value
  ownEntries : Value → List (String × Value)
  inherited : String → Option Value
  propertyIn : String → Value → Except Err Bool
  property : Value → String → Value
  compile : Value → Except Err (Option (Context Value → Except Err Value))
  notAFunction : Err

inductive SelectorPath where
  | whole (name : String)
  | part (name key : String)
  deriving DecidableEq

/-- The name that a selector starts from. -/
def SelectorPath.top : SelectorPath → String
  | .whole name => name
  | .part name _ => name

structure RuntimeContextualMethod (Value Err : Type) where
  fn : List Value → Except Err Value
  selectors : List SelectorPath

inductive BuilderPropertyDef (Value Err : Type) where
  | expr (text : String)
  | indirect (outer : String)
  | method (impl : RuntimeContextualMethod Value Err)

inductive PublicKeys where
  | all
  | none
  | keys (keys : List String)
  deriving DecidableEq

structure RuntimeFeature (Value Err : Type) where
  name : String
  publicKeys : PublicKeys
  properties : Record (BuilderPropertyDef Value Err)

inductive RuntimeStage (Value Err : Type) where
  | virtual (name : String)
  | initialDefaults (name : String) (defaults : Record Value)
  | feature (feature : RuntimeFeature Value Err)
  | step (name : String) (impl : RuntimeContextualMethod Value Err)
  | injection (name : String) (isPublic : Bool)
  | pureFunction (name : String) (fn : Value)

/-- A stage of the execution order. A compiled expression is kept as its text. -/
inductive PreparedStage (Value Err : Type) where
  | feature (feature : RuntimeFeature Value Err)
  | step (name : String) (impl : RuntimeContextualMethod Value Err)
  | injection (name : String) (isPublic : Bool)
  | pureFunction (name : String) (fn : Value)

inductive ResultSelectors (Value Err : Type) where
  | map (selectors : Record SelectorPath)
  | function (fn : Context Value → Except Err (Context Value))

variable {Value Err : Type}

section Builder

/-- The stage that `addFeature` appends. Every other builder method appends its arguments
as they are. -/
def addFeature (name : String) (publicProperties privateProperties :
    Record (BuilderPropertyDef Value Err)) : RuntimeStage Value Err :=
  .feature ⟨name, .keys publicProperties.keys, publicProperties.assign privateProperties⟩

end Builder

section Building

variable (stages : List (RuntimeStage Value Err))

def collectDefaults (collected : Context (List (String × Value))) :
    RuntimeStage Value Err → Context (List (String × Value))
  | .initialDefaults name defaults => Function.update collected name
      (some (Record.assignEntries ((collected name).getD []) defaults.entries))
  | _ => collected

/-- The defaults of each namespace, from all its stages. -/
def namespaceDefaults : Context (List (String × Value)) :=
  stages.foldl collectDefaults fun _ => none

def virtualNames : Finset String :=
  (stages.filterMap fun stage =>
    match stage with
    | .virtual name => some name
    | _ => none).toFinset

def features : List (RuntimeFeature Value Err) :=
  stages.filterMap fun stage =>
    match stage with
    | .feature feature => some feature
    | _ => none

/-- The feature that fulfills the virtual of a name: the last one of that name. -/
def fulfillment (name : String) : Option (RuntimeFeature Value Err) :=
  if name ∈ virtualNames stages then
    ((features stages).filter fun feature => feature.name = name).getLast?
  else none

def unfulfilled : Finset String :=
  (virtualNames stages).filter fun name => (fulfillment stages name).isNone

/-- What stands in the execution order for a stage. -/
def slot : RuntimeStage Value Err → Option (PreparedStage Value Err)
  | .virtual name => (fulfillment stages name).map .feature
  | .initialDefaults _ _ => none
  | .feature feature =>
    if (fulfillment stages feature.name).isSome then none else some (.feature feature)
  | .step name impl => some (.step name impl)
  | .injection name isPublic => some (.injection name isPublic)
  | .pureFunction name fn => some (.pureFunction name fn)

def executionOrder : List (PreparedStage Value Err) := stages.filterMap (slot stages)

structure BuildError (Err : Type) where
  featureName : String
  propertyKey : String
  expression : String
  cause : Err

variable (interpreter : Interpreter Value Err)

def tryCompile (featureName propertyKey text : String) : Except (BuildError Err) Unit :=
  match interpreter.compile (interpreter.string text) with
  | .error cause => .error ⟨featureName, propertyKey, text, cause⟩
  | .ok _ => .ok ()

def compileProperty (featureName propertyKey : String) :
    BuilderPropertyDef Value Err → Except (BuildError Err) Unit
  | .expr text => tryCompile interpreter featureName propertyKey text
  | .indirect outer => tryCompile interpreter featureName propertyKey outer
  | .method _ => .ok ()

/-- The parse errors of a stage's expressions. -/
def compileStage : PreparedStage Value Err → Except (BuildError Err) Unit
  | .feature feature => feature.properties.entries.forM fun entry =>
      compileProperty interpreter feature.name entry.1 entry.2
  | _ => .ok ()

end Building

end Pipeline

end RandomArt
