import RandomArt.FailingSteps
import Mathlib.Data.Nat.Notation

/-!
# The blueprint of a dynamic module

A builder that collects the imports, the providers and the exports of a module, each new one in
front of the others, until the module is built. The built module shares the builder's lists.
-/

namespace RandomArt.DynamicModuleBlueprint

open Failing

section Values

/-- What a provider is found under. -/
inductive Token (Cls : Type) where
  | string (name : String)
  | symbol (id : ℕ)
  | cls (type : Cls)
  deriving DecidableEq

/-- What stands for a module. A dynamic module is known by its property `module`. -/
inductive ModuleRef (Cls Obj : Type) where
  | cls (type : Cls)
  | dynamic (module : Cls) (rest : Obj)
  | promise (promised : Obj)
  | forwardRef (forward : Obj)

/-- A factory that calls a method of its first argument with the others, or a given one. -/
inductive Factory (Obj : Type) where
  | method (name : String)
  | given (function : Obj)

/-- What is injected into a factory: a token, with or without a word on its being optional. -/
structure FactoryDependency (Cls : Type) where
  token : Token Cls
  optional : Option Bool

inductive Provider (Cls Obj : Type) where
  | cls (type : Cls)
  | useClass (provide : Token Cls) (type : Cls)
  | useExisting (provide existing : Token Cls)
  | useFactory (provide : Token Cls) (factory : Factory Obj) (inject : List (FactoryDependency Cls))
  | useValue (provide : Token Cls) (value : Obj)

variable {Cls Obj : Type}

def Provider.token : Provider Cls Obj → Token Cls
  | .cls type => .cls type
  | .useClass provide _ | .useExisting provide _ | .useFactory provide _ _
  | .useValue provide _ => provide

/-- A class that is provided under itself or under another token. -/
inductive ClassProvider (Cls : Type) where
  | cls (type : Cls)
  | useClass (provide : Token Cls) (type : Cls)

def ClassProvider.token : ClassProvider Cls → Token Cls
  | .cls type => .cls type
  | .useClass provide _ => provide

def ClassProvider.toProvider : ClassProvider Cls → Provider Cls Obj
  | .cls type => .cls type
  | .useClass provide type => .useClass provide type

structure FunctionInjectTokenArgument (Cls Obj : Type) where
  token : Token Cls
  module : Option (ModuleRef Cls Obj)
  optional : Option Bool

/-- How a dependency is met. Strings, numbers and other values are met alike; `other` is an object
of none of the kinds, which is itself the value. -/
inductive ModuleDependenciesOption (Cls Obj : Type) where
  | tokenForValue (token : Token Cls) (module : Option (ModuleRef Cls Obj))
  | tokenForFactory (token : Token Cls) (module : Option (ModuleRef Cls Obj)) (method : String)
      (inject : Option (List (FunctionInjectTokenArgument Cls Obj)))
  | classForValue (provider : ClassProvider Cls)
  | classForFactory (provider : ClassProvider Cls) (method : String)
      (inject : Option (List (FunctionInjectTokenArgument Cls Obj)))
  | function (value : Obj) (inject : Option (List (FunctionInjectTokenArgument Cls Obj)))
  | value (value : Obj)
  | other (diConfig : Obj)

/-- An export, as a provider or as a module. -/
inductive Export (Cls Obj : Type) where
  | provider (provider : Provider Cls Obj)
  | module (module : ModuleRef Cls Obj)

/-- How an imported module is exported: a dynamic module by its class. -/
def ModuleRef.exported : ModuleRef Cls Obj → ModuleRef Cls Obj
  | .dynamic module _ => .cls module
  | .cls type => .cls type
  | .promise promised => .promise promised
  | .forwardRef forward => .forwardRef forward

end Values

structure Blueprint (Cls Obj : Type) where
  module : Cls
  global : Bool
  built : Bool
  imports : List (ModuleRef Cls Obj)
  providers : List (Provider Cls Obj)
  exports : List (Export Cls Obj)

/-- What a new builder holds. -/
def Blueprint.new {Cls Obj : Type} (module : Cls) : Blueprint Cls Obj where
  module := module
  global := false
  built := false
  imports := []
  providers := []
  exports := []

/-- This unit has already been built. -/
inductive BuildError where
  | alreadyBuilt
  deriving DecidableEq

abbrev Building (Cls Obj : Type) := Failing BuildError (Blueprint Cls Obj)

variable {Cls Obj : Type}

def verifyMutability : Building Cls Obj PUnit := do
  if (← get).built then throw .alreadyBuilt

def identifyAs (module : Cls) : Building Cls Obj PUnit := do
  verifyMutability
  modify fun b => { b with module }

def importModules (modules : List (ModuleRef Cls Obj)) : Building Cls Obj PUnit := do
  verifyMutability
  modify fun b => { b with imports := modules ++ b.imports }

def exportModules (modules : List (ModuleRef Cls Obj)) : Building Cls Obj PUnit := do
  verifyMutability
  modify fun b => { b with imports := modules ++ b.imports }
  modify fun b => { b with exports := modules.map (fun x => .module x.exported) ++ b.exports }

def defineProviders (providers : List (Provider Cls Obj)) : Building Cls Obj PUnit := do
  verifyMutability
  modify fun b => { b with providers := providers ++ b.providers }

def exportProviders (providers : List (Provider Cls Obj)) : Building Cls Obj PUnit := do
  verifyMutability
  modify fun b => { b with providers := providers ++ b.providers }
  modify fun b => { b with exports := providers.map .provider ++ b.exports }

def prepareInjectTokens (injectArgs : List (FunctionInjectTokenArgument Cls Obj)) :
    Building Cls Obj (List (FactoryDependency Cls)) := do
  importModules (injectArgs.filterMap (·.module))
  return injectArgs.map fun param => ⟨param.token, some (param.optional.getD false)⟩

/-- One dependency, which is to be provided under the given token. -/
def importDependency (provideToToken : Token Cls) :
    ModuleDependenciesOption Cls Obj → Building Cls Obj PUnit
  | .tokenForFactory consumeFromToken module method inject => do
    if let some module := module then importModules [module]
    let paramTokens ← prepareInjectTokens (inject.getD [])
    exportProviders
      [.useFactory provideToToken (.method method) (⟨consumeFromToken, none⟩ :: paramTokens)]
  | .tokenForValue consumeFromToken module => do
    if let some module := module then importModules [module]
    exportProviders [.useExisting provideToToken consumeFromToken]
  | .classForFactory provider method inject => do
    exportProviders [provider.toProvider]
    let paramTokens ← prepareInjectTokens (inject.getD [])
    exportProviders
      [.useFactory provideToToken (.method method) (⟨provider.token, none⟩ :: paramTokens)]
  | .classForValue provider => do
    exportProviders [provider.toProvider]
    exportProviders [.useExisting provideToToken provider.token]
  | .function value inject => do
    let paramTokens ← prepareInjectTokens (inject.getD [])
    exportProviders [.useFactory provideToToken (.given value) paramTokens]
  | .value value => exportProviders [.useValue provideToToken value]
  | .other diConfig => exportProviders [.useValue provideToToken diConfig]

def importDependencies (dependencies : List (Token Cls × ModuleDependenciesOption Cls Obj)) :
    Building Cls Obj PUnit := do
  verifyMutability
  dependencies.forM fun (provideToToken, diConfig) => importDependency provideToToken diConfig

def makeGlobal : Building Cls Obj PUnit := do
  verifyMutability
  modify fun b => { b with global := true }

/-- A built module: what it has of its own. Its lists are those of the builder. -/
structure BuiltModule (Cls : Type) where
  module : Cls
  global : Bool

def build : Building Cls Obj (BuiltModule Cls) := do
  verifyMutability
  modify fun b => { b with built := true }
  let b ← get
  return ⟨b.module, b.global⟩

/-- The lists of a module, the newest entries first. -/
@[ext] structure Contents (Cls Obj : Type) where
  imports : List (ModuleRef Cls Obj)
  providers : List (Provider Cls Obj)
  exports : List (Export Cls Obj)

def Blueprint.contents (b : Blueprint Cls Obj) : Contents Cls Obj :=
  ⟨b.imports, b.providers, b.exports⟩

/-- The calls that change a builder. -/
inductive Call (Cls Obj : Type) where
  | identifyAs (module : Cls)
  | importModules (modules : List (ModuleRef Cls Obj))
  | exportModules (modules : List (ModuleRef Cls Obj))
  | defineProviders (providers : List (Provider Cls Obj))
  | exportProviders (providers : List (Provider Cls Obj))
  | importDependencies (dependencies : List (Token Cls × ModuleDependenciesOption Cls Obj))
  | makeGlobal

def perform : Call Cls Obj → Building Cls Obj PUnit
  | .identifyAs module => identifyAs module
  | .importModules modules => importModules modules
  | .exportModules modules => exportModules modules
  | .defineProviders providers => defineProviders providers
  | .exportProviders providers => exportProviders providers
  | .importDependencies dependencies => importDependencies dependencies
  | .makeGlobal => makeGlobal

end RandomArt.DynamicModuleBlueprint
