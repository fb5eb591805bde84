import RandomArt.DynamicModuleBlueprint
import Mathlib.Data.List.Induction

/-!
# What built modules contain

Every call puts new entries in front of those that the builder has, and no two parts of the lists
depend on each other. What holds of the entries of each call therefore holds of the built module.
-/

namespace RandomArt.DynamicModuleBlueprint

open Failing

variable {Cls Obj : Type}

namespace Contents

def empty : Contents Cls Obj := ⟨[], [], []⟩

instance : Append (Contents Cls Obj) where
  append c d := ⟨c.imports ++ d.imports, c.providers ++ d.providers, c.exports ++ d.exports⟩

variable (c d e : Contents Cls Obj)

@[simp] theorem imports_append : (c ++ d).imports = c.imports ++ d.imports := rfl

@[simp] theorem providers_append : (c ++ d).providers = c.providers ++ d.providers := rfl

@[simp] theorem exports_append : (c ++ d).exports = c.exports ++ d.exports := rfl

theorem append_assoc : c ++ d ++ e = c ++ (d ++ e) := by
  ext1 <;> simp

@[simp] theorem append_empty : c ++ empty = c := by
  ext1 <;> simp [empty]

@[simp] theorem empty_append : empty ++ c = c := rfl

variable {c d e}

theorem append_right_cancel (h : c ++ e = d ++ e) : c = d := by
  ext1
  · exact List.append_cancel_right (congrArg imports h)
  · exact List.append_cancel_right (congrArg providers h)
  · exact List.append_cancel_right (congrArg exports h)

section Stack

variable {α : Type} (f : α → Contents Cls Obj)

/-- The contents of some elements, each in front of those before it. -/
def stack (xs : List α) : Contents Cls Obj := xs.foldl (fun below x => f x ++ below) empty

theorem stack_singleton (x : α) : stack f [x] = f x := append_empty (f x)

theorem stack_append (xs ys : List α) : stack f (xs ++ ys) = stack f ys ++ stack f xs := by
  induction ys using List.reverseRecOn with
  | nil => rw [List.append_nil]; rfl
  | append_singleton ys y ih =>
    rw [← List.append_assoc]
    simp only [stack, List.foldl_append, List.foldl_cons, List.foldl_nil] at ih ⊢
    rw [ih, append_assoc]

theorem stack_cons (x : α) (xs : List α) : stack f (x :: xs) = stack f xs ++ f x := by
  rw [← List.singleton_append, stack_append, stack_singleton]

end Stack

/-- Exported providers are provided, and exported modules imported. -/
structure Sound (c : Contents Cls Obj) : Prop where
  providers : ∀ p, .provider p ∈ c.exports → p ∈ c.providers
  modules : ∀ m, .module m ∈ c.exports → ∃ imported ∈ c.imports, imported.exported = m

theorem sound_empty : (empty : Contents Cls Obj).Sound := ⟨by simp [empty], by simp [empty]⟩

theorem Sound.append (hc : c.Sound) (hd : d.Sound) : (c ++ d).Sound := by
  refine ⟨fun p hp => ?_, fun m hm => ?_⟩
  · rw [exports_append, List.mem_append] at hp
    rw [providers_append, List.mem_append]
    exact hp.imp (hc.providers p) (hd.providers p)
  · rw [exports_append, List.mem_append] at hm
    rw [imports_append]
    rcases hm with hm | hm
    · obtain ⟨imported, hmem, hexported⟩ := hc.modules m hm
      exact ⟨imported, List.mem_append_left _ hmem, hexported⟩
    · obtain ⟨imported, hmem, hexported⟩ := hd.modules m hm
      exact ⟨imported, List.mem_append_right _ hmem, hexported⟩

theorem Sound.stack {α : Type} {f : α → Contents Cls Obj} (hf : ∀ x, (f x).Sound) (xs : List α) :
    (Contents.stack f xs).Sound := by
  induction xs with
  | nil => exact sound_empty
  | cons x xs ih =>
    rw [stack_cons]
    exact ih.append (hf x)

end Contents

section Contributions

/-- The modules that arguments of a factory name. -/
def injectModules (inject : Option (List (FunctionInjectTokenArgument Cls Obj))) :
    List (ModuleRef Cls Obj) := (inject.getD []).filterMap (·.module)

def injectTokens (inject : Option (List (FunctionInjectTokenArgument Cls Obj))) :
    List (FactoryDependency Cls) :=
  (inject.getD []).map fun param => ⟨param.token, some (param.optional.getD false)⟩

def ModuleDependenciesOption.modules : ModuleDependenciesOption Cls Obj → List (ModuleRef Cls Obj)
  | .tokenForFactory _ module _ inject => module.toList ++ injectModules inject
  | .tokenForValue _ module => module.toList
  | .classForFactory _ _ inject | .function _ inject => injectModules inject
  | .classForValue _ | .value _ | .other _ => []

/-- What a dependency adds: the modules that it names, and providers that are all exported. -/
def provided (imports : List (ModuleRef Cls Obj)) (providers : List (Provider Cls Obj)) :
    Contents Cls Obj := ⟨imports, providers, providers.map .provider⟩

def dependencyProviders (token : Token Cls) :
    ModuleDependenciesOption Cls Obj → List (Provider Cls Obj)
  | .tokenForFactory consumed _ method inject =>
    [.useFactory token (.method method) (⟨consumed, none⟩ :: injectTokens inject)]
  | .tokenForValue consumed _ => [.useExisting token consumed]
  | .classForFactory provider method inject =>
    [.useFactory token (.method method) (⟨provider.token, none⟩ :: injectTokens inject),
      provider.toProvider]
  | .classForValue provider => [.useExisting token provider.token, provider.toProvider]
  | .function value inject => [.useFactory token (.given value) (injectTokens inject)]
  | .value value | .other value => [.useValue token value]

/-- The imports of a dependency, those of its arguments in front of its own. -/
def dependencyImports : ModuleDependenciesOption Cls Obj → List (ModuleRef Cls Obj)
  | .tokenForFactory _ module _ inject => injectModules inject ++ module.toList
  | .tokenForValue _ module => module.toList
  | .classForFactory _ _ inject | .function _ inject => injectModules inject
  | .classForValue _ | .value _ | .other _ => []

def dependencyContents (entry : Token Cls × ModuleDependenciesOption Cls Obj) : Contents Cls Obj :=
  provided (dependencyImports entry.2) (dependencyProviders entry.1 entry.2)

def Call.contents : Call Cls Obj → Contents Cls Obj
  | .importModules modules => ⟨modules, [], []⟩
  | .exportModules modules => ⟨modules, [], modules.map fun x => .module x.exported⟩
  | .defineProviders providers => ⟨[], providers, []⟩
  | .exportProviders providers => provided [] providers
  | .importDependencies entries => .stack dependencyContents entries
  | .identifyAs _ | .makeGlobal => .empty

end Contributions

section Steps

theorem exec_verifyMutability_of_built {b : Blueprint Cls Obj} (hbuilt : b.built = true) :
    exec (verifyMutability : Building Cls Obj PUnit) b = (.error .alreadyBuilt, b) := by
  simp [verifyMutability, exec_bind, hbuilt]

theorem exec_verifyMutability {b : Blueprint Cls Obj} (hbuilt : b.built = false) :
    exec (verifyMutability : Building Cls Obj PUnit) b = (.ok ⟨⟩, b) := by
  simp [verifyMutability, exec_bind, hbuilt]

theorem exec_perform_of_built {b : Blueprint Cls Obj} (hbuilt : b.built = true)
    (call : Call Cls Obj) : exec (perform call) b = (.error .alreadyBuilt, b) := by
  cases call <;>
    simp only [perform, identifyAs, importModules, exportModules, defineProviders,
      exportProviders, importDependencies, makeGlobal, exec_bind,
      exec_verifyMutability_of_built hbuilt]

/-- On a builder that is not built yet, the computation returns `a` and adds to the contents. -/
def Adds {α : Type} (m : Building Cls Obj α) (a : α) (added : Contents Cls Obj) : Prop :=
  ∀ b, b.built = false → ∃ b', exec m b = (.ok a, b') ∧ b'.built = false ∧
    b'.contents = added ++ b.contents

variable {α β : Type}

theorem Adds.pure (a : α) : Adds (Pure.pure a : Building Cls Obj α) a .empty :=
  fun b hbuilt => ⟨b, rfl, hbuilt, rfl⟩

theorem Adds.bind {m : Building Cls Obj α} {f : α → Building Cls Obj β} {a : α} {c : β}
    {added added' : Contents Cls Obj} (hm : Adds m a added) (hf : Adds (f a) c added') :
    Adds (m >>= f) c (added' ++ added) := by
  intro b hbuilt
  obtain ⟨b₁, hexec, hbuilt₁, hcontents₁⟩ := hm b hbuilt
  obtain ⟨b₂, hexec', hbuilt₂, hcontents₂⟩ := hf b₁ hbuilt₁
  refine ⟨b₂, ?_, hbuilt₂, ?_⟩
  · rw [exec_bind, hexec]
    exact hexec'
  · rw [hcontents₂, hcontents₁, Contents.append_assoc]

theorem Adds.forM {f : α → Building Cls Obj PUnit} {g : α → Contents Cls Obj}
    (hf : ∀ x, Adds (f x) ⟨⟩ (g x)) (xs : List α) : Adds (xs.forM f) ⟨⟩ (.stack g xs) := by
  induction xs with
  | nil => exact .pure _
  | cons x xs ih =>
    rw [Contents.stack_cons]
    exact (hf x).bind ih

theorem adds_verifyMutability : Adds (verifyMutability : Building Cls Obj PUnit) ⟨⟩ .empty :=
  fun b hbuilt => ⟨b, exec_verifyMutability hbuilt, hbuilt, rfl⟩

theorem Adds.checked {m : Building Cls Obj α} {a : α} {added : Contents Cls Obj}
    (hm : Adds m a added) : Adds (do verifyMutability; m) a added := by
  rw [← Contents.append_empty added]
  exact adds_verifyMutability.bind hm

theorem Adds.congr {m : Building Cls Obj α} {a : α} {added added' : Contents Cls Obj}
    (hm : Adds m a added) (h : added = added') : Adds m a added' := h ▸ hm

theorem adds_importModules (modules : List (ModuleRef Cls Obj)) :
    Adds (importModules modules) ⟨⟩ (provided modules []) :=
  .checked fun _ hbuilt => ⟨_, rfl, hbuilt, rfl⟩

theorem adds_exportProviders (providers : List (Provider Cls Obj)) :
    Adds (exportProviders providers) ⟨⟩ (provided [] providers) :=
  .checked fun _ hbuilt => ⟨_, rfl, hbuilt, rfl⟩

theorem adds_prepareInjectTokens (inject : Option (List (FunctionInjectTokenArgument Cls Obj))) :
    Adds (prepareInjectTokens (inject.getD [])) (injectTokens inject)
      (provided (injectModules inject) []) :=
  .congr ((adds_importModules (injectModules inject)).bind (.pure (injectTokens inject))) rfl

theorem provided_append (imports imports' : List (ModuleRef Cls Obj))
    (providers providers' : List (Provider Cls Obj)) :
    provided imports providers ++ provided imports' providers' =
      provided (imports ++ imports') (providers ++ providers') := by
  ext1 <;> simp [provided]

theorem adds_importDependency (entry : Token Cls × ModuleDependenciesOption Cls Obj) :
    Adds (importDependency entry.1 entry.2) ⟨⟩ (dependencyContents entry) := by
  obtain ⟨token, diConfig⟩ := entry
  cases diConfig with
  | tokenForFactory consumed module method inject =>
    cases module with
    | none =>
      refine .congr ((adds_prepareInjectTokens inject).bind (adds_exportProviders _)) ?_
      simp [provided_append, dependencyContents, dependencyImports, dependencyProviders]
    | some module =>
      refine .congr ((adds_importModules [module]).bind
        ((adds_prepareInjectTokens inject).bind (adds_exportProviders _))) ?_
      simp [provided_append, dependencyContents, dependencyImports, dependencyProviders]
  | tokenForValue consumed module =>
    cases module with
    | none => exact adds_exportProviders _
    | some module =>
      exact .congr ((adds_importModules [module]).bind (adds_exportProviders _)) rfl
  | classForFactory provider method inject =>
    refine .congr ((adds_exportProviders _).bind
      ((adds_prepareInjectTokens inject).bind (adds_exportProviders _))) ?_
    simp [provided_append, dependencyContents, dependencyImports, dependencyProviders]
  | classForValue provider =>
    exact .congr ((adds_exportProviders _).bind (adds_exportProviders _)) rfl
  | function value inject =>
    exact .congr ((adds_prepareInjectTokens inject).bind (adds_exportProviders _)) rfl
  | value value | other value => exact adds_exportProviders _

theorem adds_perform (call : Call Cls Obj) : Adds (perform call) ⟨⟩ call.contents := by
  cases call with
  | identifyAs module => exact .checked fun _ hbuilt => ⟨_, rfl, hbuilt, rfl⟩
  | makeGlobal => exact .checked fun _ hbuilt => ⟨_, rfl, hbuilt, rfl⟩
  | importModules modules => exact adds_importModules modules
  | exportModules modules => exact .checked fun _ hbuilt => ⟨_, rfl, hbuilt, rfl⟩
  | defineProviders providers => exact .checked fun _ hbuilt => ⟨_, rfl, hbuilt, rfl⟩
  | exportProviders providers => exact adds_exportProviders providers
  | importDependencies entries => exact .checked (.forM adds_importDependency entries)

end Steps

section Runs

def afterCalls (module : Cls) (calls : List (Call Cls Obj)) : Blueprint Cls Obj :=
  (exec (calls.forM perform) (.new module)).2

theorem afterCalls_contents (module : Cls) (calls : List (Call Cls Obj)) :
    (afterCalls module calls).contents = Contents.stack Call.contents calls := by
  obtain ⟨b, hcalls, -, hcontents⟩ := Adds.forM adds_perform calls (.new module) rfl
  rw [afterCalls, hcalls, hcontents]
  exact Contents.append_empty _

/-- All the calls and then `build`, on a new builder. -/
def assemble (module : Cls) (calls : List (Call Cls Obj)) :
    Except BuildError (BuiltModule Cls) × Blueprint Cls Obj :=
  exec (do calls.forM perform; build) (.new module)

theorem assemble_eq (module : Cls) (calls : List (Call Cls Obj)) :
    ∃ built b, assemble module calls = (.ok built, b) ∧ b.built = true ∧
      b.contents = Contents.stack Call.contents calls := by
  obtain ⟨b, hcalls, hbuilt, hcontents⟩ := Adds.forM adds_perform calls (.new module) rfl
  refine ⟨⟨b.module, b.global⟩, { b with built := true }, ?_, rfl,
    hcontents.trans (Contents.append_empty _)⟩
  rw [assemble, exec_bind, hcalls]
  simp only [build, exec_bind, exec_verifyMutability hbuilt, exec_modify, exec_get, exec_pure]

end Runs

section Soundness

theorem sound_provided (imports : List (ModuleRef Cls Obj)) (providers : List (Provider Cls Obj)) :
    (provided imports providers).Sound := ⟨by simp [provided], by simp [provided]⟩

theorem Call.sound_contents (call : Call Cls Obj) : call.contents.Sound := by
  cases call with
  | identifyAs _ | makeGlobal => exact Contents.sound_empty
  | importModules modules | defineProviders providers =>
    exact ⟨by simp [Call.contents], by simp [Call.contents]⟩
  | exportModules modules => exact ⟨by simp [Call.contents], by simp [Call.contents]⟩
  | exportProviders providers => exact sound_provided [] providers
  | importDependencies entries => exact .stack (fun entry => sound_provided _ _) entries

end Soundness

section Bindings

@[simp] theorem Provider.token_useExisting (provide existing : Token Cls) :
    (useExisting provide existing : Provider Cls Obj).token = provide := rfl

@[simp] theorem Provider.token_useFactory (provide : Token Cls) (factory : Factory Obj)
    (inject : List (FactoryDependency Cls)) :
    (useFactory provide factory inject).token = provide := rfl

@[simp] theorem Provider.token_useValue (provide : Token Cls) (value : Obj) :
    (useValue provide value).token = provide := rfl

@[simp] theorem ClassProvider.token_toProvider (provider : ClassProvider Cls) :
    (provider.toProvider : Provider Cls Obj).token = provider.token := by
  cases provider <;> rfl

theorem mem_dependencyImports {diConfig : ModuleDependenciesOption Cls Obj}
    {m : ModuleRef Cls Obj} (hm : m ∈ diConfig.modules) : m ∈ dependencyImports diConfig := by
  cases diConfig with
  | tokenForFactory consumed module method inject =>
    rw [ModuleDependenciesOption.modules, List.mem_append] at hm
    exact List.mem_append.mpr hm.symm
  | _ => exact hm

/-- The token under which an entry of the exports is found, when there is one. -/
def Export.token? : Export Cls Obj → Option (Token Cls)
  | .provider p => some p.token
  | .module (.cls type) => some (.cls type)
  | .module _ => none

/-- The added lists bind the entry's token: there is one provider and one export under it, which
is not an alias of the token itself, and the modules that the entry names are imported. -/
def BindsOnce [DecidableEq Cls] (entry : Token Cls × ModuleDependenciesOption Cls Obj)
    (added : Contents Cls Obj) : Prop :=
  (∃ p, added.providers.filter (fun p => decide (p.token = entry.1)) = [p] ∧
    added.exports.filter (fun e => decide (e.token? = some entry.1)) = [.provider p] ∧
    p ≠ .useExisting entry.1 entry.1) ∧
  ∀ m ∈ entry.2.modules, m ∈ added.imports

/-- The dependency is looked for under the very token that it is to be provided under. For a token
this makes an alias of itself, for a class a second provider. -/
def SelfBound (entry : Token Cls × ModuleDependenciesOption Cls Obj) : Prop :=
  match entry.2 with
  | .tokenForValue consumed _ => consumed = entry.1
  | .classForValue provider | .classForFactory provider _ _ => provider.token = entry.1
  | .tokenForFactory _ _ _ _ | .function _ _ | .value _ | .other _ => False

variable [DecidableEq Cls]

theorem filter_exports_provided (imports : List (ModuleRef Cls Obj))
    (providers : List (Provider Cls Obj)) (token : Token Cls) :
    (provided imports providers).exports.filter (fun e => decide (e.token? = some token)) =
      (providers.filter fun p => decide (p.token = token)).map .provider := by
  simp [provided, List.filter_map, Function.comp_def, Export.token?]

theorem bindsOnce_dependencyContents (entry : Token Cls × ModuleDependenciesOption Cls Obj) :
    BindsOnce entry (dependencyContents entry) ↔ ¬SelfBound entry := by
  have himports : ∀ m ∈ entry.2.modules, m ∈ (dependencyContents entry).imports :=
    fun m hm => mem_dependencyImports hm
  rw [BindsOnce, and_iff_left himports]
  have hiff : (∃ p, (dependencyContents entry).providers.filter
        (fun p => decide (p.token = entry.1)) = [p] ∧
      (dependencyContents entry).exports.filter
        (fun e => decide (e.token? = some entry.1)) = [.provider p] ∧
      p ≠ .useExisting entry.1 entry.1) ↔
      ∃ p, (dependencyProviders entry.1 entry.2).filter
        (fun p => decide (p.token = entry.1)) = [p] ∧ p ≠ .useExisting entry.1 entry.1 := by
    refine exists_congr fun p => and_congr_right fun hp => ?_
    rw [dependencyContents, filter_exports_provided]
    simp only [dependencyContents, provided] at hp
    simp [hp]
  rw [hiff]
  obtain ⟨token, diConfig⟩ := entry
  cases diConfig with
  | classForFactory provider method inject | classForValue provider =>
    by_cases hself : provider.token = token <;>
      simp [dependencyProviders, SelfBound, hself]
  | _ => simp [dependencyProviders, SelfBound]

end Bindings

section WellFormedness

/-- A built module as others read it, with the lists that its builder holds. -/
structure DynamicModule (Cls Obj : Type) where
  module : Cls
  global : Bool
  contents : Contents Cls Obj

def BuiltModule.read (built : BuiltModule Cls) (b : Blueprint Cls Obj) : DynamicModule Cls Obj :=
  ⟨built.module, built.global, b.contents⟩

/-- Further calls, each of which may throw. -/
def attempt (calls : List (Call Cls Obj)) (b : Blueprint Cls Obj) : Blueprint Cls Obj :=
  calls.foldl (fun b call => (exec (perform call) b).2) b

/-- After the build every call throws, and the module that was built still reads the same. -/
def Closed (built : BuiltModule Cls) (b : Blueprint Cls Obj) : Prop :=
  ∀ calls, built.read (attempt calls b) = built.read b ∧
    (∀ call, (exec (perform call) (attempt calls b)).1 = .error .alreadyBuilt) ∧
    (exec build (attempt calls b)).1 = .error .alreadyBuilt

theorem closed_of_built {b : Blueprint Cls Obj} (hbuilt : b.built = true)
    (built : BuiltModule Cls) : Closed built b := by
  intro calls
  have hattempt : attempt calls b = b := by
    induction calls with
    | nil => rfl
    | cons call calls ih =>
      simpa only [attempt, List.foldl_cons, exec_perform_of_built hbuilt] using ih
  rw [hattempt]
  refine ⟨rfl, fun call => by rw [exec_perform_of_built hbuilt], ?_⟩
  simp only [build, exec_bind, exec_verifyMutability_of_built hbuilt]

theorem contents_importDependencies (entries entries' :
    List (Token Cls × ModuleDependenciesOption Cls Obj)) :
    (Call.importDependencies (entries ++ entries')).contents =
      Contents.stack dependencyContents entries' ++ (Call.importDependencies entries).contents :=
  Contents.stack_append _ entries entries'

/-- One more entry adds what belongs to it alone. -/
theorem afterCalls_entry (module : Cls) (before : List (Call Cls Obj))
    (entries : List (Token Cls × ModuleDependenciesOption Cls Obj))
    (entry : Token Cls × ModuleDependenciesOption Cls Obj) :
    (afterCalls module (before ++ [.importDependencies (entries ++ [entry])])).contents =
      dependencyContents entry ++
        (afterCalls module (before ++ [.importDependencies entries])).contents := by
  simp only [afterCalls_contents, Contents.stack_append, Contents.stack_singleton,
    contents_importDependencies, Contents.append_assoc]

/-- What stands behind an entry's lists in the end is what the builder had before it. -/
theorem stack_calls_entry (module : Cls) (before after : List (Call Cls Obj))
    (entries entries' : List (Token Cls × ModuleDependenciesOption Cls Obj))
    (entry : Token Cls × ModuleDependenciesOption Cls Obj) :
    Contents.stack Call.contents
        (before ++ .importDependencies (entries ++ entry :: entries') :: after) =
      Contents.stack Call.contents after ++ Contents.stack dependencyContents entries' ++
        (dependencyContents entry ++
          (afterCalls module (before ++ [.importDependencies entries])).contents) := by
  have hentries : entries ++ entry :: entries' = entries ++ [entry] ++ entries' := by simp
  rw [List.append_cons, Contents.stack_append, hentries]
  simp only [Contents.stack_append, Contents.stack_singleton, contents_importDependencies,
    afterCalls_contents, Contents.append_assoc]

variable [DecidableEq Cls]

/-- Each entry of each `importDependencies` among the calls adds lists that bind its token, and
these stay in the contents to the end. -/
def Binds (module : Cls) (calls : List (Call Cls Obj)) (final : Contents Cls Obj) : Prop :=
  ∀ before entries entry entries' after,
    calls = before ++ .importDependencies (entries ++ entry :: entries') :: after →
    ∃ earlier added later,
      (afterCalls module (before ++ [.importDependencies entries])).contents = earlier ∧
      (afterCalls module (before ++ [.importDependencies (entries ++ [entry])])).contents =
        added ++ earlier ∧
      final = later ++ (added ++ earlier) ∧
      BindsOnce entry added

/-- The calls make a module whose exports come from its own lists, which binds the tokens of its
dependencies, and which no later call changes. -/
def WellFormed (module : Cls) (calls : List (Call Cls Obj)) : Prop :=
  ∃ built b, assemble module calls = (.ok built, b) ∧
    (built.read b).contents.Sound ∧ Binds module calls (built.read b).contents ∧ Closed built b

theorem binds_iff (module : Cls) (calls : List (Call Cls Obj)) :
    Binds module calls (.stack Call.contents calls) ↔
      ∀ entries, .importDependencies entries ∈ calls → ∀ entry ∈ entries, ¬SelfBound entry := by
  constructor
  · intro hbinds entries hcall entry hentry
    obtain ⟨before, after, rfl⟩ := List.append_of_mem hcall
    obtain ⟨entries, entries', rfl⟩ := List.append_of_mem hentry
    obtain ⟨_, added, _, rfl, hadded, -, honce⟩ := hbinds before entries entry entries' after rfl
    rw [afterCalls_entry] at hadded
    rw [← Contents.append_right_cancel hadded] at honce
    exact (bindsOnce_dependencyContents entry).mp honce
  · intro hself before entries entry entries' after hcalls
    have hentry : ¬SelfBound entry :=
      hself (entries ++ entry :: entries') (by simp [hcalls]) entry (by simp)
    refine ⟨_, dependencyContents entry,
      Contents.stack Call.contents after ++ Contents.stack dependencyContents entries', rfl,
      afterCalls_entry .., ?_, (bindsOnce_dependencyContents entry).mpr hentry⟩
    rw [hcalls]
    exact stack_calls_entry ..

/-- The module is well formed exactly when no dependency is looked for under the token that it is
provided under. -/
theorem wellFormed_iff (module : Cls) (calls : List (Call Cls Obj)) :
    WellFormed module calls ↔
      ∀ entries, .importDependencies entries ∈ calls → ∀ entry ∈ entries, ¬SelfBound entry := by
  obtain ⟨built, b, hassemble, hbuilt, hcontents⟩ := assemble_eq module calls
  have hread : (built.read b).contents = Contents.stack Call.contents calls := hcontents
  have hiff : WellFormed module calls ↔ Binds module calls (.stack Call.contents calls) := by
    constructor
    · rintro ⟨built', b', hassemble', -, hbinds, -⟩
      obtain ⟨hresult, rfl⟩ := Prod.mk.inj (hassemble'.symm.trans hassemble)
      exact hread ▸ hbinds
    · intro hbinds
      refine ⟨built, b, hassemble, ?_, ?_, closed_of_built hbuilt built⟩
      · rw [hread]
        exact .stack Call.sound_contents calls
      · rwa [hread]
  rw [hiff, binds_iff]

/-- A token that is to be met by itself becomes an alias of itself. -/
theorem self_alias_not_wellFormed :
    ¬WellFormed () ([.importDependencies [(.string "T", .tokenForValue (.string "T") none)]] :
      List (Call Unit Unit)) := by
  rintro ⟨built, b, hassemble, -, hbinds, -⟩
  obtain ⟨_, added, _, rfl, hadded, -, ⟨p, hp, -, halias⟩, -⟩ :=
    hbinds [] [] (.string "T", .tokenForValue (.string "T") none) [] [] rfl
  rw [afterCalls_entry] at hadded
  rw [← Contents.append_right_cancel hadded] at hp
  have hp' : Provider.useExisting (.string "T") (.string "T") = p := List.singleton_inj.mp hp
  exact halias hp'.symm

end WellFormedness

end RandomArt.DynamicModuleBlueprint
