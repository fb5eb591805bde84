import RandomArt.PipelinePresence
import Mathlib.Logic.Relation

/-!
# The names of a pipeline

Sequences of stages in which every name is declared once, but for a virtual and the
feature that fulfills it, and is read only after its declaration. In the execution order
of such a sequence, what a stage reads is seeded, belongs to an unfulfilled virtual, or
is a feature that runs earlier.
-/

namespace RandomArt.Pipeline

open Relation

variable {Value Err : Type} (interpreter : Interpreter Value Err)
  (roots : Value → Set String)

def RuntimeStage.name : RuntimeStage Value Err → String
  | .virtual name => name
  | .initialDefaults name _ => name
  | .feature f => f.name
  | .step name _ => name
  | .injection name _ => name
  | .pureFunction name _ => name

/-- The names that a stage starts from. -/
def RuntimeStage.Reads : RuntimeStage Value Err → String → Prop
  | .feature f, root => f.Reads interpreter roots root
  | .step _ impl, root => ∃ selector ∈ impl.selectors, selector.top = root
  | _, _ => False

def PreparedStage.runtime : PreparedStage Value Err → RuntimeStage Value Err
  | .feature f => .feature f
  | .step name impl => .step name impl
  | .injection name isPublic => .injection name isPublic
  | .pureFunction name fn => .pureFunction name fn

/-- Whether a stage makes its name one that selectors and expressions may start from. -/
def RuntimeStage.InContext : RuntimeStage Value Err → Prop
  | .step _ _ => False
  | .pureFunction _ _ => False
  | _ => True

/-- The names that may be read after some stages. -/
def Readable (base : Finset String) (before : List (RuntimeStage Value Err)) (root : String) :
    Prop :=
  root ∈ base ∨ ∃ stage ∈ before, stage.InContext ∧ stage.name = root

variable (stages : List (RuntimeStage Value Err))

/-- One name is computed from another. -/
def ReadsName (name root : String) : Prop :=
  ∃ stage ∈ stages, stage.name = name ∧ stage.Reads interpreter roots root

/-- Nothing that a name depends on is an unfulfilled virtual. -/
def Clean (name : String) : Prop :=
  ∀ root, ReflTransGen (ReadsName interpreter roots stages) name root → root ∉ unfulfilled stages

/-- Names are declared once and read after their declaration, by methods and by direct
expressions that depend on no unfulfilled virtual; a feature that fulfills a virtual reads
only what is declared before it. `base` holds the names of the input that no stage declares. -/
structure WellNamed (base : Finset String) : Prop where
  kinds : ∀ stage ∈ stages, ∀ name fn, stage ≠ .pureFunction name fn
  direct : ∀ f, .feature f ∈ stages → ∀ entry ∈ f.properties.entries, ∀ outer,
    entry.2 ≠ .indirect outer
  fresh : ∀ before stage after, stages = before ++ stage :: after → stage.name ∉ base ∧
    ∀ earlier ∈ before, earlier.name = stage.name →
      earlier = .virtual stage.name ∧ ∃ f, stage = .feature f
  own : ∀ name, name ∈ base ∨ (∃ stage ∈ stages, stage.name = name) →
    interpreter.inherited name = none
  declared : ∀ before stage after, stages = before ++ stage :: after →
    ∀ root, stage.Reads interpreter roots root → Readable base before root
  fulfilling : ∀ before between after f,
    stages = before ++ .virtual f.name :: (between ++ .feature f :: after) →
    ∀ root, f.Reads interpreter roots root → Readable base before root
  expressions : ∀ f, .feature f ∈ stages → ∀ entry ∈ f.properties.entries, ∀ text,
    entry.2 = .expr text → ∀ root ∈ roots (interpreter.string text),
      Clean interpreter roots stages root

def Seed (base : Finset String) (name : String) : Prop :=
  name ∈ base ∨ (∃ defaults, .initialDefaults name defaults ∈ stages) ∨
    ∃ isPublic, .injection name isPublic ∈ stages

variable {interpreter roots stages} {base : Finset String}

theorem executionOrder_split {done rest : List (PreparedStage Value Err)}
    {stage : PreparedStage Value Err} (h : executionOrder stages = done ++ stage :: rest) :
    ∃ before origin after, stages = before ++ origin :: after ∧
      before.filterMap (slot stages) = done ∧ slot stages origin = some stage := by
  obtain ⟨first, second, hstages, hdone, hsecond⟩ := List.filterMap_eq_append_iff.mp h
  obtain ⟨skipped, origin, after, hsplit, hskipped, horigin, -⟩ :=
    List.filterMap_eq_cons_iff.mp hsecond
  refine ⟨first ++ skipped, origin, after, by simp [hstages, hsplit], ?_, horigin⟩
  rw [List.filterMap_append, hdone, List.filterMap_eq_nil_iff.mpr hskipped, List.append_nil]

theorem slot_eq_some {origin : RuntimeStage Value Err} {stage : PreparedStage Value Err}
    (h : slot stages origin = some stage) :
    (origin = stage.runtime) ∨ ∃ f, stage = .feature f ∧ origin = .virtual f.name ∧
      .feature f ∈ stages := by
  cases origin with
  | virtual name =>
    obtain ⟨f, hf, rfl⟩ := Option.map_eq_some_iff.mp h
    obtain ⟨-, hfeature, rfl⟩ := fulfillment_eq_some hf
    exact Or.inr ⟨f, rfl, rfl, hfeature⟩
  | initialDefaults name defaults => cases h
  | feature f =>
    simp only [slot] at h
    split_ifs at h
    cases h
    exact Or.inl rfl
  | _ =>
    cases h
    exact Or.inl rfl

theorem runtime_mem_of_mem {stage : PreparedStage Value Err} (h : stage ∈ executionOrder stages) :
    stage.runtime ∈ stages := by
  obtain ⟨origin, horigin, hslot⟩ := List.mem_filterMap.mp h
  rcases slot_eq_some hslot with rfl | ⟨f, rfl, -, hf⟩
  · exact horigin
  · exact hf

theorem mem_executionOrder_of_runtime {stage : PreparedStage Value Err}
    (hkind : ∀ f, stage ≠ .feature f) (h : stage.runtime ∈ stages) :
    stage ∈ executionOrder stages := by
  cases stage with
  | feature f => exact absurd rfl (hkind f)
  | _ => exact List.mem_filterMap.mpr ⟨_, h, rfl⟩

namespace WellNamed

variable (h : WellNamed interpreter roots stages base)
include h

theorem same_name {a b : RuntimeStage Value Err} (ha : a ∈ stages) (hb : b ∈ stages)
    (hname : a.name = b.name) :
    a = b ∨ (a = .virtual b.name ∧ ∃ f, b = .feature f) ∨
      (b = .virtual a.name ∧ ∃ f, a = .feature f) := by
  obtain ⟨before, after, hsplit⟩ := List.append_of_mem ha
  rw [hsplit] at hb
  rcases List.mem_append.mp hb with hbefore | hrest
  · exact Or.inr (Or.inr ((h.fresh _ _ _ hsplit).2 b hbefore hname.symm))
  · rcases List.mem_cons.mp hrest with heq | hafter
    · exact Or.inl heq.symm
    · obtain ⟨between, later, hbetween⟩ := List.append_of_mem hafter
      have hsplit' : stages = (before ++ a :: between) ++ b :: later := by
        rw [hsplit, hbetween]
        simp
      have ha' : a ∈ before ++ a :: between := by simp
      exact Or.inr (Or.inl ((h.fresh _ _ _ hsplit').2 a ha' hname))

theorem not_mem_base {stage : RuntimeStage Value Err} (hstage : stage ∈ stages) :
    stage.name ∉ base := by
  obtain ⟨before, after, hsplit⟩ := List.append_of_mem hstage
  exact (h.fresh _ _ _ hsplit).1

theorem feature_unique {f g : RuntimeFeature Value Err} (hf : .feature f ∈ stages)
    (hg : .feature g ∈ stages) (hname : f.name = g.name) : f = g := by
  rcases h.same_name hf hg hname with heq | ⟨heq, -⟩ | ⟨heq, -⟩
  · exact RuntimeStage.feature.inj heq
  · cases heq
  · cases heq

theorem eq_virtual_of_unfulfilled {stage : RuntimeStage Value Err} (hstage : stage ∈ stages)
    (hname : stage.name ∈ unfulfilled stages) : stage = .virtual stage.name := by
  obtain ⟨hvirtual, hnone⟩ := mem_unfulfilled.mp hname
  rcases h.same_name hstage hvirtual rfl with heq | ⟨-, f, hf⟩ | ⟨-, f, hf⟩
  · exact heq
  · cases hf
  · subst hf
    exact absurd rfl (hnone f hstage)

theorem not_mem_unfulfilled_of_base {name : String} (hname : name ∈ base) :
    name ∉ unfulfilled stages := fun hmem =>
  h.not_mem_base (mem_unfulfilled.mp hmem).1 hname

theorem clean_iff {stage : RuntimeStage Value Err} (hstage : stage ∈ stages)
    (hkind : stage ≠ .virtual stage.name) :
    Clean interpreter roots stages stage.name ↔
      ∀ root, stage.Reads interpreter roots root → Clean interpreter roots stages root := by
  constructor
  · exact fun hclean root hread next hnext => hclean next (.head ⟨stage, hstage, rfl, hread⟩ hnext)
  · intro hall root hdepends
    rcases hdepends.cases_head with rfl | ⟨next, ⟨other, hother, hname, hread⟩, hnext⟩
    · exact fun hmem => hkind (h.eq_virtual_of_unfulfilled hstage hmem)
    · refine hall next ?_ root hnext
      rcases h.same_name hother hstage hname with heq | ⟨heq, -⟩ | ⟨heq, -⟩
      · exact heq ▸ hread
      · subst heq
        exact hread.elim
      · rw [hname] at heq
        exact absurd heq hkind

theorem clean_of_seed {name : String} (hname : Seed stages base name) :
    Clean interpreter roots stages name := by
  rcases hname with hbase | ⟨defaults, hstage⟩ | ⟨isPublic, hstage⟩
  · intro root hdepends
    rcases hdepends.cases_head with rfl | ⟨next, ⟨stage, hstage, hstageName, -⟩, -⟩
    · exact h.not_mem_unfulfilled_of_base hbase
    · exact absurd (hstageName ▸ hbase) (h.not_mem_base hstage)
  · exact (h.clean_iff hstage (by simp)).mpr fun root hread => hread.elim
  · exact (h.clean_iff hstage (by simp)).mpr fun root hread => hread.elim

/-- A readable name is seeded, unfulfilled, or a feature that runs before. -/
theorem ready_of_readable {before after : List (RuntimeStage Value Err)}
    (hstages : stages = before ++ after) {root : String} (hroot : Readable base before root) :
    Seed stages base root ∨ root ∈ unfulfilled stages ∨
      ∃ f, .feature f ∈ before.filterMap (slot stages) ∧ f.name = root := by
  have hmem : ∀ stage ∈ before, stage ∈ stages := fun stage hstage =>
    hstages ▸ List.mem_append_left _ hstage
  have hslot : ∀ name, .virtual name ∈ before → ∀ f, fulfillment stages name = some f →
      .feature f ∈ before.filterMap (slot stages) := fun name hname f hf =>
    List.mem_filterMap.mpr ⟨_, hname, by rw [slot, hf]; rfl⟩
  rcases hroot with hbase | ⟨stage, hstage, hcontext, rfl⟩
  · exact Or.inl (Or.inl hbase)
  cases stage with
  | step name impl => exact hcontext.elim
  | pureFunction name fn => exact hcontext.elim
  | initialDefaults name defaults => exact Or.inl (Or.inr (Or.inl ⟨defaults, hmem _ hstage⟩))
  | injection name isPublic => exact Or.inl (Or.inr (Or.inr ⟨isPublic, hmem _ hstage⟩))
  | virtual name =>
    rcases hfulfilled : fulfillment stages name with _ | f
    · refine Or.inr (Or.inl (mem_unfulfilled.mpr ⟨hmem _ hstage, fun f hf hname => ?_⟩))
      have hsome := isSome_fulfillment.mpr ⟨hmem _ hstage, f, hf, hname⟩
      rw [hfulfilled] at hsome
      cases hsome
    · exact Or.inr (Or.inr
        ⟨f, hslot name hstage f hfulfilled, (fulfillment_eq_some hfulfilled).2.2⟩)
  | feature g =>
    refine Or.inr (Or.inr ?_)
    rcases hfulfilled : fulfillment stages g.name with _ | f
    · exact ⟨g, List.mem_filterMap.mpr ⟨_, hstage, by rw [slot, hfulfilled]; rfl⟩, rfl⟩
    · obtain ⟨hvirtual, -, hname⟩ := fulfillment_eq_some hfulfilled
      refine ⟨f, hslot g.name ?_ f hfulfilled, hname⟩
      obtain ⟨first, second, hsplit⟩ := List.append_of_mem hstage
      rw [hstages] at hvirtual
      rcases List.mem_append.mp hvirtual with hbefore | hafter
      · exact hbefore
      · obtain ⟨between, later, hbetween⟩ := List.append_of_mem hafter
        have hearlier := (h.fresh (before ++ between) (.virtual g.name) later
          (by rw [hstages, hbetween]; simp)).2 _ (List.mem_append_left _ hstage) rfl
        cases hearlier.1

/-- What a stage of the execution order reads is seeded, unfulfilled or runs before it. -/
theorem ready {done rest : List (PreparedStage Value Err)} {stage : PreparedStage Value Err}
    (hsplit : executionOrder stages = done ++ stage :: rest) {root : String}
    (hread : stage.runtime.Reads interpreter roots root) :
    Seed stages base root ∨ root ∈ unfulfilled stages ∨
      ∃ f, .feature f ∈ done ∧ f.name = root := by
  obtain ⟨before, origin, after, hstages, rfl, hslot⟩ := executionOrder_split hsplit
  refine h.ready_of_readable hstages ?_
  rcases slot_eq_some hslot with rfl | ⟨f, rfl, rfl, hf⟩
  · exact h.declared before _ after hstages root hread
  · rw [hstages] at hf
    rcases List.mem_append.mp hf with hbefore | hrest
    · have hearlier := (h.fresh _ _ _ hstages).2 _ hbefore rfl
      cases hearlier.1
    · rcases List.mem_cons.mp hrest with heq | hafter
      · cases heq
      · obtain ⟨between, later, rfl⟩ := List.append_of_mem hafter
        exact h.fulfilling before between later f hstages root hread

theorem feature_mem_executionOrder {f : RuntimeFeature Value Err} :
    .feature f ∈ executionOrder stages ↔ .feature f ∈ stages := by
  refine ⟨fun hf => runtime_mem_of_mem hf, fun hf => ?_⟩
  rcases hfulfilled : fulfillment stages f.name with _ | g
  · exact List.mem_filterMap.mpr ⟨_, hf, by rw [slot, hfulfilled]; rfl⟩
  · obtain ⟨hvirtual, hg, hname⟩ := fulfillment_eq_some hfulfilled
    obtain rfl := h.feature_unique hg hf hname
    exact List.mem_filterMap.mpr ⟨_, hvirtual, by rw [slot, hfulfilled]; rfl⟩

end WellNamed

end RandomArt.Pipeline
