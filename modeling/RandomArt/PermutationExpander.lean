import RandomArt.FallibleFold
import RandomArt.NameLanguage
import RandomArt.PlainObject
import Mathlib.Algebra.GroupWithZero.Nat

/-!
# Expanding trigram projects

A project names its region maps in a catalog, and its permutation specs refer to them by name.
Names are looked up in plain objects: a name that every object inherits is found in any
catalog, and an object that is filled by assignment has no entry for the name of its prototype.
-/

namespace RandomArt.PermutationExpander

open FallibleFold
open Pipeline (prototypeNames)

structure RegionMapEntry where
  cid : String
  description : Option String

inductive PermutationSpec where
  | prefixSuffix (regionMapNames prefixTrigrams suffixTrigrams : List String)
  | allPairs (regionMapNames sourceTrigrams : List String) (includeIdentity : Option Bool)

def PermutationSpec.regionMapNames : PermutationSpec → List String
  | prefixSuffix regionMapNames _ _ => regionMapNames
  | allPairs regionMapNames _ _ => regionMapNames

structure TrigramProjectSpec where
  projectId : String
  regionMapCatalog : PlainObject RegionMapEntry
  permutationSpecs : List PermutationSpec

structure PermutationTermPair where
  prefixTerm : String
  suffixTerm : String
  deriving DecidableEq

structure PermutationTermGroup where
  regionMapNames : List String
  termPairs : List PermutationTermPair

structure PermutationsProjectSpec where
  regionMapNames : PlainObject String
  termGroups : List PermutationTermGroup

/-- What expansion throws, with the names that the message quotes. -/
inductive ExpandFailure where
  | notInCatalog (name : String) (available : List String)

def buildRegionMapNames (catalog : PlainObject RegionMapEntry) : PlainObject String :=
  PlainObject.empty.assignAll (catalog.entries.map fun entry => (entry.1, entry.2.cid))

/-- Whether `catalog[name]` is a value: an entry, or a property that every object has. -/
def found (catalog : PlainObject RegionMapEntry) (name : String) : Bool :=
  (catalog.own name).isSome || decide (name ∈ prototypeNames)

def validateRegionMapNames (regionMapNames : List String) (catalog : PlainObject RegionMapEntry) :
    Except ExpandFailure Unit :=
  match regionMapNames.find? (fun name => !found catalog name) with
  | some name => .error (.notInCatalog name catalog.keys)
  | none => .ok ()

def expandPrefixSuffixPairs (prefixTrigrams suffixTrigrams : List String) :
    List PermutationTermPair :=
  prefixTrigrams.flatMap fun prefixTerm =>
    suffixTrigrams.map fun suffixTerm => ⟨prefixTerm, suffixTerm⟩

def expandAllPairTerms (sourceTrigrams : List String) (includeIdentity : Option Bool) :
    List PermutationTermPair :=
  sourceTrigrams.zipIdx.flatMap fun first =>
    sourceTrigrams.zipIdx.filterMap fun second =>
      if first.2 ≠ second.2 ∨ includeIdentity.getD false = true then some ⟨first.1, second.1⟩
      else none

def expandTermGroup (spec : PermutationSpec) (catalog : PlainObject RegionMapEntry) :
    Except ExpandFailure PermutationTermGroup :=
  (validateRegionMapNames spec.regionMapNames catalog).map fun _ => {
    regionMapNames := spec.regionMapNames
    termPairs :=
      match spec with
      | .prefixSuffix _ prefixTrigrams suffixTrigrams =>
        expandPrefixSuffixPairs prefixTrigrams suffixTrigrams
      | .allPairs _ sourceTrigrams includeIdentity =>
        expandAllPairTerms sourceTrigrams includeIdentity }

def expandToPermutationsSpec (projectSpec : TrigramProjectSpec) :
    Except ExpandFailure PermutationsProjectSpec :=
  (projectSpec.permutationSpecs.mapM (expandTermGroup · projectSpec.regionMapCatalog)).map
    fun termGroups => {
      regionMapNames := buildRegionMapNames projectSpec.regionMapCatalog
      termGroups }

/-- One painting task for each term pair and region map of a group. -/
def countPaintingTasks (spec : PermutationsProjectSpec) : ℕ :=
  (spec.termGroups.map fun group => group.termPairs.length * group.regionMapNames.length).sum

structure Validation where
  valid : Bool
  taskCount : ℕ
  errors : List String

/-- The validation of a project; `message` is the text of a failure. -/
def validateProject (message : ExpandFailure → String) (spec : TrigramProjectSpec) : Validation :=
  match expandToPermutationsSpec spec with
  | .ok permutations => ⟨true, countPaintingTasks permutations, []⟩
  | .error failure => ⟨false, 0, [message failure]⟩

/-- A group is expanded exactly when all its names are found. -/
theorem expandTermGroup_cases (spec : PermutationSpec) (catalog : PlainObject RegionMapEntry) :
    ((∀ name ∈ spec.regionMapNames, found catalog name = true) ∧
      ∃ group, expandTermGroup spec catalog = .ok group ∧
        group.regionMapNames = spec.regionMapNames) ∨
    (¬(∀ name ∈ spec.regionMapNames, found catalog name = true) ∧
      ∃ failure, expandTermGroup spec catalog = .error failure) := by
  unfold expandTermGroup validateRegionMapNames
  cases hfind : spec.regionMapNames.find? (fun name => !found catalog name) with
  | none =>
    refine Or.inl ⟨fun name hname => ?_, _, rfl, rfl⟩
    simpa using List.find?_eq_none.mp hfind name hname
  | some name =>
    refine Or.inr ⟨fun h => ?_, _, rfl⟩
    have hmissing := List.find?_some hfind
    rw [h name (List.mem_of_find?_eq_some hfind)] at hmissing
    cases hmissing

theorem mapM_expandTermGroup_cases (specs : List PermutationSpec)
    (catalog : PlainObject RegionMapEntry) :
    ((∀ spec ∈ specs, ∀ name ∈ spec.regionMapNames, found catalog name = true) ∧
      ∃ groups, specs.mapM (expandTermGroup · catalog) = .ok groups ∧
        groups.map (·.regionMapNames) = specs.map (·.regionMapNames)) ∨
    (¬(∀ spec ∈ specs, ∀ name ∈ spec.regionMapNames, found catalog name = true) ∧
      ∃ failure, specs.mapM (expandTermGroup · catalog) = .error failure) := by
  induction specs with
  | nil => exact Or.inl ⟨by simp, [], rfl, rfl⟩
  | cons spec specs ih =>
    rw [List.mapM_cons]
    rcases expandTermGroup_cases spec catalog with
      ⟨hfound, group, hgroup, hnames⟩ | ⟨hmissing, failure, hfailure⟩
    · rw [bind_of_ok hgroup]
      rcases ih with ⟨hrest, groups, hgroups, hrestNames⟩ | ⟨hmissing, failure, hfailure⟩
      · refine Or.inl ⟨List.forall_mem_cons.mpr ⟨hfound, hrest⟩, group :: groups, ?_, ?_⟩
        · rw [bind_of_ok hgroups]
          rfl
        · rw [List.map_cons, List.map_cons, hnames, hrestNames]
      · refine Or.inr ⟨fun h => hmissing (List.forall_mem_cons.mp h).2, failure, ?_⟩
        rw [hfailure]
        rfl
    · refine Or.inr ⟨fun h => hmissing (List.forall_mem_cons.mp h).1, failure, ?_⟩
      rw [hfailure]
      rfl

/-- The names that the specs of a project refer to. -/
def usedNames (spec : TrigramProjectSpec) : List String :=
  spec.permutationSpecs.flatMap (·.regionMapNames)

theorem forall_usedNames {spec : TrigramProjectSpec} {P : String → Prop} :
    (∀ name ∈ usedNames spec, P name) ↔
      ∀ s ∈ spec.permutationSpecs, ∀ name ∈ s.regionMapNames, P name := by
  simp only [usedNames, List.mem_flatMap]
  exact ⟨fun h s hs name hname => h name ⟨s, hs, hname⟩,
    fun h name ⟨s, hs, hname⟩ => h s hs name hname⟩

theorem found_iff {catalog : PlainObject RegionMapEntry} {name : String} :
    found catalog name = true ↔ name ∈ catalog.keys ∨ name ∈ prototypeNames := by
  rw [found, Bool.or_eq_true, ← PlainObject.mem_keys_iff, decide_eq_true_eq]

theorem expandToPermutationsSpec_cases (spec : TrigramProjectSpec) :
    ((∀ name ∈ usedNames spec, found spec.regionMapCatalog name = true) ∧
      ∃ out, expandToPermutationsSpec spec = .ok out ∧
        out.regionMapNames = buildRegionMapNames spec.regionMapCatalog ∧
        out.termGroups.flatMap (·.regionMapNames) = usedNames spec) ∨
    (¬(∀ name ∈ usedNames spec, found spec.regionMapCatalog name = true) ∧
      ∃ failure, expandToPermutationsSpec spec = .error failure) := by
  rw [forall_usedNames, expandToPermutationsSpec]
  rcases mapM_expandTermGroup_cases spec.permutationSpecs spec.regionMapCatalog with
    ⟨hfound, groups, hgroups, hnames⟩ | ⟨hmissing, failure, hfailure⟩
  · refine Or.inl ⟨hfound, ⟨buildRegionMapNames spec.regionMapCatalog, groups⟩, ?_, rfl, ?_⟩
    · rw [hgroups]
      rfl
    · simp only [usedNames, List.flatMap_def, hnames]
  · refine Or.inr ⟨hmissing, failure, ?_⟩
    rw [hfailure]
    rfl

/-- What a project that can be expanded promises: every used name is a name of the catalog and
stands for its CID in the output, and the validation agrees with the expansion. -/
structure ReferentialIntegrity (message : ExpandFailure → String) (spec : TrigramProjectSpec) :
    Prop where
  succeeds_iff : (∃ out, expandToPermutationsSpec spec = .ok out) ↔
    ∀ s ∈ spec.permutationSpecs, ∀ name ∈ s.regionMapNames, name ∈ spec.regionMapCatalog.keys
  resolves : ∀ out, expandToPermutationsSpec spec = .ok out → ∀ group ∈ out.termGroups,
    ∀ name ∈ group.regionMapNames, ∃ entry, spec.regionMapCatalog.own name = some entry ∧
      out.regionMapNames.own name = some entry.cid
  valid_iff : (validateProject message spec).valid = true ↔
    ∃ out, expandToPermutationsSpec spec = .ok out

theorem own_buildRegionMapNames {catalog : PlainObject RegionMapEntry} {name : String}
    (hname : name ≠ PlainObject.protoKey) {entry : RegionMapEntry}
    (hentry : catalog.own name = some entry) :
    (buildRegionMapNames catalog).own name = some entry.cid := by
  have hnodup : ((catalog.entries.map fun entry => (entry.1, entry.2.cid)).map Prod.fst).Nodup := by
    rw [List.map_map]
    exact catalog.nodup_keys
  have hmem : (name, entry) ∈ catalog.entries := PlainObject.mem_entries_of_own hentry
  exact PlainObject.own_assignAll hnodup (List.mem_map.mpr ⟨(name, entry), hmem, rfl⟩) hname

theorem own_buildRegionMapNames_protoKey (catalog : PlainObject RegionMapEntry) :
    (buildRegionMapNames catalog).own PlainObject.protoKey = none := by
  have hkeys : PlainObject.protoKey ∉ (buildRegionMapNames catalog).keys := by
    rw [buildRegionMapNames, PlainObject.mem_keys_assignAll]
    simp [PlainObject.keys, PlainObject.empty]
  rw [PlainObject.mem_keys_iff] at hkeys
  simpa using hkeys

variable {message : ExpandFailure → String} {spec : TrigramProjectSpec}

/-- An expansion has integrity when each used name is its own property of the catalog and of the
output. -/
theorem referentialIntegrity_of_expanded {out : PermutationsProjectSpec}
    (hout : expandToPermutationsSpec spec = .ok out)
    (hnames : out.regionMapNames = buildRegionMapNames spec.regionMapCatalog)
    (hgroups : out.termGroups.flatMap (·.regionMapNames) = usedNames spec) :
    ReferentialIntegrity message spec ↔ ∀ name ∈ usedNames spec,
      name ∈ spec.regionMapCatalog.keys ∧ name ≠ PlainObject.protoKey := by
  constructor
  · intro h
    have hown := forall_usedNames.mpr (h.succeeds_iff.mp ⟨out, hout⟩)
    refine fun name hname => ⟨hown name hname, ?_⟩
    rintro rfl
    rw [← hgroups] at hname
    obtain ⟨group, hgroup, hname⟩ := List.mem_flatMap.mp hname
    obtain ⟨entry, -, hcid⟩ := h.resolves out hout group hgroup _ hname
    rw [hnames, own_buildRegionMapNames_protoKey] at hcid
    cases hcid
  · intro hown
    refine ⟨⟨fun _ => forall_usedNames.mp fun name hname => (hown name hname).1,
      fun _ => ⟨out, hout⟩⟩, ?_, ?_⟩
    · intro out' hout' group hgroup name hname
      obtain rfl : out = out' := Except.ok.inj (hout.symm.trans hout')
      have hused : name ∈ usedNames spec := by
        rw [← hgroups]
        exact List.mem_flatMap.mpr ⟨group, hgroup, hname⟩
      obtain ⟨hkey, hproto⟩ := hown name hused
      obtain ⟨entry, hentry⟩ := Option.isSome_iff_exists.mp (PlainObject.mem_keys_iff.mp hkey)
      exact ⟨entry, hentry, hnames ▸ own_buildRegionMapNames hproto hentry⟩
    · rw [validateProject, hout]
      exact ⟨fun _ => ⟨out, rfl⟩, fun _ => rfl⟩

theorem referentialIntegrity_of_failed {failure : ExpandFailure}
    (hfailure : expandToPermutationsSpec spec = .error failure)
    (hmissing : ∃ name ∈ usedNames spec, name ∉ spec.regionMapCatalog.keys) :
    ReferentialIntegrity message spec := by
  have hfails : ¬∃ out, expandToPermutationsSpec spec = .ok out := by
    rintro ⟨out, hout⟩
    rw [hfailure] at hout
    cases hout
  have hinvalid : (validateProject message spec).valid = false := by
    rw [validateProject, hfailure]
  obtain ⟨name, hname, hkey⟩ := hmissing
  refine ⟨⟨fun h => absurd h hfails, fun h => absurd ?_ hkey⟩, ?_, ?_⟩
  · exact forall_usedNames.mpr h name hname
  · exact fun out hout => absurd ⟨out, hout⟩ hfails
  · simp [hinvalid, hfails]

variable (message spec) in
/-- A project is expanded with integrity exactly when one of its names is found nowhere, not even
among those that every object inherits, or all its names are in the catalog and none is that of
the prototype. -/
theorem referentialIntegrity_iff :
    ReferentialIntegrity message spec ↔
      (∃ name ∈ usedNames spec, name ∉ spec.regionMapCatalog.keys ∧ name ∉ prototypeNames) ∨
      ∀ name ∈ usedNames spec, name ∈ spec.regionMapCatalog.keys ∧
        name ≠ PlainObject.protoKey := by
  rcases expandToPermutationsSpec_cases spec with
    ⟨hall, out, hout, hnames, hgroups⟩ | ⟨hmissing, failure, hfailure⟩
  · rw [referentialIntegrity_of_expanded hout hnames hgroups, or_iff_right]
    rintro ⟨name, hname, hkey, hproto⟩
    exact absurd (found_iff.mp (hall name hname)) (not_or.mpr ⟨hkey, hproto⟩)
  · simp only [not_forall, found_iff, not_or] at hmissing
    obtain ⟨name, hname, hkey, hproto⟩ := hmissing
    exact iff_of_true (referentialIntegrity_of_failed hfailure ⟨name, hname, hkey⟩)
      (Or.inl ⟨name, hname, hkey, hproto⟩)

/-- A project with an empty catalog whose one spec uses the name of an inherited property. -/
def inheritedNameSpec : TrigramProjectSpec where
  projectId := "inherited"
  regionMapCatalog := .empty
  permutationSpecs := [.prefixSuffix ["constructor"] ["A"] ["B"]]

/-- The name `constructor` passes for a name of an empty catalog. -/
theorem inheritedName_expands :
    (∃ out, expandToPermutationsSpec inheritedNameSpec = .ok out) ∧
      ¬ReferentialIntegrity (fun _ => "") inheritedNameSpec := by
  have hexpands : ∃ out, expandToPermutationsSpec inheritedNameSpec = .ok out := ⟨_, rfl⟩
  refine ⟨hexpands, fun h => ?_⟩
  have hkey := h.succeeds_iff.mp hexpands _ List.mem_cons_self "constructor" List.mem_cons_self
  exact absurd hkey (by decide)

end RandomArt.PermutationExpander
