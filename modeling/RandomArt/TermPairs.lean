import RandomArt.IndexPairs
import RandomArt.PermutationExpander

/-!
# The term pairs of a project

Both expansions go over pairs of indices row by row, so repeated terms give pairs of their own.
The groups of a project follow its specs, and the count of its tasks is the sum over them.
-/

namespace RandomArt.PermutationExpander

open FallibleFold IndexPairs

/-- The pairs of terms are those at the selected pairs of indices, each once, row by row. -/
def Enumerates (selected : ℕ × ℕ → Prop) (prefixes suffixes : List String)
    (pairs : List PermutationTermPair) : Prop :=
  ∃ order : List (ℕ × ℕ), order.Pairwise (Prod.Lex (· < ·) (· < ·)) ∧
    (∀ ij, ij ∈ order ↔ ij.1 < prefixes.length ∧ ij.2 < suffixes.length ∧ selected ij) ∧
    pairs = order.map fun ij => ⟨prefixes.getD ij.1 "", suffixes.getD ij.2 ""⟩

section Expansions

theorem enumerates_prefixSuffix (prefixTrigrams suffixTrigrams : List String) :
    Enumerates (fun _ => True) prefixTrigrams suffixTrigrams
      (expandPrefixSuffixPairs prefixTrigrams suffixTrigrams) := by
  refine ⟨indexPairs prefixTrigrams.length suffixTrigrams.length, pairwise_indexPairs _ _, ?_,
    flatMap_map_eq PermutationTermPair.mk prefixTrigrams suffixTrigrams "" ""⟩
  intro ij
  rw [mem_indexPairs, and_true]

theorem length_prefixSuffix (prefixTrigrams suffixTrigrams : List String) :
    (expandPrefixSuffixPairs prefixTrigrams suffixTrigrams).length =
      prefixTrigrams.length * suffixTrigrams.length := by
  simp [expandPrefixSuffixPairs, List.length_flatMap]

variable (sourceTrigrams : List String) (includeIdentity : Option Bool)

/-- Whether the loops over one list take a pair of its indices. -/
def takes (includeIdentity : Option Bool) (i j : ℕ) : Prop :=
  i ≠ j ∨ includeIdentity.getD false = true

instance (i j : ℕ) : Decidable (takes includeIdentity i j) := inferInstanceAs (Decidable (_ ∨ _))

theorem expandAllPairTerms_eq : expandAllPairTerms sourceTrigrams includeIdentity =
    ((indexPairs sourceTrigrams.length sourceTrigrams.length).filter fun ij =>
      takes includeIdentity ij.1 ij.2).map fun ij =>
        ⟨sourceTrigrams.getD ij.1 "", sourceTrigrams.getD ij.2 ""⟩ :=
  flatMap_filterMap_eq PermutationTermPair.mk sourceTrigrams sourceTrigrams "" ""
    (takes includeIdentity)

theorem enumerates_allPairs : Enumerates (fun ij => takes includeIdentity ij.1 ij.2)
    sourceTrigrams sourceTrigrams (expandAllPairTerms sourceTrigrams includeIdentity) := by
  refine ⟨_, (pairwise_indexPairs _ _).filter _, ?_,
    expandAllPairTerms_eq sourceTrigrams includeIdentity⟩
  intro ij
  rw [List.mem_filter, mem_indexPairs, decide_eq_true_eq, and_assoc]

theorem length_allPairs : (expandAllPairTerms sourceTrigrams includeIdentity).length =
    if includeIdentity.getD false = true then sourceTrigrams.length * sourceTrigrams.length
    else sourceTrigrams.length * sourceTrigrams.length - sourceTrigrams.length := by
  rw [expandAllPairTerms_eq, List.length_map]
  split_ifs with hidentity
  · rw [List.filter_eq_self.mpr, length_indexPairs]
    intro ij _
    exact decide_eq_true (Or.inr hidentity)
  · rw [← length_offDiagonal]
    congr 1
    apply List.filter_congr
    intro ij _
    simp [takes, hidentity]

end Expansions

section Specs

namespace PermutationSpec

def prefixes : PermutationSpec → List String
  | prefixSuffix _ prefixTrigrams _ => prefixTrigrams
  | allPairs _ sourceTrigrams _ => sourceTrigrams

def suffixes : PermutationSpec → List String
  | prefixSuffix _ _ suffixTrigrams => suffixTrigrams
  | allPairs _ sourceTrigrams _ => sourceTrigrams

def Selects : PermutationSpec → ℕ × ℕ → Prop
  | prefixSuffix _ _ _ => fun _ => True
  | allPairs _ _ includeIdentity => fun ij => takes includeIdentity ij.1 ij.2

/-- How many pairs of indices a spec selects. -/
def pairCount : PermutationSpec → ℕ
  | prefixSuffix _ prefixTrigrams suffixTrigrams => prefixTrigrams.length * suffixTrigrams.length
  | allPairs _ sourceTrigrams includeIdentity =>
    if includeIdentity.getD false = true then sourceTrigrams.length * sourceTrigrams.length
    else sourceTrigrams.length * sourceTrigrams.length - sourceTrigrams.length

end PermutationSpec

/-- The group that belongs to a spec. -/
structure IsGroupOf (spec : PermutationSpec) (group : PermutationTermGroup) : Prop where
  names : group.regionMapNames = spec.regionMapNames
  pairs : Enumerates spec.Selects spec.prefixes spec.suffixes group.termPairs
  count : group.termPairs.length = spec.pairCount

theorem isGroupOf_of_expandTermGroup {spec : PermutationSpec}
    {catalog : PlainObject RegionMapEntry} {group : PermutationTermGroup}
    (h : expandTermGroup spec catalog = .ok group) : IsGroupOf spec group := by
  unfold expandTermGroup at h
  obtain ⟨-, -, rfl⟩ := exists_of_map_eq_ok h
  cases spec with
  | prefixSuffix regionMapNames prefixTrigrams suffixTrigrams =>
    exact ⟨rfl, enumerates_prefixSuffix _ _, length_prefixSuffix _ _⟩
  | allPairs regionMapNames sourceTrigrams includeIdentity =>
    exact ⟨rfl, enumerates_allPairs _ _, length_allPairs _ _⟩

theorem isGroupOf_of_mapM {catalog : PlainObject RegionMapEntry} {specs : List PermutationSpec}
    {groups : List PermutationTermGroup}
    (h : specs.mapM (expandTermGroup · catalog) = .ok groups) :
    List.Forall₂ IsGroupOf specs groups := by
  induction specs generalizing groups with
  | nil =>
    cases h
    exact List.Forall₂.nil
  | cons spec specs ih =>
    obtain ⟨group, rest, hgroup, hrest, rfl⟩ := mapM_cons_eq_ok.mp h
    exact List.Forall₂.cons (isGroupOf_of_expandTermGroup hgroup) (ih hrest)

/-- The tasks that a project asks for: for each spec the selected pairs with every region map. -/
def requestedTasks (spec : TrigramProjectSpec) : ℕ :=
  (spec.permutationSpecs.map fun s => s.pairCount * s.regionMapNames.length).sum

theorem sum_of_isGroupOf {specs : List PermutationSpec} {groups : List PermutationTermGroup}
    (h : List.Forall₂ IsGroupOf specs groups) :
    (groups.map fun group => group.termPairs.length * group.regionMapNames.length).sum =
      (specs.map fun s => s.pairCount * s.regionMapNames.length).sum := by
  induction h with
  | nil => rfl
  | cons hgroup _ ih =>
    rw [List.map_cons, List.map_cons, List.sum_cons, List.sum_cons, ih, hgroup.names, hgroup.count]

end Specs

/-- Both expansions give the selected pairs row by row and as many as there are; the groups of an
expanded project belong to its specs in order, and its validation counts the requested tasks. -/
theorem expansion_exact (message : ExpandFailure → String) :
    (∀ prefixTrigrams suffixTrigrams,
      Enumerates (fun _ => True) prefixTrigrams suffixTrigrams
        (expandPrefixSuffixPairs prefixTrigrams suffixTrigrams) ∧
      (expandPrefixSuffixPairs prefixTrigrams suffixTrigrams).length =
        prefixTrigrams.length * suffixTrigrams.length) ∧
    (∀ sourceTrigrams includeIdentity,
      Enumerates (fun ij => ij.1 ≠ ij.2 ∨ includeIdentity.getD false = true) sourceTrigrams
        sourceTrigrams (expandAllPairTerms sourceTrigrams includeIdentity) ∧
      (expandAllPairTerms sourceTrigrams includeIdentity).length =
        if includeIdentity.getD false = true then sourceTrigrams.length * sourceTrigrams.length
        else sourceTrigrams.length * sourceTrigrams.length - sourceTrigrams.length) ∧
    ∀ spec out, expandToPermutationsSpec spec = .ok out →
      List.Forall₂ IsGroupOf spec.permutationSpecs out.termGroups ∧
        (validateProject message spec).taskCount = requestedTasks spec := by
  refine ⟨?_, ?_, ?_⟩
  · intro prefixTrigrams suffixTrigrams
    exact ⟨enumerates_prefixSuffix _ _, length_prefixSuffix _ _⟩
  · intro sourceTrigrams includeIdentity
    exact ⟨enumerates_allPairs _ _, length_allPairs _ _⟩
  · intro spec out hout
    have hgroups : List.Forall₂ IsGroupOf spec.permutationSpecs out.termGroups := by
      rw [expandToPermutationsSpec] at hout
      obtain ⟨groups, hmap, rfl⟩ := exists_of_map_eq_ok hout
      exact isGroupOf_of_mapM hmap
    refine ⟨hgroups, ?_⟩
    rw [validateProject, hout]
    exact sum_of_isGroupOf hgroups

/-- A project with two specs, one of them over repeated terms. -/
def repeatedTermsSpec : TrigramProjectSpec where
  projectId := "repeated"
  regionMapCatalog := PlainObject.empty.assignAll [("map", ⟨"cid", none⟩)]
  permutationSpecs := [.prefixSuffix ["map"] ["A"] ["B"], .allPairs ["map"] ["A", "A"] none]

theorem expansion_exact_repeated :
    (validateProject (fun _ => "") repeatedTermsSpec).taskCount = 3 :=
  ((expansion_exact fun _ => "").2.2 repeatedTermsSpec _ rfl).2

end RandomArt.PermutationExpander
