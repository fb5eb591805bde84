import RandomArt.RegionMapDraft

/-!
# Completeness of committed region maps

The builder can tell whether a map has a coordinate pair for each pixel, but a commit does not ask.
Maps that are not projected are stored with lists of any lengths, and blocks are left behind when
the root does not fit its schema.
-/

namespace RandomArt.IpldRegionMapRepository.RegionMapDraft

open RegionMapUtils

variable (odd : OddNumbers)
variable {Cid Bytes Store : Type} (stream : BitStream) (storage : BlockStorage Cid Bytes Store)

section Schema

/-- The sizes and borders are integers, which is what the schema of the root asks for. -/
structure FitsSchema (draft : RegionMapDraft) : Prop where
  width : ∃ n, draft.pixelWidth.toInt = some n
  height : ∃ n, draft.pixelHeight.toInt = some n
  boundary : ∀ border, ∃ fraction, integers (draft.boundaryFractions border) = some fraction

variable {draft : RegionMapDraft} {projected : Bool}
variable {codings : RowColFraction → DimensionCoding} {palettes data : List Cid}

theorem exists_toRepresentation_iff :
    (∃ root, draft.toRepresentation projected codings palettes data = some root) ↔
      FitsSchema draft := by
  constructor
  · rintro ⟨root, h⟩
    simp only [toRepresentation, bind, Option.bind_eq_some_iff] at h
    obtain ⟨w, hw, h', hh, top, htop, bottom, hbottom, left, hleft, right, hright, -⟩ := h
    refine ⟨⟨w, hw⟩, ⟨h', hh⟩, fun border => ?_⟩
    cases border with
    | top => exact ⟨top, htop⟩
    | bottom => exact ⟨bottom, hbottom⟩
    | left => exact ⟨left, hleft⟩
    | right => exact ⟨right, hright⟩
  · rintro ⟨⟨w, hw⟩, ⟨h, hh⟩, hboundary⟩
    obtain ⟨top, htop⟩ := hboundary .top
    obtain ⟨bottom, hbottom⟩ := hboundary .bottom
    obtain ⟨left, hleft⟩ := hboundary .left
    obtain ⟨right, hright⟩ := hboundary .right
    simp [toRepresentation, hw, hh, htop, hbottom, hleft, hright]

theorem of_toRepresentation {root : RegionMapModel Cid}
    (h : draft.toRepresentation projected codings palettes data = some root) :
    draft.pixelWidth = .finite root.pixelWidth ∧ draft.pixelHeight = .finite root.pixelHeight ∧
      root.projected = projected := by
  simp only [toRepresentation, bind, Option.bind_eq_some_iff] at h
  obtain ⟨w, hw, h', hh, top, htop, bottom, hbottom, left, hleft, right, hright, h⟩ := h
  cases h
  exact ⟨JsNumber.toInt_eq_some_iff.mp hw, JsNumber.toInt_eq_some_iff.mp hh, rfl⟩

end Schema

section Completeness

/-- A root whose map has all its coordinates, for the size that the root gives. -/
def CompleteRoot (draft : RegionMapDraft) (root : RegionMapModel Cid) : Prop :=
  ∃ xs ys, draft.rowOrderX = some xs ∧ draft.rowOrderY = some ys ∧
    (root.projected = true ∧ (xs.length : ℤ) = root.pixelWidth ∧
        (ys.length : ℤ) = root.pixelHeight ∨
      root.projected = false ∧ (xs.length : ℤ) = root.pixelWidth * root.pixelHeight ∧
        (ys.length : ℤ) = root.pixelWidth * root.pixelHeight)

/-- A director's import is rejected before anything is put, or the last entry is a complete
root. -/
def ImportsComplete (director : List DirectorCall) : Prop :=
  match Failing.exec (importMap odd stream storage director) [] with
  | (.error _, puts) => puts = []
  | (.ok cid, puts) => ∃ draft bytes root, direct odd director = .ok draft ∧
      puts.getLast? = some (cid, bytes) ∧ storage.decodeModel bytes = some root ∧
      CompleteRoot draft root

/-- The lists and the size are defined, and the lists can be encoded: when all coordinates are
finite, none of the lists may be empty. -/
def Encodable (draft : RegionMapDraft) : Prop :=
  ∃ xs ys, draft.defined = .ok (xs, ys) ∧
    match distances xs draft.leftOffset, distances ys draft.bottomOffset with
    | some _, some _ => xs ≠ [] ∧ ys ≠ []
    | _, _ => ∃ encoded, odd.encodeLists xs ys draft.leftOffset draft.bottomOffset = .ok encoded

variable {odd} {draft : RegionMapDraft} {xs ys : List JsNumber}

theorem defined_eq_ok_iff : draft.defined = .ok (xs, ys) ↔
    draft.rowOrderX = some xs ∧ draft.rowOrderY = some ys ∧
      draft.pixelWidth ≠ .finite (-1) ∧ draft.pixelHeight ≠ .finite (-1) := by
  rw [defined]
  cases draft.rowOrderX with
  | none => simp
  | some xs' =>
    cases draft.rowOrderY with
    | none => simp
    | some ys' =>
      simp only [Option.some_inj]
      split_ifs with hundefined
      · simp only [false_iff]
        tauto
      · simp only [Except.ok.injEq, Prod.mk.injEq]
        tauto

theorem distances_eq_nil_iff {source : List JsNumber} {offset : JsNumber} {qs : List ℚ}
    (h : distances source offset = some qs) : qs = [] ↔ source = [] := by
  cases source with
  | nil =>
    cases h
    simp
  | cons x source =>
    simp only [distances, List.mapM_cons, bind, Option.bind_eq_some_iff] at h
    obtain ⟨q, -, qs', -, h⟩ := h
    cases h
    simp

theorem encodeLists_isOk_iff (hx : draft.rowOrderX = some xs) (hy : draft.rowOrderY = some ys) :
    (∃ encoded, draft.encodeLists odd stream = .ok encoded) ↔
      match distances xs draft.leftOffset, distances ys draft.bottomOffset with
      | some _, some _ => xs ≠ [] ∧ ys ≠ []
      | _, _ =>
        ∃ encoded, odd.encodeLists xs ys draft.leftOffset draft.bottomOffset = .ok encoded := by
  rw [encodeLists, hx, hy, Option.getD_some, Option.getD_some]
  cases hrows : distances xs draft.leftOffset with
  | none => rfl
  | some rows =>
    cases hcols : distances ys draft.bottomOffset with
    | none => rfl
    | some cols =>
      have hnone : NoneEmpty (fractionifyList rows 0) (fractionifyList cols 0) ↔
          xs ≠ [] ∧ ys ≠ [] := by
        rw [noneEmpty_fractionifyList_iff, ne_eq, ne_eq, distances_eq_nil_iff hrows,
          distances_eq_nil_iff hcols]
      simp only
      rw [← hnone, ← encodeFractions_isOk_iff stream]
      cases encodeFractions stream (fractionifyList rows 0) (fractionifyList cols 0) with
      | error error => simp [Except.mapError]
      | ok encoded => simp [Except.mapError]

theorem isProjected_isOk_iff : (∃ projected, draft.isProjected = .ok projected) ↔
    ∃ xs ys, draft.defined = .ok (xs, ys) := by
  rw [isProjected]
  cases draft.defined with
  | error error => simp [Except.map]
  | ok lists => exact iff_of_true ⟨_, rfl⟩ ⟨lists.1, lists.2, rfl⟩

theorem encodable_iff : Encodable odd draft ↔
    (∃ encoded, draft.encodeLists odd stream = .ok encoded) ∧
      ∃ projected, draft.isProjected = .ok projected := by
  rw [isProjected_isOk_iff]
  constructor
  · rintro ⟨xs, ys, hdefined, hencode⟩
    obtain ⟨hx, hy, -, -⟩ := defined_eq_ok_iff.mp hdefined
    exact ⟨(encodeLists_isOk_iff stream hx hy).mpr hencode, xs, ys, hdefined⟩
  · rintro ⟨hencoded, xs, ys, hdefined⟩
    obtain ⟨hx, hy, -, -⟩ := defined_eq_ok_iff.mp hdefined
    exact ⟨xs, ys, hdefined, (encodeLists_isOk_iff stream hx hy).mp hencoded⟩

theorem completeRoot_iff {projected : Bool} {codings : RowColFraction → DimensionCoding}
    {palettes data : List Cid} {root : RegionMapModel Cid}
    (hprojected : draft.isProjected = .ok projected)
    (hroot : draft.toRepresentation projected codings palettes data = some root) :
    CompleteRoot draft root ↔ draft.isProjected = .ok true ∨ draft.isComplete = .ok true := by
  obtain ⟨xs, ys, hdefined⟩ := isProjected_isOk_iff.mp ⟨projected, hprojected⟩
  obtain ⟨hx, hy, -, -⟩ := defined_eq_ok_iff.mp hdefined
  obtain ⟨hwidth, hheight, rfl⟩ := of_toRepresentation hroot
  have htest : draft.isProjected = .ok (decide ((xs.length : ℤ) = root.pixelWidth ∧
      (ys.length : ℤ) = root.pixelHeight)) := by
    rw [isProjected, hdefined, hwidth, hheight, Except.map]
    simp only [JsNumber.finite.injEq]
    norm_cast
  have hcount : draft.isComplete = .ok (decide
      ((xs.length : ℤ) = root.pixelWidth * root.pixelHeight ∧
        (ys.length : ℤ) = root.pixelWidth * root.pixelHeight)) := by
    rw [isComplete, hdefined, hwidth, hheight, Except.map]
    simp only [JsNumber.mul, JsNumber.finite.injEq]
    norm_cast
  have hflag := Except.ok.inj (hprojected.symm.trans htest)
  simp only [CompleteRoot, htest, hcount, hx, hy, hflag, Option.some_inj, Except.ok.injEq,
    decide_eq_true_eq, decide_eq_false_iff_not, exists_and_left, exists_eq_left']
  tauto

theorem importsComplete_of_direct {director : List DirectorCall}
    (hdraft : direct odd director = .ok draft) :
    ImportsComplete odd stream storage director ↔
      (Encodable odd draft →
        FitsSchema draft ∧ (draft.isProjected = .ok true ∨ draft.isComplete = .ok true)) := by
  rw [ImportsComplete, importMap, Failing.exec_bind, Failing.exec_ofExcept, hdraft,
    encodable_iff stream]
  simp only [Except.mapError, Except.ok.injEq]
  cases hencoded : draft.encodeLists odd stream with
  | error error => simp [exec_commit_encodeError hencoded]
  | ok encoded =>
    cases hprojected : draft.isProjected with
    | error error => simp [exec_commit_undefined hencoded hprojected]
    | ok projected =>
      rw [exec_commit hencoded hprojected]
      cases hroot : draft.toRepresentation projected encoded.codings
        (encoded.paletteBlocks.map fun block => (storage.encodeData block).1)
        (encoded.dataBlocks.map fun block => (storage.encodeData block).1) with
      | none =>
        have hunfit : ¬FitsSchema draft := by
          intro hfits
          obtain ⟨root, hsome⟩ := exists_toRepresentation_iff.mpr hfits
          exact nomatch hroot.symm.trans hsome
        -- The data blocks have been put when the root turns out not to fit.
        have hput : encoded.dataBlocks.map storage.encodeData ≠ [] := fun h =>
          encoded.dataBlocks_ne_nil (List.map_eq_nil_iff.mp h)
        simp [hput, hunfit]
      | some root =>
        have hfits : FitsSchema draft := exists_toRepresentation_iff.mp ⟨root, hroot⟩
        rw [← hprojected, ← completeRoot_iff hprojected hroot]
        constructor
        · rintro ⟨_, bytes, stored, rfl, hentry, hdecode, hcomplete⟩ -
          rw [List.getLast?_concat, Option.some_inj] at hentry
          obtain rfl : bytes = (storage.encodeModel root).2 := by rw [hentry]
          rw [storage.decode_model] at hdecode
          cases hdecode
          exact ⟨hfits, hcomplete⟩
        · intro h
          exact ⟨draft, _, root, rfl, List.getLast?_concat, storage.decode_model root,
            (h ⟨⟨encoded, rfl⟩, projected, hprojected⟩).2⟩

/-- Imports are complete exactly as far as every draft that can be encoded fits the schema of its
root and passes one of the builder's two tests. -/
theorem importsComplete_iff (director : List DirectorCall) :
    ImportsComplete odd stream storage director ↔
      ∀ draft, direct odd director = .ok draft → Encodable odd draft →
        FitsSchema draft ∧ (draft.isProjected = .ok true ∨ draft.isComplete = .ok true) := by
  cases hdraft : direct odd director with
  | error error =>
    rw [ImportsComplete, importMap, Failing.exec_bind, Failing.exec_ofExcept, hdraft]
    simp [Except.mapError]
  | ok draft => simp [importsComplete_of_direct stream storage hdraft]

/-- Libraries that throw at numbers that are not finite. -/
def finiteOnly : OddNumbers where
  fraction _ := none
  encodeLists _ _ _ _ := .error .invalidFraction

/-- Calls that give one point to an image at the origin. -/
def onePointDirector (pixelWidth pixelHeight : ℚ) : List DirectorCall :=
  [.imageSize (.finite pixelWidth) (.finite pixelHeight),
    .regionBoundaryFractions fun _ => (.finite 0, .finite 1),
    .xByRows [.finite 1], .yByRows [.finite 1]]

def onePoint (pixelWidth pixelHeight : ℚ) : RegionMapDraft where
  pixelRef := .center
  pixelWidth := .finite pixelWidth
  pixelHeight := .finite pixelHeight
  boundaryFractions _ := (.finite 0, .finite 1)
  rowOrderX := some [.finite 1]
  rowOrderY := some [.finite 1]

theorem encodable_onePoint {pixelWidth pixelHeight : ℚ} (hw : pixelWidth ≠ -1)
    (hh : pixelHeight ≠ -1) : Encodable odd (onePoint pixelWidth pixelHeight) := by
  refine ⟨[.finite 1], [.finite 1], defined_eq_ok_iff.mpr ⟨rfl, rfl, ?_, ?_⟩, ?_⟩
  · simpa [onePoint] using hw
  · simpa [onePoint] using hh
  · simp [distances, onePoint, leftOffset, bottomOffset, JsNumber.div, JsNumber.sub]

/-- One point is stored for four pixels, and blocks are stored for a width that is not whole. -/
theorem one_point_for_any_size :
    ¬ImportsComplete finiteOnly wordStream nodeStorage (onePointDirector 2 2) ∧
      ¬ImportsComplete finiteOnly wordStream nodeStorage (onePointDirector (5 / 2) 1) := by
  have hfour : direct finiteOnly (onePointDirector 2 2) = .ok (onePoint 2 2) := rfl
  have hbroken : direct finiteOnly (onePointDirector (5 / 2) 1) = .ok (onePoint (5 / 2) 1) := rfl
  constructor
  · rw [importsComplete_of_direct wordStream nodeStorage hfour]
    intro h
    obtain ⟨-, hprojected | hcomplete⟩ := h (encodable_onePoint (by norm_num) (by norm_num))
    · exact absurd hprojected (by decide +kernel)
    · exact absurd hcomplete (by decide +kernel)
  · rw [importsComplete_of_direct wordStream nodeStorage hbroken]
    intro h
    obtain ⟨⟨⟨n, hn⟩, -, -⟩, -⟩ := h (encodable_onePoint (by norm_num) (by norm_num))
    have hnone : (onePoint (5 / 2) 1).pixelWidth.toInt = none := by decide +kernel
    exact nomatch hnone.symm.trans hn

end Completeness

end RandomArt.IpldRegionMapRepository.RegionMapDraft
