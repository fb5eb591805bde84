import RandomArt.PlotSlices
import RandomArt.RegionMapDraft

/-!
# Region maps from protocol buffers

The adapter reads its x coordinates from the rows of the message and its y coordinates from the
columns. Without a resolution the number of rows stands for the height and the number of columns
for the width, which is the other way round: plots and imports come out right only for as many
rows as columns.
-/

namespace RandomArt

namespace PBuf

/-- The reference points of the message, numbered in this order. -/
inductive RefPointMap where
  | topLeft
  | center
  deriving DecidableEq

structure ImageSize where
  pixelheight : ℕ
  pixelwidth : ℕ

structure PointPlotData where
  pixelref : RefPointMap
  resolution : Option ImageSize
  mappedRegion : Option RegionBoundaries
  uniform : Bool
  rowsList : List ℚ
  columnsList : List ℚ

end PBuf

namespace PBufRegionMap

open PBuf RegionMapUtils IpldRegionMapRepository

inductive AdapterError where
  | resolutionUndefined
  | mappedRegionUndefined
  | commit (error : CommitError)

/-- The names at the places of the numbers 0 and 1. -/
def PIXEL_REF_MAP : RefPointMap → RefPoint
  | .topLeft => .center
  | .center => .topLeft

section Adapter

variable (data : PointPlotData)

def columnOrderedXCoordinates : List ℚ := data.rowsList

def columnOrderedYCoordinates : List ℚ := data.columnsList

/-- A size of the image, from the resolution or else the length of a list. -/
def sizeOr (size : ImageSize → ℕ) (fallback : ℕ) : Except AdapterError ℕ :=
  match data.resolution with
  | some resolution => .ok (size resolution)
  | none => if data.uniform then .ok fallback else .error .resolutionUndefined

def pixelHeight : Except AdapterError ℕ := sizeOr data (·.pixelheight) data.rowsList.length

def pixelWidth : Except AdapterError ℕ := sizeOr data (·.pixelwidth) data.columnsList.length

/-- The map as the plotter sees it, which does not ask for its borders. -/
def plotted : Except AdapterError (RegionMap ℚ) := do
  let pixelWidth ← pixelWidth data
  let pixelHeight ← pixelHeight data
  return {
    pixelHeight
    pixelWidth
    pixelSize := 1
    columnOrderedXCoordinates := columnOrderedXCoordinates data
    columnOrderedYCoordinates := columnOrderedYCoordinates data
    isUniform := data.uniform
    regionBoundary := data.mappedRegion.getD ⟨0, 0, 0, 0⟩ }

def directBuilder : Except AdapterError (List BuilderCall) := do
  match data.mappedRegion with
  | none => throw .mappedRegionUndefined
  | some mappedRegion =>
    let pixelWidth ← pixelWidth data
    let pixelHeight ← pixelHeight data
    return [
      .pixelRef (PIXEL_REF_MAP data.pixelref),
      .regionBoundary mappedRegion,
      .imageSize pixelWidth pixelHeight,
      .xByRows (columnOrderedXCoordinates data),
      .yByRows (columnOrderedYCoordinates data)]

variable {Cid Bytes Store : Type} (stream : BitStream) (storage : BlockStorage Cid Bytes Store)

/-- The import of the adapted map into the repository. -/
def importInto (store : Store) : Except AdapterError (Cid × Store) := do
  let director ← directBuilder data
  (importMap stream storage store director).mapError .commit

/-- All pairs of an x and a y coordinate, row by row. -/
def coordinatePairs : List (Option ℚ × Option ℚ) :=
  (columnOrderedYCoordinates data).flatMap fun y =>
    (columnOrderedXCoordinates data).map fun x => (some x, some y)

/-- A plot of the whole image has each pair of coordinates once, and nothing else. -/
def PlotsEachPair : Prop :=
  ∃ map, plotted data = .ok map ∧
    (map.plotCalls 0 map.pixelHeight).Perm (coordinatePairs data)

/-- The import stores a root that is marked as projected. -/
def StoresProjected (store : Store) : Prop :=
  ∃ cid store' root, importInto data stream storage store = .ok (cid, store') ∧
    (storage.get store' cid).bind storage.decodeModel = some root ∧ root.projected = true

end Adapter

section Plots

variable {data : PointPlotData}

theorem sizeOr_eq (hresolution : data.resolution = none) (huniform : data.uniform = true)
    (size : ImageSize → ℕ) (fallback : ℕ) : sizeOr data size fallback = .ok fallback := by
  simp only [sizeOr, hresolution, huniform, if_true]

theorem map_getElem?_range {α : Type} (xs : List α) :
    ((List.range xs.length).map fun i => xs[i]?) = xs.map some := by
  apply List.ext_getElem?
  intro i
  rcases Nat.lt_or_ge i xs.length with hi | hi
  · simp [hi]
  · simp [hi]

theorem flatMap_range_pairs {α β : Type} (xs : List α) (ys : List β) :
    ((List.range ys.length).flatMap fun y =>
      (List.range xs.length).map fun x => (xs[x]?, ys[y]?)) =
      ys.flatMap fun y => xs.map fun x => (some x, some y) := by
  have hrow : ∀ b : Option β, ((List.range xs.length).map fun x => (xs[x]?, b)) =
      xs.map fun x => (some x, b) := by
    intro b
    have hmap := congrArg (List.map fun a => (a, b)) (map_getElem?_range xs)
    rwa [List.map_map, List.map_map] at hmap
  have hcolumn := congrArg (List.flatMap fun b => xs.map fun x => (some x, b))
    (map_getElem?_range ys)
  rw [List.flatMap_map, List.flatMap_map] at hcolumn
  simp only [hrow]
  exact hcolumn

/-- The loops take their bounds from the lists that they do not index. -/
theorem exists_plotted (hresolution : data.resolution = none) (huniform : data.uniform = true) :
    ∃ map, plotted data = .ok map ∧ map.plotCalls 0 map.pixelHeight =
      (List.range data.rowsList.length).flatMap fun y =>
        (List.range data.columnsList.length).map fun x =>
          (data.rowsList[x]?, data.columnsList[y]?) := by
  have hplotted : plotted data = .ok {
      pixelHeight := data.rowsList.length
      pixelWidth := data.columnsList.length
      pixelSize := 1
      columnOrderedXCoordinates := data.rowsList
      columnOrderedYCoordinates := data.columnsList
      isUniform := data.uniform
      regionBoundary := data.mappedRegion.getD ⟨0, 0, 0, 0⟩ } := by
    rw [plotted, pixelWidth, pixelHeight, sizeOr_eq hresolution huniform,
      sizeOr_eq hresolution huniform]
    rfl
  refine ⟨_, hplotted, ?_⟩
  simp only [RegionMap.plotCalls, huniform, if_true, Nat.min_self, Nat.sub_zero,
    List.range_eq_range']

/-- The plot has each pair when the lists are equally long, or one of them is empty. -/
theorem plotsEachPair_iff (hresolution : data.resolution = none) (huniform : data.uniform = true) :
    PlotsEachPair data ↔ data.rowsList.length = data.columnsList.length ∨
      data.rowsList = [] ∨ data.columnsList = [] := by
  obtain ⟨map, hplotted, hcalls⟩ := exists_plotted hresolution huniform
  constructor
  · rintro ⟨map', hplotted', hperm⟩
    obtain rfl : map = map' := Except.ok.inj (hplotted.symm.trans hplotted')
    rw [hcalls] at hperm
    by_contra! hlengths
    obtain ⟨hne, hrows, hcolumns⟩ := hlengths
    have hheight := List.length_pos_of_ne_nil hrows
    have hwidth := List.length_pos_of_ne_nil hcolumns
    have hdefined : ∀ y < data.rowsList.length, ∀ x < data.columnsList.length,
        x < data.rowsList.length ∧ y < data.columnsList.length := by
      intro y hy x hx
      have hcall : (data.rowsList[x]?, data.columnsList[y]?) ∈ coordinatePairs data :=
        hperm.mem_iff.mp (List.mem_flatMap.mpr
          ⟨y, List.mem_range.mpr hy, List.mem_map.mpr ⟨x, List.mem_range.mpr hx, rfl⟩⟩)
      obtain ⟨b, -, hb⟩ := List.mem_flatMap.mp hcall
      obtain ⟨a, -, hab⟩ := List.mem_map.mp hb
      obtain ⟨hx', hy'⟩ := Prod.mk.inj hab
      exact ⟨(List.getElem?_eq_some_iff.mp hx'.symm).1, (List.getElem?_eq_some_iff.mp hy'.symm).1⟩
    have hcolumn := (hdefined 0 hheight (data.columnsList.length - 1) (by omega)).1
    have hrow := (hdefined (data.rowsList.length - 1) (by omega) 0 hwidth).2
    omega
  · intro hlengths
    refine ⟨map, hplotted, ?_⟩
    rw [hcalls, coordinatePairs]
    rcases hlengths with hsame | hrows | hcolumns
    · have hswapped : ((List.range data.rowsList.length).flatMap fun y =>
          (List.range data.columnsList.length).map fun x =>
            (data.rowsList[x]?, data.columnsList[y]?)) =
          (List.range data.columnsList.length).flatMap fun y =>
            (List.range data.rowsList.length).map fun x =>
              (data.rowsList[x]?, data.columnsList[y]?) := by rw [hsame]
      rw [hswapped, flatMap_range_pairs]
      exact List.Perm.refl _
    · simp [hrows, columnOrderedXCoordinates]
    · simp [hcolumns, columnOrderedYCoordinates]

end Plots

section Imports

variable {data : PointPlotData}
variable {Cid Bytes Store : Type} (stream : BitStream) (storage : BlockStorage Cid Bytes Store)

theorem directBuilder_eq (hresolution : data.resolution = none) (huniform : data.uniform = true)
    {mappedRegion : RegionBoundaries} (hregion : data.mappedRegion = some mappedRegion) :
    directBuilder data = .ok [
      .pixelRef (PIXEL_REF_MAP data.pixelref), .regionBoundary mappedRegion,
      .imageSize data.columnsList.length data.rowsList.length,
      .xByRows data.rowsList, .yByRows data.columnsList] := by
  simp only [directBuilder, hregion, pixelWidth, pixelHeight, sizeOr_eq hresolution huniform]
  rfl

def adapted (data : PointPlotData) (mappedRegion : RegionBoundaries) : RegionMapModelBuilder where
  pixelRef := PIXEL_REF_MAP data.pixelref
  pixelWidth := data.columnsList.length
  pixelHeight := data.rowsList.length
  regionBoundaryFractions := fractionifyBounds mappedRegion
  rowOrderX := some data.rowsList
  rowOrderY := some data.columnsList

theorem direct_adapted (mappedRegion : RegionBoundaries) :
    RegionMapModelBuilder.direct [
      .pixelRef (PIXEL_REF_MAP data.pixelref), .regionBoundary mappedRegion,
      .imageSize data.columnsList.length data.rowsList.length,
      .xByRows data.rowsList, .yByRows data.columnsList] = adapted data mappedRegion := rfl

theorem isProjected_adapted (mappedRegion : RegionBoundaries) :
    (adapted data mappedRegion).isProjected =
      .ok (decide (data.rowsList.length = data.columnsList.length)) := by
  have hdefined : ¬((data.columnsList.length : ℤ) = -1 ∨ (data.rowsList.length : ℤ) = -1) := by
    omega
  simp only [RegionMapModelBuilder.isProjected, adapted, hdefined, if_false, Nat.cast_inj]
  congr 1
  rw [decide_eq_decide]
  omega

/-- The import stores a projected map when there are borders and equally many rows and columns. -/
theorem storesProjected_iff (hresolution : data.resolution = none)
    (huniform : data.uniform = true) (store : Store) :
    StoresProjected data stream storage store ↔ data.mappedRegion.isSome ∧
      data.rowsList.length = data.columnsList.length ∧ data.rowsList ≠ [] := by
  cases hregion : data.mappedRegion with
  | none => simp [StoresProjected, importInto, directBuilder, hregion, bind, Except.bind]
  | some mappedRegion =>
    have hleft : (fractionifyBounds mappedRegion).leftD ≠ 0 :=
      Int.natCast_ne_zero.mpr mappedRegion.left.den_ne_zero
    have hbottom : (fractionifyBounds mappedRegion).bottomD ≠ 0 :=
      Int.natCast_ne_zero.mpr mappedRegion.bottom.den_ne_zero
    have hstores := RegionMapDraft.exists_projected_iff stream storage
      (show (adapted data mappedRegion).regionBoundaryFractions.leftD ≠ 0 from hleft) hbottom store
    rw [isProjected_adapted, RegionMapModelBuilder.rows, RegionMapModelBuilder.cols, rowsOf, colsOf,
      noneEmpty_fractionifyList_iff] at hstores
    have hmap (result : Except CommitError (Cid × Store)) (value : Cid × Store) :
        result.mapError AdapterError.commit = .ok value ↔ result = .ok value := by
      cases result <;> simp [Except.mapError]
    simp only [StoresProjected, importInto, directBuilder_eq hresolution huniform hregion, bind,
      Except.bind, hmap, importMap, direct_adapted]
    rw [hstores, Except.ok.injEq, decide_eq_true_eq]
    simp only [adapted, Option.getD_some, Option.isSome_some, true_and]
    constructor
    · rintro ⟨⟨hrows, -⟩, hsame⟩
      exact ⟨hsame, hrows⟩
    · rintro ⟨hsame, hrows⟩
      refine ⟨⟨hrows, List.ne_nil_of_length_pos ?_⟩, hsame⟩
      rw [← hsame]
      exact List.length_pos_of_ne_nil hrows

/-- Both come out right exactly for as many rows as columns, if there are any, and borders. -/
theorem plots_and_stores_iff (hresolution : data.resolution = none)
    (huniform : data.uniform = true) (store : Store) :
    PlotsEachPair data ∧ StoresProjected data stream storage store ↔
      data.mappedRegion.isSome ∧ data.rowsList.length = data.columnsList.length ∧
        data.rowsList ≠ [] := by
  rw [plotsEachPair_iff hresolution huniform,
    storesProjected_iff stream storage hresolution huniform]
  tauto

def unitSquare (rowsList columnsList : List ℚ) : PointPlotData :=
  ⟨.center, none, some ⟨1, 0, 0, 1⟩, true, rowsList, columnsList⟩

theorem plots_and_stores_two_by_two :
    PlotsEachPair (unitSquare [1, 2] [3, 4]) ∧
      StoresProjected (unitSquare [1, 2] [3, 4]) wordStream nodeStorage fun _ => none :=
  (plots_and_stores_iff wordStream nodeStorage rfl rfl _).mpr ⟨rfl, rfl, by decide⟩

/-- Two x and three y coordinates are taken for an image of width three and height two. -/
theorem two_rows_of_three :
    ¬PlotsEachPair (unitSquare [1, 2] [1, 2, 3]) ∧
      ¬StoresProjected (unitSquare [1, 2] [1, 2, 3]) wordStream nodeStorage fun _ => none := by
  rw [plotsEachPair_iff rfl rfl, storesProjected_iff wordStream nodeStorage rfl rfl]
  decide

end Imports

end PBufRegionMap

end RandomArt
