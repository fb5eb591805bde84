import RandomArt.PaintingMessages

/-!
# Looking up region maps

A region map is loaded by its CID and admitted when its geometry passes the
validation. The maps of a request are looked up once, under their name and their
CID; further CIDs are looked up when a task refers to them.
-/

namespace RandomArt.RegionMapLookup

open PaintGeometry

structure ResolvedRegionMap where
  cidRef : PlotDataCIDRef
  geometry : PlotMapGeometry
  deriving DecidableEq

/-- What stops a lookup: a repository that throws, a geometry that is refused, or a task
whose reference leads nowhere. -/
inductive LookupFailure where
  | loadFailed (name : Option String) (cid : Option String) (message : String)
  | geometry (error : GeometryError)
  | taskNotLocated (index : ℕ) (ref : PlotDataRef)
  deriving DecidableEq

variable {Coord : Type}

def geometryOf (regionMap : RegionMap Coord) : PlotMapGeometry where
  boundary := regionMap.regionBoundary
  imageSize := ⟨regionMap.pixelWidth, regionMap.pixelHeight, regionMap.pixelSize⟩

/-- A repository: it parses a CID and loads the region map behind it, or throws. -/
abbrev Repository (Coord : Type) := String → Except String (RegionMap Coord)

def maybeLookupRegionMap (regionMapRepo : Repository Coord) (cidStr : String)
    (name : Option String) : Except LookupFailure ResolvedRegionMap :=
  match regionMapRepo cidStr with
  | .error message => .error (.loadFailed name (some cidStr) message)
  | .ok regionMap =>
    match assertValidPaintGeometry (geometryOf regionMap) with
    | .error e => .error (.geometry e)
    | .ok _ => .ok ⟨⟨name, cidStr, true⟩, geometryOf regionMap⟩

abbrev ResolvedMaps := String → Option ResolvedRegionMap

def ResolvedMaps.set (maps : ResolvedMaps) (key : String) (resolved : ResolvedRegionMap) :
    ResolvedMaps := Function.update maps key (some resolved)

def resolveRegionMaps (regionMapRepo : Repository Coord)
    (regionMapNames : List (String × String)) : Except LookupFailure ResolvedMaps :=
  regionMapNames.foldlM (fun maps entry => do
    let resolved ← maybeLookupRegionMap regionMapRepo entry.2 (some entry.1)
    return (maps.set entry.1 resolved).set entry.2 resolved) fun _ => none

/-- The map of one task, and the maps known from then on. -/
def resolveTask (regionMapRepo : Repository Coord) (maps : ResolvedMaps) (index : ℕ)
    (ref : PlotDataRef) : Except LookupFailure (ResolvedRegionMap × ResolvedMaps) :=
  if ref.isRefByName then
    match maps (ref.regionMapName.getD "") with
    | some resolved => .ok (resolved, maps)
    | none => .error (.taskNotLocated index ref)
  else
    match ref.regionMapCID with
    | none => .error (.loadFailed ref.regionMapName none "undefined")
    | some cid =>
      match maps cid with
      | some resolved => .ok (resolved, maps)
      | none =>
        (maybeLookupRegionMap regionMapRepo cid ref.regionMapName).map fun resolved =>
          (resolved, maps.set cid resolved)

/-- All tasks in order, each with the maps that the ones before it left. -/
def resolveTasks (regionMapRepo : Repository Coord) :
    ℕ → ResolvedMaps → List PlotDataRef → Except LookupFailure (List ResolvedRegionMap)
  | _, _, [] => .ok []
  | index, maps, ref :: refs =>
    match resolveTask regionMapRepo maps index ref with
    | .error e => .error e
    | .ok (resolved, maps') =>
      (resolveTasks regionMapRepo (index + 1) maps' refs).map (resolved :: ·)

theorem maybeLookupRegionMap_ok_iff {regionMapRepo : Repository Coord} {cidStr : String}
    {name : Option String} {regionMap : RegionMap Coord}
    (hload : regionMapRepo cidStr = .ok regionMap) :
    (∃ resolved, maybeLookupRegionMap regionMapRepo cidStr name = .ok resolved) ↔
      Accepts (geometryOf regionMap) := by
  unfold maybeLookupRegionMap Accepts
  rw [hload]
  simp only
  cases assertValidPaintGeometry (geometryOf regionMap) with
  | error e => simp
  | ok u => simp

/-- The width of the image is to its height as the region's. -/
def ExactAspect (geometry : PlotMapGeometry) : Prop :=
  (geometry.imageSize.pixelWidth : ℚ) / geometry.imageSize.pixelHeight =
    spatialRatio geometry.boundary

/-- The validation accepts the aspect-consistent geometry, and a map of exact aspect is
admitted by every lookup that loads it. -/
def AcceptsAspectConsistent (geometry : PlotMapGeometry) : Prop :=
  (Accepts geometry ↔ AspectConsistent (logicalColumns geometry) (logicalRows geometry)
    (spatialRatio geometry.boundary)) ∧
  (ExactAspect geometry → Accepts geometry ∧
    ∀ (regionMapRepo : Repository ℚ) (cidStr : String) (name : Option String)
      (regionMap : RegionMap ℚ), regionMapRepo cidStr = .ok regionMap →
      geometryOf regionMap = geometry →
      ∃ resolved, maybeLookupRegionMap regionMapRepo cidStr name = .ok resolved)

theorem exactAspect_logical {geometry : PlotMapGeometry} (hg : WellFormed geometry)
    (hexact : ExactAspect geometry) :
    (logicalColumns geometry : ℚ) / logicalRows geometry = spatialRatio geometry.boundary := by
  have hsize : (geometry.imageSize.pixelSize : ℚ) ≠ 0 := by
    have := pixelSize_pos hg
    positivity
  rw [← hexact, logicalColumns, logicalRows, Nat.cast_div_charZero hg.size_dvd_width,
    Nat.cast_div_charZero hg.size_dvd_height, div_div_div_cancel_right₀ hsize]

/-- The validation does its job exactly on images with as many logical columns as rows, and
on those whose aspect is wrong both upright and transposed. -/
theorem acceptsAspectConsistent_iff {geometry : PlotMapGeometry} (hg : WellFormed geometry) :
    AcceptsAspectConsistent geometry ↔
      logicalColumns geometry = logicalRows geometry ∨
      (¬AspectConsistent (logicalColumns geometry) (logicalRows geometry)
          (spatialRatio geometry.boundary) ∧
        ¬AspectConsistent (logicalRows geometry) (logicalColumns geometry)
          (spatialRatio geometry.boundary)) := by
  have hratio := spatialRatio_pos hg
  have hcols : 0 < logicalColumns geometry :=
    Nat.div_pos (Nat.le_of_dvd hg.width_pos hg.size_dvd_width) (pixelSize_pos hg)
  have hrows : 0 < logicalRows geometry :=
    Nat.div_pos (Nat.le_of_dvd hg.height_pos hg.size_dvd_height) (pixelSize_pos hg)
  have hexact : ExactAspect geometry → AspectConsistent (logicalColumns geometry)
      (logicalRows geometry) (spatialRatio geometry.boundary) := fun h =>
    aspectConsistent_of_exact hcols hrows (exactAspect_logical hg h)
  have hadmit : Accepts geometry → ∀ (regionMapRepo : Repository ℚ) (cidStr : String)
      (name : Option String) (regionMap : RegionMap ℚ), regionMapRepo cidStr = .ok regionMap →
      geometryOf regionMap = geometry →
      ∃ resolved, maybeLookupRegionMap regionMapRepo cidStr name = .ok resolved := by
    rintro haccepts regionMapRepo cidStr name regionMap hload rfl
    exact (maybeLookupRegionMap_ok_iff hload).mpr haccepts
  rw [AcceptsAspectConsistent]
  constructor
  · rintro ⟨hiff, -⟩
    rw [accepts_iff hg] at hiff
    by_cases hup : AspectConsistent (logicalColumns geometry) (logicalRows geometry)
        (spatialRatio geometry.boundary)
    · exact Or.inl (eq_of_aspectConsistent_swap hratio hup (hiff.mpr hup))
    · exact Or.inr ⟨hup, fun hswap => hup (hiff.mp hswap)⟩
  · rintro (hsquare | ⟨hup, hswap⟩)
    · have hiff : Accepts geometry ↔ AspectConsistent (logicalColumns geometry)
          (logicalRows geometry) (spatialRatio geometry.boundary) := by
        rw [accepts_iff hg, hsquare]
      exact ⟨hiff, fun h => ⟨hiff.mpr (hexact h), hadmit (hiff.mpr (hexact h))⟩⟩
    · refine ⟨?_, fun h => absurd (hexact h) hup⟩
      rw [accepts_iff hg]
      exact ⟨fun h => absurd h hswap, fun h => absurd h hup⟩

def unitGeometry (regionWidth : ℚ) (pixelWidth pixelHeight : ℕ) : PlotMapGeometry :=
  ⟨⟨1, 0, 0, regionWidth⟩, ⟨pixelWidth, pixelHeight, 1⟩⟩

/-- A square image of a square region is accepted, and one three times as wide as high of a region
twice as wide as high is not. -/
theorem acceptsAspectConsistent_square_and_wide :
    AcceptsAspectConsistent (unitGeometry 1 100 100) ∧
      AcceptsAspectConsistent (unitGeometry 2 300 100) := by
  constructor
  · exact (acceptsAspectConsistent_iff (by constructor <;> simp [unitGeometry])).mpr (Or.inl rfl)
  · refine (acceptsAspectConsistent_iff (by constructor <;> simp [unitGeometry])).mpr (Or.inr ?_)
    decide +kernel

/-- Two hundred by one hundred pixels of a region twice as wide as high are refused. -/
theorem wideGeometry_refused :
    WellFormed (unitGeometry 2 200 100) ∧ ExactAspect (unitGeometry 2 200 100) ∧
      ¬AcceptsAspectConsistent (unitGeometry 2 200 100) := by
  have hexact : ExactAspect (unitGeometry 2 200 100) := by
    norm_num [ExactAspect, unitGeometry, spatialRatio]
  have hrefused : ¬Accepts (unitGeometry 2 200 100) := by decide +kernel
  exact ⟨by constructor <;> simp [unitGeometry], hexact, fun h => hrefused (h.2 hexact).1⟩

end RandomArt.RegionMapLookup
