import RandomArt.BlendMxN
import Mathlib.Tactic.Ring

/-!
# The regions of a merged image

A family of regions is a family of row bands crossed with a family of column bands. In one
direction the bands are the two corners, the middle of each tile, and what two neighbours
share; side by side they cover the merged extent once.
-/

namespace RandomArt.BlendMxN

open SpanPartition

/-- A span of the merged image in one direction, with the tiles it shows and where in them. -/
structure Band where
  toSpan : Span
  parts : List (ℕ × Span)

def band (length start : ℕ) (sources : List (ℕ × ℕ)) : Band :=
  ⟨⟨start, start + length⟩, sources.map fun source => (source.1, ⟨source.2, source.2 + length⟩)⟩

/-- The region of a row band and a column band: each row of tiles for each column. -/
def cross (rows cols : Band) : Blend where
  toSlices := ⟨rows.toSpan, cols.toSpan⟩
  parts := cols.parts.flatMap fun col => rows.parts.map fun row =>
    ⟨(row.1, col.1), ⟨row.2, col.2⟩⟩

def crossAll (rows cols : List Band) : List Blend := (rows ×ˢ cols).map fun b => cross b.1 b.2

/-- One direction of a grid: the number of tiles and their extent. -/
structure Axis where
  count : ℕ
  extent : ℕ

namespace Axis

variable (a : Axis)

def overlap : ℕ := a.extent / alignmentGrid
def center : ℕ := a.extent - 2 * a.overlap
def step : ℕ := a.extent - a.overlap
def merged : ℕ := a.count * a.step + a.overlap

/-- The two ends of the merged extent. -/
def corner (x : ℕ) : Band :=
  band a.overlap (x * (a.count * a.step)) [(x * (a.count - 1), x * a.step)]

/-- What only the `x`-th tile shows. -/
def middle (x : ℕ) : Band := band a.center (a.overlap + x * a.step) [(x, a.overlap)]

/-- What the `x`-th tile shares with its successor. -/
def shared (x : ℕ) : Band := band a.overlap ((x + 1) * a.step) [(x, a.step), (x + 1, 0)]

def corners : List Band := (List.range 2).map a.corner
def middles : List Band := (List.range a.count).map a.middle
def shareds : List Band := (List.range (a.count - 1)).map a.shared
def bands : List Band := a.corners ++ a.middles ++ a.shareds

end Axis

section Directions

namespace Axis

variable (a : Axis)

theorem step_add_overlap : a.step + a.overlap = a.extent :=
  Nat.sub_add_cancel (Nat.div_le_self _ _)

theorem center_add_overlap : a.center + a.overlap = a.step := by
  have hle : 2 * a.overlap ≤ a.extent := by
    simp only [overlap, alignmentGrid]
    omega
  simp only [center, step]
  omega

/-- A band of the merged extent whose parts lie in their tiles, where the tile is that far into
the merged extent. -/
structure Fits (b : Band) : Prop where
  inside : b.toSpan.stop ≤ a.merged
  tile : ∀ p ∈ b.parts, p.1 < a.count
  slice : ∀ p ∈ b.parts, p.2.stop ≤ a.extent
  aligned : ∀ p ∈ b.parts, b.toSpan.first = p.1 * a.step + p.2.first

theorem fits_corner (hcount : 1 ≤ a.count) {x : ℕ} (hx : x < 2) : a.Fits (a.corner x) := by
  obtain ⟨n, hn⟩ := Nat.exists_eq_add_of_le' hcount
  have hextent := a.step_add_overlap
  have hmul : (n + 1) * a.step = n * a.step + a.step := Nat.succ_mul _ _
  have hx' : x = 0 ∨ x = 1 := by omega
  rcases hx' with rfl | rfl
  · constructor <;> simp [corner, band, merged, hn]
    omega
  · constructor <;> simp [corner, band, merged, hn, hmul]
    omega

theorem fits_middle {x : ℕ} (hx : x < a.count) : a.Fits (a.middle x) := by
  have hextent := a.step_add_overlap
  have hstep := a.center_add_overlap
  have hmul : (x + 1) * a.step ≤ a.count * a.step := Nat.mul_le_mul_right _ hx
  rw [Nat.succ_mul] at hmul
  constructor <;> simp [middle, band, merged, hx]
  all_goals omega

theorem fits_shared {x : ℕ} (hx : x < a.count - 1) : a.Fits (a.shared x) := by
  have hextent := a.step_add_overlap
  have hmul : (x + 1) * a.step ≤ a.count * a.step := Nat.mul_le_mul_right _ (by omega)
  constructor <;> simp [shared, band, merged, Nat.succ_mul] at hmul ⊢
  all_goals omega

theorem fits_bands (hcount : 1 ≤ a.count) : ∀ b ∈ a.bands, a.Fits b := by
  intro b hb
  simp only [bands, corners, middles, shareds, List.mem_append, List.mem_map, List.mem_range] at hb
  rcases hb with (⟨x, hx, rfl⟩ | ⟨x, hx, rfl⟩) | ⟨x, hx, rfl⟩
  · exact a.fits_corner hcount hx
  · exact a.fits_middle hx
  · exact a.fits_shared hx

/-- Where neighbours meet, from the upper end of the merged extent to its lower end. -/
def seam (x : ℕ) : Span := ⟨x * a.step, x * a.step + a.overlap⟩

def gap (x : ℕ) : Span := ⟨a.overlap + x * a.step, a.overlap + x * a.step + a.center⟩

/-- Seams and gaps alternate. -/
theorem countP_seam_gap (n i : ℕ) :
    ((List.range (n + 1)).map a.seam).countP (·.covers i) +
      ((List.range n).map a.gap).countP (·.covers i) =
        if i < n * a.step + a.overlap then 1 else 0 := by
  have hstep := a.center_add_overlap
  induction n with
  | zero => simp [seam, List.countP_cons]
  | succ n ih =>
    have hseam : ((List.range (n + 2)).map a.seam).countP (·.covers i) =
        ((List.range (n + 1)).map a.seam).countP (·.covers i) +
          if (a.seam (n + 1)).covers i then 1 else 0 := by
      rw [List.range_succ, List.map_append, List.countP_append]
      simp [List.countP_cons]
    have hgap : ((List.range (n + 1)).map a.gap).countP (·.covers i) =
        ((List.range n).map a.gap).countP (·.covers i) +
          if (a.gap n).covers i then 1 else 0 := by
      rw [List.range_succ, List.map_append, List.countP_append]
      simp [List.countP_cons]
    rw [hseam, hgap]
    simp only [Span.covers_iff, seam, gap, Nat.succ_mul] at ih ⊢
    split_ifs at ih ⊢ <;> omega

/-- Side by side, the bands cover the merged extent once. -/
theorem countP_bands (hcount : 1 ≤ a.count) (i : ℕ) :
    a.bands.countP (·.toSpan.covers i) = if i < a.merged then 1 else 0 := by
  obtain ⟨n, hn⟩ := Nat.exists_eq_add_of_le' hcount
  have hseams : (List.range (a.count + 1)).map a.seam =
      a.seam 0 :: ((List.range n).map fun x => a.seam (x + 1)) ++ [a.seam a.count] := by
    rw [hn, List.range_succ, List.range_succ_eq_map]
    simp [Function.comp_def]
  have hcorners : a.corners.map Band.toSpan = [a.seam 0, a.seam a.count] := by
    simp [corners, corner, seam, band, List.range_succ]
  have hmiddles : a.middles.map Band.toSpan = (List.range a.count).map a.gap := by
    simp [middles, middle, gap, band, Function.comp_def]
  have hshareds : a.shareds.map Band.toSpan = (List.range n).map fun x => a.seam (x + 1) := by
    simp [shareds, shared, seam, band, hn, Function.comp_def]
  have hcount : a.bands.countP (·.toSpan.covers i) =
      (a.bands.map Band.toSpan).countP (·.covers i) := by
    rw [List.countP_map]
    rfl
  rw [merged, ← a.countP_seam_gap a.count i, hcount, bands, List.map_append, List.map_append,
    hcorners, hmiddles, hshareds, hseams]
  simp only [List.countP_append, List.countP_cons, List.countP_nil]
  omega

end Axis

end Directions

section Families

theorem entry_table {a b a' b' x y : ℕ} (f : ℕ → ℕ → ℕ × ℕ) (hx : x < b - a) (hy : y < b' - a') :
    entry (table (range a b) (range a' b') f) x y = some (f (a + x) (a' + y)) := by
  simp [entry, table, range, hx, hy]

theorem mapM_eq_some_map {α β : Type} {f : α → Option β} {g : α → β} {xs : List α}
    (h : ∀ x ∈ xs, f x = some (g x)) : xs.mapM f = some (xs.map g) := by
  induction xs with
  | nil => rfl
  | cons x xs ih =>
    rw [List.mapM_cons, h x List.mem_cons_self, ih fun z hz => h z (List.mem_cons_of_mem x hz)]
    rfl

theorem map_product_map {α β γ δ : Type} (f : α → γ) (g : β → δ) (xs : List α) (ys : List β) :
    xs.map f ×ˢ ys.map g = (xs ×ˢ ys).map fun xy => (f xy.1, g xy.2) := by
  induction xs with
  | nil => rfl
  | cons x xs ih =>
    rw [List.map_cons, List.product_cons, ih, List.product_cons, List.map_append, List.map_map,
      List.map_map]
    rfl

/-- A family whose instances cross two families of bands. -/
theorem blends_eq_crossAll {spec : RegionSpec} {m n : ℕ} {rows cols : ℕ → Band}
    (hinstances : spec.instances = (m, n))
    (hblend : ∀ x < m, ∀ y < n, spec.blend x y = some (cross (rows x) (cols y))) :
    spec.blends = some (crossAll ((List.range m).map rows) ((List.range n).map cols)) := by
  have hrange : ∀ k, range 0 k = List.range k := by
    intro k
    simp [range, List.range_eq_range']
  rw [RegionSpec.blends, hinstances, hrange, hrange, crossAll, map_product_map, List.map_map]
  apply mapM_eq_some_map
  rintro ⟨x, y⟩ hxy
  obtain ⟨hx, hy⟩ := List.mem_product.mp hxy
  exact hblend x (List.mem_range.mp hx) y (List.mem_range.mp hy)

namespace Grid

variable (g : Grid)

def rows : Axis := ⟨g.rowCount, g.rowHeightIn⟩
def cols : Axis := ⟨g.colCount, g.colWidthIn⟩

section Lengths

@[simp] theorem count_rows : g.rows.count = g.rowCount := rfl
@[simp] theorem count_cols : g.cols.count = g.colCount := rfl
@[simp] theorem rowCornerHeight_eq : g.rowCornerHeight = g.rows.overlap := rfl
@[simp] theorem colCornerWidth_eq : g.colCornerWidth = g.cols.overlap := rfl
@[simp] theorem rowOverlapHeight_eq : g.rowOverlapHeight = g.rows.overlap := rfl
@[simp] theorem colOverlapWidth_eq : g.colOverlapWidth = g.cols.overlap := rfl
@[simp] theorem rowCenterHeight_eq : g.rowCenterHeight = g.rows.center := rfl
@[simp] theorem colCenterWidth_eq : g.colCenterWidth = g.cols.center := rfl
@[simp] theorem rowStepHeight_eq : g.rowStepHeight = g.rows.step := rfl
@[simp] theorem colStepWidth_eq : g.colStepWidth = g.cols.step := rfl
@[simp] theorem sourceInnerHeight_eq : g.sourceInnerHeight = g.rows.step := rfl
@[simp] theorem sourceInnerWidth_eq : g.sourceInnerWidth = g.cols.step := rfl
@[simp] theorem mergedShape_eq : g.mergedShape = (g.rows.merged, g.cols.merged) := rfl

@[simp] theorem mergedInnerHeight_eq : g.mergedInnerHeight = g.rowCount * g.rows.step :=
  Nat.add_sub_cancel _ _

@[simp] theorem mergedInnerWidth_eq : g.mergedInnerWidth = g.colCount * g.cols.step :=
  Nat.add_sub_cancel _ _

end Lengths

theorem blends_cornerRegion :
    g.cornerRegion.blends = some (crossAll g.rows.corners g.cols.corners) := by
  refine blends_eq_crossAll (m := 2) (n := 2) rfl fun x hx y hy => ?_
  simp [cornerRegion, RegionSpec.blend, RegionSpec.part, entry_table, hx, hy, cross, Axis.corner,
    band, getSlices]

theorem blends_rowPerimeterRegion :
    g.rowPerimeterRegion.blends = some (crossAll g.rows.middles g.cols.corners) := by
  refine blends_eq_crossAll (m := g.rowCount) (n := 2) rfl fun x hx y hy => ?_
  simp [rowPerimeterRegion, RegionSpec.blend, RegionSpec.part, entry_table, hx, hy, cross,
    Axis.middle, Axis.corner, band, getSlices]

theorem blends_colPerimeterRegion :
    g.colPerimeterRegion.blends = some (crossAll g.rows.corners g.cols.middles) := by
  refine blends_eq_crossAll (m := 2) (n := g.colCount) rfl fun x hx y hy => ?_
  simp [colPerimeterRegion, RegionSpec.blend, RegionSpec.part, entry_table, hx, hy, cross,
    Axis.middle, Axis.corner, band, getSlices]

theorem blends_cellCenterRegion :
    g.cellCenterRegion.blends = some (crossAll g.rows.middles g.cols.middles) := by
  refine blends_eq_crossAll (m := g.rowCount) (n := g.colCount) rfl fun x hx y hy => ?_
  simp [cellCenterRegion, RegionSpec.blend, RegionSpec.part, entry_table, hx, hy, cross,
    Axis.middle, band, getSlices]

theorem blends_rowPerimeterOverlapRegion :
    g.rowPerimeterOverlapRegion.blends = some (crossAll g.rows.shareds g.cols.corners) := by
  refine blends_eq_crossAll (m := g.rowCount - 1) (n := 2) rfl fun x hx y hy => ?_
  simp [rowPerimeterOverlapRegion, RegionSpec.blend, RegionSpec.part, entry_table, hx, hy, cross,
    Axis.shared, Axis.corner, band, getSlices, Nat.add_comm 1]

theorem blends_colPerimeterOverlapRegion :
    g.colPerimeterOverlapRegion.blends = some (crossAll g.rows.corners g.cols.shareds) := by
  refine blends_eq_crossAll (m := 2) (n := g.colCount - 1) rfl fun x hx y hy => ?_
  simp [colPerimeterOverlapRegion, RegionSpec.blend, RegionSpec.part, entry_table, hx, hy, cross,
    Axis.shared, Axis.corner, band, getSlices, Nat.add_comm 1]

theorem blends_sameRowInsideOverlapRegion :
    g.sameRowInsideOverlapRegion.blends = some (crossAll g.rows.middles g.cols.shareds) := by
  refine blends_eq_crossAll (m := g.rowCount) (n := g.colCount - 1) rfl fun x hx y hy => ?_
  simp [sameRowInsideOverlapRegion, RegionSpec.blend, RegionSpec.part, entry_table, hx, hy, cross,
    Axis.shared, Axis.middle, band, getSlices, Nat.add_comm 1, Nat.add_comm g.rows.overlap]

theorem blends_sameColInsideOverlapRegion :
    g.sameColInsideOverlapRegion.blends = some (crossAll g.rows.shareds g.cols.middles) := by
  refine blends_eq_crossAll (m := g.rowCount - 1) (n := g.colCount) rfl fun x hx y hy => ?_
  simp [sameColInsideOverlapRegion, RegionSpec.blend, RegionSpec.part, entry_table, hx, hy, cross,
    Axis.shared, Axis.middle, band, getSlices, Nat.add_comm 1, Nat.add_comm g.cols.overlap]

theorem blends_inner4wayRegion :
    g.inner4wayRegion.blends = some (crossAll g.rows.shareds g.cols.shareds) := by
  refine blends_eq_crossAll (m := g.rowCount - 1) (n := g.colCount - 1) rfl fun x hx y hy => ?_
  simp [inner4wayRegion, RegionSpec.blend, RegionSpec.part, entry_table, hx, hy, cross,
    Axis.shared, band, getSlices, Nat.add_comm 1]

/-- All regions, family by family. -/
def families : List (List Blend) :=
  [crossAll g.rows.corners g.cols.corners, crossAll g.rows.middles g.cols.corners,
    crossAll g.rows.corners g.cols.middles, crossAll g.rows.middles g.cols.middles,
    crossAll g.rows.shareds g.cols.corners, crossAll g.rows.corners g.cols.shareds,
    crossAll g.rows.middles g.cols.shareds, crossAll g.rows.shareds g.cols.middles,
    crossAll g.rows.shareds g.cols.shareds]

theorem mapM_blends_regions : g.regions.mapM RegionSpec.blends = some g.families := by
  simp only [regions, List.mapM_cons, List.mapM_nil, blends_cornerRegion,
    blends_rowPerimeterRegion, blends_colPerimeterRegion, blends_cellCenterRegion,
    blends_rowPerimeterOverlapRegion, blends_colPerimeterOverlapRegion,
    blends_sameRowInsideOverlapRegion, blends_sameColInsideOverlapRegion, blends_inner4wayRegion]
  rfl

end Grid

end Families

section Canvas

theorem countP_crossAll (rows cols : List Band) (row col : ℕ) :
    (crossAll rows cols).countP (·.toSlices.covers row col) =
      rows.countP (·.toSpan.covers row) * cols.countP (·.toSpan.covers col) := by
  rw [crossAll, List.countP_map, ← countP_product]
  rfl

theorem mem_crossAll {rows cols : List Band} {b : Blend} :
    b ∈ crossAll rows cols ↔ ∃ r ∈ rows, ∃ c ∈ cols, cross r c = b := by
  simp [crossAll, and_assoc]

theorem mem_parts_cross {rows cols : Band} {p : Part} (hp : p ∈ (cross rows cols).parts) :
    ∃ r ∈ rows.parts, ∃ c ∈ cols.parts, p = ⟨(r.1, c.1), ⟨r.2, c.2⟩⟩ := by
  obtain ⟨c, hc, hp⟩ := List.mem_flatMap.mp hp
  obtain ⟨r, hr, rfl⟩ := List.mem_map.mp hp
  exact ⟨r, hr, c, hc, rfl⟩

namespace Grid

variable (g : Grid)

/-- The regions show each pixel of the merged image once, and each of them the matching pixels
of its tiles. -/
structure Tiles (blends : List Blend) : Prop where
  disjoint : (blends.map Blend.toSlices).Pairwise Rect.Apart
  inside : ∀ b ∈ blends, b.toSlices.Within g.mergedShape
  covered : ∀ row < g.mergedShape.1, ∀ col < g.mergedShape.2,
    blends.countP (·.toSlices.covers row col) = 1
  source : ∀ b ∈ blends, ∀ p ∈ b.parts, p.tile.1 < g.rowCount ∧ p.tile.2 < g.colCount ∧
    p.slices.Within (g.rowHeightIn, g.colWidthIn)
  aligned : ∀ b ∈ blends, ∀ p ∈ b.parts,
    b.toSlices.rows.first = p.tile.1 * g.rowStepHeight + p.slices.rows.first ∧
    b.toSlices.cols.first = p.tile.2 * g.colStepWidth + p.slices.cols.first

variable {g}

theorem mem_families {b : Blend} (hb : b ∈ g.families.flatten) :
    ∃ r ∈ g.rows.bands, ∃ c ∈ g.cols.bands, cross r c = b := by
  simp only [families, List.flatten_cons, List.flatten_nil, List.append_nil, List.mem_append,
    mem_crossAll] at hb
  simp only [Axis.bands, List.mem_append]
  grind

theorem countP_families (hrows : 1 ≤ g.rowCount) (hcols : 1 ≤ g.colCount) (row col : ℕ) :
    g.families.flatten.countP (·.toSlices.covers row col) =
      (if row < g.mergedShape.1 then 1 else 0) * if col < g.mergedShape.2 then 1 else 0 := by
  rw [mergedShape_eq, ← g.rows.countP_bands hrows row, ← g.cols.countP_bands hcols col]
  simp only [families, List.flatten_cons, List.flatten_nil, List.countP_append, List.countP_nil,
    countP_crossAll, Axis.bands]
  ring

/-- The regions of all nine families tile the merged image, for any number of tiles of any
size. -/
theorem regions_tile (hrows : 1 ≤ g.rowCount) (hcols : 1 ≤ g.colCount) :
    ∃ families, g.regions.mapM RegionSpec.blends = some families ∧ g.Tiles families.flatten := by
  have hcount := countP_families hrows hcols
  refine ⟨g.families, g.mapM_blends_regions, ?_, ?_, ?_, ?_, ?_⟩
  · have hle : ∀ pixel : ℕ × ℕ,
        (g.families.flatten.map Blend.toSlices).countP (·.covers pixel.1 pixel.2) ≤ 1 := by
      intro pixel
      rw [List.countP_map]
      refine (hcount pixel.1 pixel.2).trans_le ?_
      split_ifs <;> omega
    apply (pairwise_of_countP_le_one hle).imp
    intro r s hapart row col
    exact hapart (row, col)
  · intro b hb
    obtain ⟨r, hr, c, hc, rfl⟩ := mem_families hb
    exact ⟨(g.rows.fits_bands hrows r hr).inside, (g.cols.fits_bands hcols c hc).inside⟩
  · intro row hrow col hcol
    rw [hcount, if_pos hrow, if_pos hcol]
  · intro b hb p hp
    obtain ⟨r, hr, c, hc, rfl⟩ := mem_families hb
    obtain ⟨pr, hpr, pc, hpc, rfl⟩ := mem_parts_cross hp
    have hfitsRow := g.rows.fits_bands hrows r hr
    have hfitsCol := g.cols.fits_bands hcols c hc
    exact ⟨hfitsRow.tile pr hpr, hfitsCol.tile pc hpc, hfitsRow.slice pr hpr,
      hfitsCol.slice pc hpc⟩
  · intro b hb p hp
    obtain ⟨r, hr, c, hc, rfl⟩ := mem_families hb
    obtain ⟨pr, hpr, pc, hpc, rfl⟩ := mem_parts_cross hp
    exact ⟨(g.rows.fits_bands hrows r hr).aligned pr hpr,
      (g.cols.fits_bands hcols c hc).aligned pc hpc⟩

section Writing

theorem hasAllAxes_nil : hasAllAxes [] = true := rfl

theorem hasAllAxes_cons {a b a' b' : ℕ} (f : ℕ → ℕ → ℕ × ℕ)
    (tables : List (List (List (ℕ × ℕ)))) :
    hasAllAxes (table (range a b) (range a' b') f :: tables) =
      (decide (a < b ∧ a' < b') && hasAllAxes tables) := by
  have hrange : ∀ m n, (range m n).isEmpty = decide (n ≤ m) := by
    intro m n
    rw [Bool.eq_iff_iff]
    simp [range, List.isEmpty_iff, Nat.sub_eq_zero_iff_le]
  rw [hasAllAxes, List.all_cons]
  congr 1
  rw [Bool.eq_iff_iff]
  simp only [table, List.isEmpty_map, hrange, List.all_map, Bool.and_eq_true, List.all_eq_true,
    Function.comp_apply, Bool.not_eq_true', decide_eq_false_iff_not, not_le, decide_eq_true_eq]
  constructor
  · rintro ⟨hab, hall⟩
    have hmem : a ∈ range a b := by
      rw [range, List.mem_range'_1]
      omega
    exact ⟨hab, hall a hmem⟩
  · rintro ⟨hab, hab'⟩
    exact ⟨hab, fun _ _ => hab'⟩

theorem mapM_isSome_iff {α β : Type} {f : α → Option β} {xs : List α} :
    (xs.mapM f).isSome = true ↔ ∀ x ∈ xs, (f x).isSome = true := by
  induction xs with
  | nil => simp
  | cons x xs ih =>
    rw [List.mapM_cons, List.forall_mem_cons, ← ih]
    cases f x with
    | none => simp
    | some y => cases xs.mapM f <;> simp

/-- All regions are written exactly when there are two rows and two columns of tiles: with one,
the tables of the overlaps are empty. -/
theorem regions_written_iff :
    (g.regions.mapM applyRegionSpec).isSome = true ↔ 2 ≤ g.rowCount ∧ 2 ≤ g.colCount := by
  have hblends : ∀ spec ∈ g.regions, spec.blends.isSome = true := by
    rw [← mapM_isSome_iff, mapM_blends_regions]
    rfl
  have hwritten : ∀ spec ∈ g.regions, (applyRegionSpec spec).isSome = true ↔
      (hasAllAxes spec.sourceIndex && hasAllAxes spec.mergeFrom) = true := by
    intro spec hspec
    have hsome := hblends spec hspec
    rw [applyRegionSpec]
    split_ifs with haxes <;> simp [haxes, hsome]
  rw [mapM_isSome_iff, forall₂_congr hwritten]
  simp only [regions, List.forall_mem_cons, List.not_mem_nil, cornerRegion, rowPerimeterRegion,
    colPerimeterRegion, cellCenterRegion, rowPerimeterOverlapRegion, colPerimeterOverlapRegion,
    sameRowInsideOverlapRegion, sameColInsideOverlapRegion, inner4wayRegion, hasAllAxes_cons,
    hasAllAxes_nil, Bool.and_eq_true, decide_eq_true_eq]
  constructor
  · intro h
    omega
  · rintro ⟨hrows', hcols'⟩
    simp
    omega

/-- What is written is what the regions describe. -/
theorem applyRegionSpec_eq {specs : List RegionSpec} {families : List (List Blend)}
    (h : specs.mapM applyRegionSpec = some families) :
    specs.mapM RegionSpec.blends = some families := by
  induction specs generalizing families with
  | nil => exact h
  | cons spec specs ih =>
    rw [List.mapM_cons] at h ⊢
    obtain ⟨blends, hblends, h⟩ := Option.bind_eq_some_iff.mp h
    obtain ⟨rest, hrest, h⟩ := Option.bind_eq_some_iff.mp h
    rw [applyRegionSpec] at hblends
    split_ifs at hblends
    rw [hblends, ih hrest]
    exact h

/-- The regions are written, and tile the merged image, for grids of two rows and two columns of
tiles and more. -/
theorem written_tiles_iff (g : Grid) :
    (∃ families, g.regions.mapM applyRegionSpec = some families ∧ g.Tiles families.flatten) ↔
      2 ≤ g.rowCount ∧ 2 ≤ g.colCount := by
  rw [← regions_written_iff]
  constructor
  · rintro ⟨families, hwritten, -⟩
    rw [hwritten]
    rfl
  · intro hsome
    obtain ⟨families, hwritten⟩ := Option.isSome_iff_exists.mp hsome
    obtain ⟨hrows, hcols⟩ := regions_written_iff.mp hsome
    obtain ⟨described, hdescribed, htiles⟩ :=
      regions_tile (one_le_two.trans hrows) (one_le_two.trans hcols)
    rw [applyRegionSpec_eq hwritten] at hdescribed
    cases hdescribed
    exact ⟨families, hwritten, htiles⟩

/-- One row of three tiles, and one column, are not written. -/
theorem row_not_written :
    ¬(∃ families, (Grid.mk 1 3 24 30).regions.mapM applyRegionSpec = some families ∧
      (Grid.mk 1 3 24 30).Tiles families.flatten) ∧
    ¬∃ families, (Grid.mk 3 1 24 30).regions.mapM applyRegionSpec = some families ∧
      (Grid.mk 3 1 24 30).Tiles families.flatten := by
  have hrow : (Grid.mk 1 3 24 30).regions.mapM applyRegionSpec = none := by decide
  have hcol : (Grid.mk 3 1 24 30).regions.mapM applyRegionSpec = none := by decide
  constructor
  · rintro ⟨families, hwritten, -⟩
    rw [hrow] at hwritten
    cases hwritten
  · rintro ⟨families, hwritten, -⟩
    rw [hcol] at hwritten
    cases hwritten

end Writing

end Grid

end Canvas

end RandomArt.BlendMxN
