import RandomArt.GatheringWorker

/-!
# Scatter, paint, gather

Painting the ranges of a partition of the rows one by one, and gathering the parts
in the order they happen to arrive, gives the bytes of painting the whole image.
-/

namespace RandomArt.ScatterGather

open GenModelArtist PixelData PaintTaskEngine GatheringWorker SliceWrites SpanPartition

variable {Obj Coord : Type} (genModel : GenModel Coord) (regionMap : RegionMap Coord)

/-- A part that holds the bytes of its rows. -/
def IsPainted (part : PartialPaintResult) : Prop :=
  part.pixelDataString =
    fromPixelsData (paintedPixels genModel regionMap part.canvasFragment.rows)

/-- Where the bytes of a range of rows belong in the image. -/
def rowSlice (rows : Span) : Slice UInt8 :=
  (rows.first * regionMap.pixelWidth * 4, paintedBytes genModel regionMap rows.first rows.stop)

def wholeImage : List UInt8 := paintedBytes genModel regionMap 0 regionMap.pixelHeight

@[simp] theorem length_wholeImage : (wholeImage genModel regionMap).length =
    regionMap.pixelWidth * regionMap.pixelHeight * 4 := by
  rw [wholeImage, length_paintedBytes, Nat.min_self, Nat.sub_zero, Nat.mul_comm]

private theorem length_rowSlice {rows : Span} (hinside : rows.stop ≤ regionMap.pixelHeight) :
    (rowSlice genModel regionMap rows).2.length =
      4 * (regionMap.pixelWidth * (rows.stop - rows.first)) := by
  rw [rowSlice, length_paintedBytes, Nat.min_eq_left hinside]

private theorem sliceOf_append {α : Type} (pre s post : List α) :
    SliceOf (pre ++ s ++ post) (pre.length, s) := by
  refine ⟨by simp, fun i hi => ?_⟩
  rw [List.append_assoc, List.getElem?_append_right (by omega), Nat.add_sub_cancel_left,
    List.getElem?_append_left hi]

theorem sliceOf_rowSlice {rows : Span} (hrows : rows.first < rows.stop)
    (hinside : rows.stop ≤ regionMap.pixelHeight) :
    SliceOf (wholeImage genModel regionMap) (rowSlice genModel regionMap rows) := by
  have hpre := paintedBytes_append genModel regionMap (Nat.zero_le rows.first) hrows.le
    (hrows.le.trans hinside)
  have hpost := paintedBytes_append genModel regionMap (Nat.zero_le rows.stop) hinside hinside
  have hoffset : (paintedBytes genModel regionMap 0 rows.first).length =
      rows.first * regionMap.pixelWidth * 4 := by
    rw [length_paintedBytes, Nat.min_eq_left (hrows.le.trans hinside), Nat.sub_zero]
    ring
  have hslice := sliceOf_append (paintedBytes genModel regionMap 0 rows.first)
    (paintedBytes genModel regionMap rows.first rows.stop)
    (paintedBytes genModel regionMap rows.stop regionMap.pixelHeight)
  rwa [hpre, hpost, hoffset] at hslice

/-- Every byte of the image belongs to the row of its pixel. -/
theorem rowSlice_reaches {rows : Span} (hinside : rows.stop ≤ regionMap.pixelHeight) {i : ℕ}
    (hfirst : rows.first ≤ i / (4 * regionMap.pixelWidth))
    (hstop : i / (4 * regionMap.pixelWidth) < rows.stop) (hw : 0 < regionMap.pixelWidth) :
    reaches (rowSlice genModel regionMap rows) i := by
  have hlow : rows.first * (4 * regionMap.pixelWidth) ≤ i :=
    (Nat.le_div_iff_mul_le (by omega)).mp hfirst
  have hhigh : i < rows.stop * (4 * regionMap.pixelWidth) :=
    (Nat.div_lt_iff_lt_mul (by omega)).mp hstop
  have hsum : rows.first * regionMap.pixelWidth * 4 +
      4 * (regionMap.pixelWidth * (rows.stop - rows.first)) =
      rows.stop * (4 * regionMap.pixelWidth) := by
    obtain ⟨n, hn⟩ := Nat.exists_eq_add_of_lt (lt_of_le_of_lt hfirst hstop)
    rw [hn, show rows.first + n + 1 - rows.first = n + 1 by omega]
    ring
  refine ⟨?_, ?_⟩
  · simp only [rowSlice]
    linarith
  · rw [length_rowSlice genModel regionMap hinside]
    simp only [rowSlice]
    omega

theorem mergePart_painted {part : PartialPaintResult} (hpart : IsPainted genModel regionMap part)
    (dest : List UInt8) :
    mergePart dest part =
      match writeSlice dest (rowSlice genModel regionMap part.canvasFragment.rows).1
        (rowSlice genModel regionMap part.canvasFragment.rows).2 with
      | none => .error (.offsetOutOfBounds : GatherFailure Obj)
      | some written => .ok written := by
  have hoffset : ((part.canvasFragment.fragmentFirstRow : ℤ) * regionMap.pixelWidth * 4) =
      ((part.canvasFragment.rows.first * regionMap.pixelWidth * 4 : ℕ) : ℤ) := by
    push_cast
    rfl
  unfold mergePart
  rw [hpart, paintedPixels, toPixelsData_fromPixelsData]
  simp only [Option.getD_some, hoffset, Int.toNat_natCast, rowSlice]
  exact if_neg (not_lt.mpr (Int.natCast_nonneg _))

private theorem foldlM_mergePart {parts : List PartialPaintResult}
    (hparts : ∀ part ∈ parts, IsPainted genModel regionMap part) {dest out : List UInt8}
    (h : (parts.map fun part => rowSlice genModel regionMap part.canvasFragment.rows).foldlM
      (fun d s => writeSlice d s.1 s.2) dest = some out) :
    parts.foldlM mergePart dest = (.ok out : Except (GatherFailure Obj) (List UInt8)) := by
  induction parts generalizing dest with
  | nil =>
    cases h
    rfl
  | cons part parts ih =>
    rw [List.foldlM_cons, mergePart_painted genModel regionMap (hparts part List.mem_cons_self)]
    rw [List.map_cons, List.foldlM_cons] at h
    cases hwrite : writeSlice dest (rowSlice genModel regionMap part.canvasFragment.rows).1
        (rowSlice genModel regionMap part.canvasFragment.rows).2 with
    | none =>
      rw [hwrite] at h
      cases h
    | some written =>
      rw [hwrite] at h
      exact ih (fun p hp => hparts p (List.mem_cons_of_mem _ hp)) h

/-- Painted parts over a partition of the rows rebuild the whole image in any order. -/
theorem gather_painted {parts : List PartialPaintResult}
    (hparts : ∀ part ∈ parts, IsPainted genModel regionMap part)
    (hpartition : IsPartition regionMap.pixelHeight (parts.map (·.canvasFragment.rows)))
    {dest : List UInt8} (hdest : dest.length = regionMap.pixelWidth * regionMap.pixelHeight * 4) :
    parts.foldlM mergePart dest =
      (.ok (wholeImage genModel regionMap) : Except (GatherFailure Obj) (List UInt8)) := by
  refine foldlM_mergePart genModel regionMap hparts (foldlM_writeSlice_eq ?_ ?_ ?_)
  · rw [hdest, length_wholeImage]
  · intro s hs
    obtain ⟨part, hpart, rfl⟩ := List.mem_map.mp hs
    have hmem : part.canvasFragment.rows ∈ parts.map (·.canvasFragment.rows) :=
      List.mem_map_of_mem hpart
    exact sliceOf_rowSlice genModel regionMap (hpartition.nonempty _ hmem)
      (hpartition.inside _ hmem)
  · intro i hi
    rw [length_wholeImage] at hi
    have hw : 0 < regionMap.pixelWidth := by
      rcases Nat.eq_zero_or_pos regionMap.pixelWidth with h0 | hpos
      · rw [h0] at hi
        omega
      · exact hpos
    have hrow : i / (4 * regionMap.pixelWidth) < regionMap.pixelHeight := by
      refine (Nat.div_lt_iff_lt_mul (by omega)).mpr ?_
      linarith
    obtain ⟨rows, hmem, hfirst, hstop⟩ := hpartition.exists_covers hrow
    have hinside := hpartition.inside rows hmem
    obtain ⟨part, hpart, rfl⟩ := List.mem_map.mp hmem
    exact ⟨_, List.mem_map_of_mem hpart,
      rowSlice_reaches genModel regionMap hinside hfirst hstop hw⟩

/-- The part that a paint task results in. -/
def paintedPart (task : PartialPaintRequest) : PartialPaintResult where
  taskId := task.taskId
  projectId := task.projectId
  canvasFragment := task.canvasFragment
  pixelDataString := fromPixelsData (paintedPixels genModel regionMap task.canvasFragment.rows)

/-- Painting every range of a partition succeeds as far as the size check lets it. -/
theorem mapM_performPaintTask (hsize : regionMap.pixelSize = 1) {tasks : List PartialPaintRequest}
    (hrows : ∀ task ∈ tasks, task.canvasFragment.rows.first < task.canvasFragment.rows.stop)
    (hinside : ∀ task ∈ tasks, task.canvasFragment.rows.stop ≤ regionMap.pixelHeight) :
    tasks.mapM (performPaintTask (engineOf genModel regionMap) noSizeCheck) =
      .ok (tasks.map (paintedPart genModel regionMap)) := by
  induction tasks with
  | nil => rfl
  | cons task tasks ih =>
    have htask := performPaintTask_engineOf genModel regionMap hsize noSizeCheck
      (hrows task List.mem_cons_self) (hinside task List.mem_cons_self)
    have hrest := ih (fun t ht => hrows t (List.mem_cons_of_mem _ ht))
      (fun t ht => hinside t (List.mem_cons_of_mem _ ht))
    rw [List.mapM_cons, htask, hrest]
    rfl

/-- Scattering, painting and gathering fills the image with the colours of its pixels,
whatever the partition and the order of arrival. -/
theorem scatter_paint_gather (hsize : regionMap.pixelSize = 1) (hmap : regionMap.Consistent)
    (tasks : List PartialPaintRequest)
    (hpartition : IsPartition regionMap.pixelHeight (tasks.map (·.canvasFragment.rows))) :
    ∃ parts, tasks.mapM (performPaintTask (engineOf genModel regionMap) noSizeCheck) = .ok parts ∧
      (∀ (arrived : List PartialPaintResult) (dest : List UInt8), arrived.Perm parts →
        dest.length = regionMap.pixelWidth * regionMap.pixelHeight * 4 →
        arrived.foldlM mergePart dest =
          (.ok (wholeImage genModel regionMap) : Except (GatherFailure Obj) (List UInt8))) ∧
      wholeImage genModel regionMap = (regionMap.plotCalls 0 regionMap.pixelHeight).flatMap
        fun c => rgbaBytes (genModel.computePixel c.1 c.2) := by
  have hmem : ∀ task ∈ tasks, task.canvasFragment.rows ∈ tasks.map (·.canvasFragment.rows) :=
    fun task htask => List.mem_map_of_mem htask
  refine ⟨tasks.map (paintedPart genModel regionMap),
    mapM_performPaintTask genModel regionMap hsize
      (fun task htask => hpartition.nonempty _ (hmem task htask))
      (fun task htask => hpartition.inside _ (hmem task htask)), ?_,
    paintedBytes_eq_rgba genModel regionMap hmap 0 _⟩
  intro arrived dest harrived hdest
  refine gather_painted genModel regionMap ?_ ?_ hdest
  · intro part hpart
    obtain ⟨task, -, rfl⟩ := List.mem_map.mp (harrived.mem_iff.mp hpart)
    rfl
  · refine hpartition.perm ?_
    have hrows := harrived.map fun part : PartialPaintResult => part.canvasFragment.rows
    rwa [List.map_map] at hrows

def gradientModel : GenModel ℕ where
  computePixel x y := ((x.getD 0 % 256 : ℕ), (y.getD 0 % 256 : ℕ), 7)
  inByte x y := by
    have hx := Nat.mod_lt x (show 0 < 256 by decide)
    have hy := Nat.mod_lt y (show 0 < 256 by decide)
    simp only [Rgb.InByte, Option.getD_some]
    omega

def gradientMap (pixelWidth pixelHeight : ℕ) : RegionMap ℕ where
  pixelHeight
  pixelWidth
  pixelSize := 1
  columnOrderedXCoordinates := List.range pixelWidth
  columnOrderedYCoordinates := List.range pixelHeight
  isUniform := true
  regionBoundary := ⟨1, 0, 0, 1⟩

def rowTask (firstRow : ℕ) (lastRow : ℤ) : PartialPaintRequest where
  taskId := "task"
  projectId := none
  genSeed := ⟨.text "", .text ""⟩
  plotDataRef := ⟨none, "cid", true⟩
  canvasFragment := ⟨0, 2, firstRow, lastRow, 1⟩

theorem scatter_paint_gather_gradient :
    ∃ parts, [rowTask 0 0, rowTask 1 1].mapM
        (performPaintTask (engineOf gradientModel (gradientMap 2 2)) noSizeCheck) = .ok parts ∧
      parts.reverse.foldlM mergePart (List.replicate 16 0) =
        (.ok [0, 0, 7, 255, 1, 0, 7, 255, 0, 1, 7, 255, 1, 1, 7, 255] :
          Except (GatherFailure ℕ) (List UInt8)) := by
  obtain ⟨parts, hparts, hgather, -⟩ := scatter_paint_gather gradientModel (gradientMap 2 2)
    rfl (by decide) [rowTask 0 0, rowTask 1 1]
    ⟨by decide, by decide, by decide⟩
  refine ⟨parts, hparts, ?_⟩
  exact hgather parts.reverse (List.replicate 16 0) parts.reverse_perm (by decide)

theorem sizeCheck_paintedPixels {rows : Span} (hinside : rows.stop ≤ regionMap.pixelHeight) :
    sizeCheck (paintedPixels genModel regionMap rows) =
      .error (.incorrectDataSize (some regionMap.pixelWidth) (some (rows.stop - rows.first : ℕ))
        (4 * (regionMap.pixelWidth * (rows.stop - rows.first)))) := by
  have hlen : (paintedBytes genModel regionMap rows.first rows.stop).length =
      4 * (regionMap.pixelWidth * (rows.stop - rows.first)) := by
    rw [length_paintedBytes, Nat.min_eq_left hinside]
  have hexpected : ((4 * (regionMap.pixelWidth * (rows.stop - rows.first)) : ℕ) : ℤ) =
      4 * ((rows.stop - rows.first : ℕ) : ℤ) * regionMap.pixelWidth := by
    push_cast
    ring
  simp [sizeCheck, assertPixelsData, paintedPixels, checkWidthHeight, expectedLength, hlen,
    hexpected]

/-- The whole image has the size it should have, which the size check takes for an error. -/
theorem sizeCheck_wholeImage :
    sizeCheck ⟨wholeImage genModel regionMap, some regionMap.pixelWidth,
      some regionMap.pixelHeight⟩ =
      .error (.incorrectDataSize (some regionMap.pixelWidth) (some regionMap.pixelHeight)
        (regionMap.pixelWidth * regionMap.pixelHeight * 4)) := by
  have hexpected : ((regionMap.pixelWidth * regionMap.pixelHeight * 4 : ℕ) : ℤ) =
      4 * (regionMap.pixelHeight : ℤ) * regionMap.pixelWidth := by
    push_cast
    ring
  simp only [sizeCheck, assertPixelsData, checkWidthHeight, expectedLength, length_wholeImage,
    hexpected, Option.map_some, Option.bind_some]
  simp

/-- No well-formed paint request is painted, no image assembled from painted parts is
accepted, and no wrongly sized buffer is refused. -/
theorem paint_requests_never_met :
    (∀ (genModel : GenModel Coord) (regionMap : RegionMap Coord), regionMap.pixelSize = 1 →
      regionMap.Consistent → ∀ task : PartialPaintRequest,
      task.canvasFragment.rows.first < task.canvasFragment.rows.stop →
      task.canvasFragment.rows.stop ≤ regionMap.pixelHeight →
      ¬∃ part, performPaintTask (engineOf genModel regionMap) sizeCheck task = .ok part) ∧
    (∀ (genModel : GenModel Coord) (regionMap : RegionMap Coord)
      (worker : GatheringWorker.Worker Obj) (taskId : String) (childData : List (Child Obj))
      (parts : List PartialPaintResult),
      childData.mapM (childPart worker.runtime worker.partOf taskId) = .ok parts →
      (∀ part ∈ parts, IsPainted genModel regionMap part) →
      IsPartition regionMap.pixelHeight (parts.map (·.canvasFragment.rows)) →
      ¬∃ image, assembleImage worker sizeCheck taskId regionMap.pixelWidth
        regionMap.pixelHeight childData = .ok image) ∧
    (∀ pixelsData : RawPixelData, some (pixelsData.data.length : ℤ) ≠ expectedLength pixelsData →
      sizeCheck pixelsData = .ok ()) := by
  refine ⟨?_, ?_, ?_⟩
  · rintro genModel regionMap hsize - task hrows hinside ⟨part, hpart⟩
    rw [performPaintTask_engineOf genModel regionMap hsize sizeCheck hrows hinside,
      sizeCheck_paintedPixels genModel regionMap hinside] at hpart
    cases hpart
  · rintro genModel regionMap worker taskId childData parts hdecode hparts hpartition
      ⟨image, himage⟩
    rw [assembleImage] at himage
    split at himage
    · cases himage
    · obtain ⟨data, hdata, himage⟩ := FallibleFold.exists_of_bind_eq_ok himage
      have hgather : .ok data = Except.ok (wholeImage genModel regionMap) :=
        (foldlM_of_gatherNext hdata).symm.trans ((foldlM_gatherChildPart hdecode _).trans
          (gather_painted genModel regionMap hparts hpartition List.length_replicate))
      cases hgather
      simp only [bind, Except.bind, sizeCheck_wholeImage, Except.mapError] at himage
      cases himage
  · intro pixelsData hsize
    simp [sizeCheck, assertPixelsData, checkWidthHeight, hsize]

theorem paint_requests_never_met_pixel :
    ¬∃ part, performPaintTask (engineOf gradientModel (gradientMap 1 1)) sizeCheck
      (rowTask 0 0) = .ok part :=
  (@paint_requests_never_met ℕ ℕ).1 gradientModel (gradientMap 1 1) rfl (by decide)
    (rowTask 0 0) (by decide) (by decide)

/-- The one pixel is refused for its four bytes, while an empty buffer is let through. -/
theorem pixel_refused_empty_buffer_accepted :
    performPaintTask (engineOf gradientModel (gradientMap 1 1)) sizeCheck (rowTask 0 0) =
      .error (.pixels (.incorrectDataSize (some 1) (some 1) 4)) ∧
    sizeCheck ⟨[], some 1, some 1⟩ = .ok () := by
  constructor <;> rfl

end RandomArt.ScatterGather
