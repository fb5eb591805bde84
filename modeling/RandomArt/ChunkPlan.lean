import RandomArt.DoubleArithmetic
import RandomArt.PaintingMessages
import RandomArt.WholeDoubles

/-!
# Dividing an image into chunks

The number of chunks comes from the pixels of the image, the rows of a chunk from
that number. The two roundings fit together only when the last chunk still has a
row left to start at. All numbers are doubles, so that rows above `2 ^ 53` are
rounded as well.
-/

namespace RandomArt.ChunkPlan

open SpanPartition Binary64 JsNumber

/-- `Math.max(1, Math.ceil(totalPixels / pixelsPerJob))` -/
def chunkCount (pixelsPerJob pixelWidth pixelHeight : ℕ) : JsNumber :=
  let totalPixels := mulDouble (.finite pixelWidth) (.finite pixelHeight)
  maxOf (.finite 1) (ceil (divDouble totalPixels (.finite pixelsPerJob)))

/-- Length of the array that is made for the jobs; none where making it throws. -/
def arrayLength : JsNumber → Option ℕ
  | .finite q => if q.den = 1 ∧ 0 ≤ q ∧ q < 2 ^ 32 then some q.num.toNat else none
  | _ => none

/-- `Math.ceil(pixelHeight / chunkCount)` -/
def rowsPerChunk (chunkCount pixelHeight : ℕ) : ℕ := ⌈nearest (pixelHeight / chunkCount)⌉₊

/-- The `ii`-th fragment. -/
def canvasFragment (chunkCount pixelHeight pixelSize ii : ℕ) : CanvasFragment :=
  let rowsPerChunk := rowsPerChunk chunkCount pixelHeight
  let firstRow := wholeDouble (ii * rowsPerChunk)
  { fragmentIndex := ii
    totalFragmentsCount := chunkCount
    fragmentFirstRow := firstRow.toNat
    fragmentLastRow :=
      min (wholeDouble (wholeDouble (firstRow + rowsPerChunk) - 1)) (wholeDouble (pixelHeight - 1))
    pixelSize }

def canvasFragments (chunkCount pixelHeight pixelSize : ℕ) : List CanvasFragment :=
  (List.range chunkCount).map (canvasFragment chunkCount pixelHeight pixelSize)

@[simp] theorem length_canvasFragments (chunkCount pixelHeight pixelSize : ℕ) :
    (canvasFragments chunkCount pixelHeight pixelSize).length = chunkCount := by
  simp [canvasFragments]

section Count

/-- The number of jobs by the product and the quotient as doubles. -/
def jobCount (pixelsPerJob pixelWidth pixelHeight : ℕ) : ℕ :=
  max 1 ⌈nearest (nearest (pixelWidth * pixelHeight) / pixelsPerJob)⌉₊

theorem arrayLength_natCast (count : ℕ) :
    arrayLength (.finite count) = if count < 2 ^ 32 then some count else none := by
  rw [arrayLength]
  by_cases hlength : count < 2 ^ 32
  · rw [if_pos hlength, if_pos ⟨Rat.den_natCast .., Nat.cast_nonneg _, by exact_mod_cast hlength⟩]
    rfl
  · rw [if_neg hlength, if_neg]
    rintro ⟨-, -, hlt⟩
    exact hlength (by exact_mod_cast hlt)

variable {pixelsPerJob pixelWidth pixelHeight : ℕ}

theorem jobCount_pos : 0 < jobCount pixelsPerJob pixelWidth pixelHeight :=
  Nat.one_pos.trans_le (le_max_left _ _)

/-- An array can hold the jobs when the number of pixels is finite and that of jobs small enough. -/
theorem arrayLength_chunkCount (hjob : 0 < pixelsPerJob) :
    arrayLength (chunkCount pixelsPerJob pixelWidth pixelHeight) =
      if ¬Overflows (pixelWidth * pixelHeight) ∧
        jobCount pixelsPerJob pixelWidth pixelHeight < 2 ^ 32
      then some (jobCount pixelsPerJob pixelWidth pixelHeight) else none := by
  have hne : (pixelsPerJob : ℚ) ≠ 0 := by exact_mod_cast hjob.ne'
  rw [chunkCount]
  by_cases hover : Overflows (pixelWidth * pixelHeight)
  · have hproduct : mulDouble (.finite pixelWidth) (.finite pixelHeight) = .infinity false := by
      rw [mulDouble, mul, toDouble, if_pos hover, decide_eq_false (not_lt.mpr (by positivity))]
    rw [if_neg (fun h => h.1 hover), hproduct]
    have hpositive := not_lt.mpr (Nat.cast_nonneg (α := ℚ) pixelsPerJob)
    simp [divDouble, div, toDouble, ceil, maxOf, arrayLength, hpositive]
  · have hproduct : mulDouble (.finite pixelWidth) (.finite pixelHeight) =
        .finite (nearest (pixelWidth * pixelHeight)) := by
      rw [mulDouble, mul, toDouble, if_neg hover]
    have hnonneg : 0 ≤ nearest ((pixelWidth : ℚ) * pixelHeight) := nearest_nonneg (by positivity)
    have hquotient :
        divDouble (.finite (nearest (pixelWidth * pixelHeight))) (.finite pixelsPerJob) =
          .finite (nearest (nearest (pixelWidth * pixelHeight) / pixelsPerJob)) := by
      refine (divDouble_eq_finite_iff hne).mpr ⟨_, rfl, rfl, fun hover' => hover ?_⟩
      refine hover'.trans ?_
      rw [abs_of_nonneg hnonneg]
      refine abs_nearest_le (nearest_nearest _) ?_
      rw [abs_of_nonneg (by positivity)]
      exact div_le_self hnonneg (by exact_mod_cast hjob)
    have hcount : max 1 (⌈nearest (nearest (pixelWidth * pixelHeight) / pixelsPerJob)⌉ : ℚ) =
        (jobCount pixelsPerJob pixelWidth pixelHeight : ℕ) := by
      rw [jobCount, Nat.cast_max, Nat.cast_one,
        natCast_ceil_eq_intCast_ceil (nearest_nonneg (by positivity))]
    rw [hproduct, hquotient, ceil, maxOf, hcount, arrayLength_natCast]
    simp only [hover, not_false_eq_true, true_and]

theorem arrayLength_chunkCount_zero (hw : 1 ≤ pixelWidth) (hh : 1 ≤ pixelHeight) :
    arrayLength (chunkCount 0 pixelWidth pixelHeight) = none := by
  have hpixels : (1 : ℚ) ≤ pixelWidth * pixelHeight := by
    exact_mod_cast Nat.mul_pos hw hh
  rw [chunkCount, mulDouble, mul, toDouble]
  split_ifs with hover
  · simp [divDouble, div, toDouble, ceil, maxOf, arrayLength,
      not_lt.mpr (zero_le_one.trans hpixels)]
  · have hone : 1 ≤ nearest ((pixelWidth : ℚ) * pixelHeight) :=
      le_nearest (by exact_mod_cast nearest_natCast_of_le (k := 1) (by decide)) hpixels
    simp [divDouble, div, toDouble, ceil, maxOf, arrayLength, not_lt.mpr (zero_le_one.trans hone),
      (zero_lt_one.trans_le hone).ne']

/-- Up to `2 ^ 53` pixels nothing is rounded. -/
theorem jobCount_of_le (hjob : 0 < pixelsPerJob) (h : pixelWidth * pixelHeight ≤ 2 ^ 53) :
    jobCount pixelsPerJob pixelWidth pixelHeight =
      max 1 ((pixelWidth * pixelHeight) ⌈/⌉ pixelsPerJob) := by
  have hproduct : nearest ((pixelWidth : ℚ) * pixelHeight) = (pixelWidth * pixelHeight : ℕ) := by
    exact_mod_cast nearest_natCast_of_le h
  rw [jobCount, hproduct]
  rcases le_or_gt pixelsPerJob (2 ^ 53) with hsmall | hlarge
  · rw [← Int.ceil_toNat, ceil_nearest_div h hjob hsmall, Int.toNat_natCast]
  · -- One job is enough, however the quotient is rounded.
    have hle : pixelWidth * pixelHeight ≤ pixelsPerJob := h.trans hlarge.le
    have hmost : nearest ((pixelWidth * pixelHeight : ℕ) / (pixelsPerJob : ℚ)) ≤ (1 : ℕ) := by
      refine nearest_le (nearest_natCast_of_le (by decide)) ?_
      rw [div_le_iff₀ (by exact_mod_cast hjob), Nat.cast_one, one_mul]
      exact_mod_cast hle
    rw [max_eq_left (Nat.ceil_le.mpr hmost),
      max_eq_left ((ceilDiv_le_iff_le_mul hjob).mpr (by rwa [mul_one]))]

end Count

section Rows

variable {count pixelHeight ii : ℕ} (pixelSize : ℕ)

theorem rowsPerChunk_of_le (hc : 0 < count) (hcount : count < 2 ^ 32) (hh : pixelHeight ≤ 2 ^ 53) :
    rowsPerChunk count pixelHeight = pixelHeight ⌈/⌉ count := by
  rw [rowsPerChunk, ← Int.ceil_toNat, ceil_nearest_div hh hc (by omega), Int.toNat_natCast]

/-- A fragment that starts in an image of at most `2 ^ 53` rows is cut off exactly. -/
theorem rows_canvasFragment (hh : pixelHeight ≤ 2 ^ 53)
    (hstart : ii * rowsPerChunk count pixelHeight < pixelHeight) :
    (canvasFragment count pixelHeight pixelSize ii).rows =
      cut (rowsPerChunk count pixelHeight) pixelHeight ii := by
  rw [canvasFragment, CanvasFragment.rows, cut]
  generalize rowsPerChunk count pixelHeight = r at hstart
  have hfirst : wholeDouble (ii * r) = (ii * r : ℕ) := by
    rw [← Nat.cast_mul]
    exact wholeDouble_of_le (abs_le.mpr (by omega))
  have hlast : wholeDouble ((pixelHeight : ℤ) - 1) = pixelHeight - 1 :=
    wholeDouble_of_le (abs_le.mpr (by omega))
  dsimp only
  rw [hfirst, hlast, Int.toNat_natCast, Span.mk.injEq]
  refine ⟨rfl, ?_⟩
  generalize ii * r = first at hstart
  rcases le_or_gt (first + r) (2 ^ 53) with hle | hgt
  · rw [wholeDouble_of_le (n := first + r) (abs_le.mpr (by omega)),
      wholeDouble_of_le (n := first + r - 1) (abs_le.mpr (by omega))]
    omega
  · -- Past `2 ^ 53` the end is rounded, but it stays past the image.
    have hend : 2 ^ 53 ≤ wholeDouble (first + r) :=
      le_wholeDouble (m := 2 ^ 53) (nearest_intCast_of_le (by decide)) (by omega)
    have hbelow : 2 ^ 53 - 1 ≤ wholeDouble (wholeDouble (first + r) - 1) :=
      le_wholeDouble (m := 2 ^ 53 - 1) (nearest_intCast_of_le (by decide)) (by omega)
    omega

/-- A fragment that does not start in the image has no rows. -/
theorem rows_canvasFragment_of_le (hh : pixelHeight ≤ 2 ^ 53)
    (hstart : pixelHeight ≤ ii * rowsPerChunk count pixelHeight) :
    (canvasFragment count pixelHeight pixelSize ii).rows.stop ≤
      (canvasFragment count pixelHeight pixelSize ii).rows.first := by
  rw [canvasFragment, CanvasFragment.rows]
  generalize rowsPerChunk count pixelHeight = r at hstart
  have hfirst : (pixelHeight : ℤ) ≤ wholeDouble (ii * r) :=
    le_wholeDouble (nearest_natCast_of_le hh) (by exact_mod_cast hstart)
  have hlast : wholeDouble ((pixelHeight : ℤ) - 1) = pixelHeight - 1 :=
    wholeDouble_of_le (abs_le.mpr (by omega))
  dsimp only
  omega

/-- Of an image of more than `2 ^ 53` rows no fragment has the last one. -/
theorem stop_ne_of_lt (hh : 2 ^ 53 < pixelHeight)
    (hdouble : nearest (pixelHeight : ℚ) = pixelHeight) :
    (canvasFragment count pixelHeight pixelSize ii).rows.stop ≠ pixelHeight := by
  intro hstop
  obtain ⟨n, hn⟩ : ∃ n, (canvasFragment count pixelHeight pixelSize ii).fragmentLastRow =
      wholeDouble n := (min_choice _ _).elim (fun h => ⟨_, h⟩) (fun h => ⟨_, h⟩)
  rw [CanvasFragment.rows, hn] at hstop
  dsimp only at hstop
  have hlast : wholeDouble n = pixelHeight - 1 := by omega
  have hheight : wholeDouble pixelHeight = pixelHeight := by
    rw [wholeDouble]
    exact_mod_cast congrArg Int.floor hdouble
  have heven := even_wholeDouble (n := n) (by omega)
  have heven' := even_wholeDouble (n := pixelHeight) (by omega)
  omega

end Rows

/-- The fragments are consecutive, non-empty row ranges of the image that cover each row
once, and as many as the gather job expects. -/
structure Tiles (pixelHeight expectedPartCount : ℕ) (fragments : List CanvasFragment) :
    Prop where
  consecutive : Chained 0 pixelHeight (fragments.map CanvasFragment.rows)
  disjoint : (fragments.map CanvasFragment.rows).Pairwise fun s t => s.stop ≤ t.first
  partition : IsPartition pixelHeight (fragments.map CanvasFragment.rows)
  expected : fragments.length = expectedPartCount

theorem tiles_of_chained {pixelHeight expectedPartCount : ℕ} {fragments : List CanvasFragment}
    (hc : Chained 0 pixelHeight (fragments.map CanvasFragment.rows))
    (hlen : fragments.length = expectedPartCount) :
    Tiles pixelHeight expectedPartCount fragments :=
  ⟨hc, hc.pairwise, hc.isPartition, hlen⟩

/-- The fragments tile an image of at most `2 ^ 53` rows exactly when the last one starts in it. -/
theorem tiles_canvasFragments_iff {count pixelHeight : ℕ} (pixelSize : ℕ) (hc : 0 < count)
    (hcount : count < 2 ^ 32) (hh : 0 < pixelHeight)
    (hdouble : nearest (pixelHeight : ℚ) = pixelHeight) :
    Tiles pixelHeight count (canvasFragments count pixelHeight pixelSize) ↔
      pixelHeight ≤ 2 ^ 53 ∧ (count - 1) * (pixelHeight ⌈/⌉ count) < pixelHeight := by
  have hmem : ∀ ii < count, (canvasFragment count pixelHeight pixelSize ii).rows ∈
      (canvasFragments count pixelHeight pixelSize).map CanvasFragment.rows := fun ii hii =>
    List.mem_map_of_mem (List.mem_map_of_mem (List.mem_range.mpr hii))
  constructor
  · intro htiles
    have hle : pixelHeight ≤ 2 ^ 53 := by
      by_contra hgt
      obtain ⟨rows, hrows, -, hlast⟩ := htiles.partition.exists_covers (y := pixelHeight - 1)
        (by omega)
      have hinside := htiles.partition.inside rows hrows
      rw [canvasFragments, List.map_map] at hrows
      obtain ⟨ii, -, rfl⟩ := List.mem_map.mp hrows
      exact stop_ne_of_lt pixelSize (not_le.mp hgt) hdouble
        (le_antisymm hinside (Nat.le_of_pred_lt hlast))
    refine ⟨hle, ?_⟩
    rw [← rowsPerChunk_of_le hc hcount hle]
    by_contra hstart
    have hempty := rows_canvasFragment_of_le pixelSize hle (not_lt.mp hstart)
    have hne := htiles.partition.nonempty _ (hmem (count - 1) (by omega))
    omega
  · rintro ⟨hle, hlast⟩
    have hcover : pixelHeight ≤ count * (pixelHeight ⌈/⌉ count) :=
      (ceilDiv_le_iff_le_mul hc).mp le_rfl
    have hr : 0 < pixelHeight ⌈/⌉ count := by
      rcases Nat.eq_zero_or_pos (pixelHeight ⌈/⌉ count) with h0 | hpos
      · rw [h0] at hcover
        omega
      · exact hpos
    have hcuts : (canvasFragments count pixelHeight pixelSize).map CanvasFragment.rows =
        (List.range count).map (cut (pixelHeight ⌈/⌉ count) pixelHeight) := by
      rw [canvasFragments, List.map_map]
      refine List.map_congr_left fun ii hii => ?_
      have hbefore : ii ≤ count - 1 := Nat.le_sub_one_of_lt (List.mem_range.mp hii)
      rw [Function.comp, rows_canvasFragment pixelSize hle, rowsPerChunk_of_le hc hcount hle]
      rw [rowsPerChunk_of_le hc hcount hle]
      exact (Nat.mul_le_mul_right _ hbefore).trans_lt hlast
    refine tiles_of_chained ?_ (length_canvasFragments _ _ _)
    rw [hcuts]
    exact chained_cuts hr hc hlast hcover

/-- The chunks of an image tile it exactly when it has no more rows than doubles can number, its
pixels are finitely many, an array can hold as many jobs as they ask for, and this number leaves
the last chunk a row to start at. -/
theorem chunks_tile_iff (pixelsPerJob pixelWidth pixelHeight pixelSize : ℕ)
    (hw : 1 ≤ pixelWidth) (hh : 1 ≤ pixelHeight) (hjob : pixelWidth ≤ pixelsPerJob)
    (hdouble : nearest (pixelHeight : ℚ) = pixelHeight) :
    (∃ expectedPartCount,
      arrayLength (chunkCount pixelsPerJob pixelWidth pixelHeight) = some expectedPartCount ∧
      Tiles pixelHeight expectedPartCount
        (canvasFragments expectedPartCount pixelHeight pixelSize)) ↔
      pixelHeight ≤ 2 ^ 53 ∧ ¬Overflows (pixelWidth * pixelHeight) ∧
      jobCount pixelsPerJob pixelWidth pixelHeight < 2 ^ 32 ∧
      (jobCount pixelsPerJob pixelWidth pixelHeight - 1) *
        (pixelHeight ⌈/⌉ jobCount pixelsPerJob pixelWidth pixelHeight) < pixelHeight := by
  rw [arrayLength_chunkCount (hw.trans hjob)]
  constructor
  · rintro ⟨expectedPartCount, hexpected, htiles⟩
    split_ifs at hexpected with hlength
    cases hexpected
    obtain ⟨hrows, hlast⟩ := (tiles_canvasFragments_iff pixelSize jobCount_pos
      hlength.2 hh hdouble).mp htiles
    exact ⟨hrows, hlength.1, hlength.2, hlast⟩
  · rintro ⟨hrows, hfinite, hlength, hlast⟩
    exact ⟨_, if_pos ⟨hfinite, hlength⟩,
      (tiles_canvasFragments_iff pixelSize jobCount_pos hlength hh hdouble).mpr ⟨hrows, hlast⟩⟩

/-- Ten rows of two pixels, with at most four pixels to a job. -/
theorem chunks_tile_five : ∃ expectedPartCount,
    arrayLength (chunkCount 4 2 10) = some expectedPartCount ∧
    Tiles 10 expectedPartCount (canvasFragments expectedPartCount 10 1) :=
  (chunks_tile_iff 4 2 10 1 (by decide) (by decide) (by decide)
    (nearest_natCast_of_le (by decide))).mpr (by
      rw [jobCount_of_le (by decide) (by decide)]
      decide +kernel)

/-- With at most three pixels to a job there are seven chunks of two rows, of which the
last two lie outside the image. With one pixel to a job, `2 ^ 32` rows of one pixel are more
chunks than an array has room for. -/
theorem chunks_overrun :
    arrayLength (chunkCount 3 2 10) = some 7 ∧ ¬Tiles 10 7 (canvasFragments 7 10 1) ∧
      (canvasFragments 7 10 1).map (fun f => (f.fragmentFirstRow, f.fragmentLastRow)) =
        [(0, 1), (2, 3), (4, 5), (6, 7), (8, 9), (10, 9), (12, 9)] ∧
      arrayLength (chunkCount 1 1 (2 ^ 32)) = none := by
  have hrows : (canvasFragments 7 10 1).map CanvasFragment.rows =
      [⟨0, 2⟩, ⟨2, 4⟩, ⟨4, 6⟩, ⟨6, 8⟩, ⟨8, 10⟩, ⟨10, 10⟩, ⟨12, 10⟩] := by decide +kernel
  refine ⟨by decide +kernel, fun htiles => ?_, by decide +kernel, by decide +kernel⟩
  have hne := htiles.partition.nonempty
  rw [hrows] at hne
  exact absurd (hne ⟨12, 10⟩ (by decide)) (by decide)

end RandomArt.ChunkPlan
