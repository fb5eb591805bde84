import RandomArt.PaintTaskEngine

/-!
# Painting on a local canvas

The local service paints with the same artist as the queue, but stores each pixel word as one byte
of its image data. A word is never below the largest byte, so every pixel fills one byte, and three
quarters of the image data are left as the canvas had them.
-/

namespace RandomArt.TicketArtService

open GenModelArtist PaintTaskEngine

/-- What drawing an image throws: the errors of the canvas, of the artist and of the array. -/
inductive DrawFailure where
  | canvas (message : String)
  | unsupportedPixelSize (pixelSize : ℕ)
  | iterationMismatch (mismatch : IterationMismatch)
  | offsetOutOfBounds
  deriving DecidableEq

/-- The bytes of the image data that a new canvas of the given width and height has. -/
abbrev GetImageData := ℕ → ℕ → Except String (List UInt8)

/-- A number as an element of an array of clamped bytes. -/
def clampedByte (word : BitVec 32) : UInt8 := UInt8.ofNat (min word.toNat 255)

/-- Copy the elements of an array of words to the start of an array of clamped bytes. -/
def setElements (target : List UInt8) (source : List (BitVec 32)) :
    Except DrawFailure (List UInt8) :=
  if target.length < source.length then .error .offsetOutOfBounds
  else .ok (source.map clampedByte ++ target.drop source.length)

variable {Coord : Type}

/-- The bytes that are put onto the canvas. Writing them to a file is left out. -/
def doOne (getImageData : GetImageData) (genModel : GenModel Coord) (regionMap : RegionMap Coord) :
    Except DrawFailure (List UInt8) := do
  let pixelData := List.replicate (regionMap.pixelHeight * regionMap.pixelWidth) 0
  if regionMap.pixelSize ≠ 1 then throw (.unsupportedPixelSize regionMap.pixelSize)
  let painted ← (regionMap.directPlotter
    (artist genModel regionMap.pixelWidth 0 regionMap.pixelHeight) ⟨pixelData, 0⟩ 0
    regionMap.pixelHeight).mapError .iterationMismatch
  let imageData ← (getImageData regionMap.pixelWidth regionMap.pixelHeight).mapError .canvas
  setElements imageData painted.pixelData

section Words

theorem clampedByte_pixelWord (rgb : Rgb) : clampedByte (pixelWord rgb) = 255 := by
  have hopaque : 255 ≤ (pixelWord rgb).toNat := by
    simp only [pixelWord, BitVec.toNat_or]
    calc 255 ≤ ALPHA_OPAQUE.toNat := by decide
      _ ≤ _ := Nat.left_le_or
      _ ≤ _ := Nat.left_le_or
      _ ≤ _ := Nat.left_le_or
  rw [clampedByte, Nat.min_eq_right hopaque]
  rfl

theorem setElements_wordsOf (genModel : GenModel Coord) (calls : List (Option Coord × Option Coord))
    {target : List UInt8} (h : calls.length ≤ target.length) :
    setElements target (wordsOf genModel calls) =
      .ok (List.replicate calls.length 255 ++ target.drop calls.length) := by
  have hwords : (wordsOf genModel calls).map clampedByte = List.replicate calls.length 255 := by
    rw [wordsOf, List.map_map, List.eq_replicate_iff, List.length_map]
    refine ⟨rfl, fun b hb => ?_⟩
    obtain ⟨c, -, rfl⟩ := List.mem_map.mp hb
    exact clampedByte_pixelWord _
  rw [setElements, length_wordsOf, if_neg (not_lt.mpr h), hwords]

theorem getElem?_replicate_append_drop {α : Type} (a : α) (n : ℕ) (target : List α) (i : ℕ) :
    (List.replicate n a ++ target.drop n)[i]? = if i < n then some a else target[i]? := by
  split_ifs with hi
  · rw [List.getElem?_append_left (by rwa [List.length_replicate]), List.getElem?_replicate,
      if_pos hi]
  · rw [List.getElem?_append_right (by rw [List.length_replicate]; omega), List.length_replicate,
      List.getElem?_drop, Nat.add_sub_of_le (Nat.le_of_not_lt hi)]

end Words

section Agreement

variable (genModel : GenModel Coord) (regionMap : RegionMap Coord)

/-- All rows of the image as one fragment. -/
def wholeFragment : CanvasFragment where
  fragmentIndex := 0
  totalFragmentsCount := 1
  fragmentFirstRow := 0
  fragmentLastRow := (regionMap.pixelHeight : ℤ) - 1
  pixelSize := regionMap.pixelSize

/-- Both services paint, and the bytes put onto the local canvas are those that a paint task builds
for the whole image, before it checks their number. -/
def PaintsAlike (getImageData : GetImageData) : Prop :=
  ∃ bytes pixels, doOne getImageData genModel regionMap = .ok bytes ∧
    paintFragment genModel regionMap (wholeFragment regionMap) = .ok pixels ∧ bytes = pixels.data

def channels : List UInt8 :=
  (regionMap.plotCalls 0 regionMap.pixelHeight).flatMap fun c =>
    rgbaBytes (genModel.computePixel c.1 c.2)

theorem length_calls : (regionMap.plotCalls 0 regionMap.pixelHeight).length =
    regionMap.pixelWidth * regionMap.pixelHeight := by
  rw [regionMap.length_plotCalls, Nat.min_self, Nat.sub_zero]

variable {genModel regionMap}

theorem paintFragment_whole (hsize : regionMap.pixelSize = 1) (hmap : regionMap.Consistent) :
    ∃ pixels, paintFragment genModel regionMap (wholeFragment regionMap) = .ok pixels ∧
      pixels.data = channels genModel regionMap := by
  have hfinal : min (regionMap.pixelHeight : ℤ) ((regionMap.pixelHeight : ℤ) - 1 + 1) =
      regionMap.pixelHeight := by omega
  have hcount : ((regionMap.pixelHeight : ℤ) - (0 : ℕ)) * regionMap.pixelWidth * (1 : ℕ) =
      ((regionMap.pixelWidth * (regionMap.pixelHeight - 0) : ℕ) : ℤ) := by
    rw [Nat.sub_zero]
    push_cast
    ring
  have hpainted := directPlotter_artist genModel regionMap (Nat.zero_le _) le_rfl
  refine ⟨⟨paintedBytes genModel regionMap 0 regionMap.pixelHeight, some regionMap.pixelWidth,
    some ((regionMap.pixelHeight : ℤ) - (0 : ℕ))⟩, ?_,
    paintedBytes_eq_rgba genModel regionMap hmap 0 regionMap.pixelHeight⟩
  rw [paintFragment]
  simp only [wholeFragment, hsize, Nat.div_one, hfinal, hcount, Int.toNat_natCast, hpainted]
  rw [if_neg (not_lt.mpr (Int.natCast_nonneg _)), if_neg (by simp)]
  rfl

theorem doOne_eq (hsize : regionMap.pixelSize = 1) (getImageData : GetImageData) :
    doOne getImageData genModel regionMap =
      ((getImageData regionMap.pixelWidth regionMap.pixelHeight).mapError .canvas).bind
        fun imageData => setElements imageData
          (wordsOf genModel (regionMap.plotCalls 0 regionMap.pixelHeight)) := by
  have hpainted := directPlotter_artist genModel regionMap (Nat.zero_le _) le_rfl
  rw [Nat.sub_zero, Nat.mul_comm] at hpainted
  rw [Nat.cast_zero] at hpainted
  simp only [doOne, hsize, ne_eq, not_true_eq_false, if_false, hpainted]
  rfl

theorem doOne_of_ok (hsize : regionMap.pixelSize = 1) {getImageData : GetImageData}
    {imageData : List UInt8}
    (hget : getImageData regionMap.pixelWidth regionMap.pixelHeight = .ok imageData)
    (hlength : imageData.length = 4 * (regionMap.pixelWidth * regionMap.pixelHeight)) :
    doOne getImageData genModel regionMap =
      .ok (List.replicate (regionMap.pixelWidth * regionMap.pixelHeight) 255 ++
        imageData.drop (regionMap.pixelWidth * regionMap.pixelHeight)) := by
  have hcalls := length_calls regionMap
  have hroom : (regionMap.plotCalls 0 regionMap.pixelHeight).length ≤ imageData.length := by omega
  have hset := setElements_wordsOf genModel (regionMap.plotCalls 0 regionMap.pixelHeight) hroom
  rw [hcalls] at hset
  rw [doOne_eq hsize, hget]
  exact hset

/-- The two agree exactly when the first quarter of the channels is as bright as can be and the
others are what the image data held before. -/
theorem paintsAlike_iff {getImageData : GetImageData}
    (hlength : ∀ width height imageData, getImageData width height = .ok imageData →
      imageData.length = 4 * (width * height))
    (hsize : regionMap.pixelSize = 1) (hmap : regionMap.Consistent) :
    PaintsAlike genModel regionMap getImageData ↔
      ∃ imageData, getImageData regionMap.pixelWidth regionMap.pixelHeight = .ok imageData ∧
        ∀ i, (channels genModel regionMap)[i]? =
          if i < regionMap.pixelWidth * regionMap.pixelHeight then some 255 else imageData[i]? := by
  obtain ⟨pixels, hpixels, hdata⟩ := @paintFragment_whole _ genModel _ hsize hmap
  constructor
  · rintro ⟨bytes, pixels', hdrawn, hpainted, rfl⟩
    rw [hpixels, Except.ok.injEq] at hpainted
    subst hpainted
    cases hget : getImageData regionMap.pixelWidth regionMap.pixelHeight with
    | error message =>
      rw [doOne_eq hsize, hget] at hdrawn
      cases hdrawn
    | ok imageData =>
      rw [doOne_of_ok hsize hget (hlength _ _ _ hget), Except.ok.injEq] at hdrawn
      refine ⟨imageData, rfl, fun i => ?_⟩
      rw [← hdata, ← hdrawn, getElem?_replicate_append_drop]
  · rintro ⟨imageData, hget, hchannels⟩
    refine ⟨_, pixels, doOne_of_ok hsize hget (hlength _ _ _ hget), hpixels, ?_⟩
    apply List.ext_getElem?
    intro i
    rw [hdata, hchannels, getElem?_replicate_append_drop]

/-- The image data of a canvas without transparency, which is black at first. -/
def blackCanvas : GetImageData := fun width height =>
  .ok (List.replicate (width * height) [0, 0, 0, 255]).flatten

theorem length_blackCanvas (width height : ℕ) (imageData : List UInt8)
    (h : blackCanvas width height = .ok imageData) : imageData.length = 4 * (width * height) := by
  rw [blackCanvas, Except.ok.injEq] at h
  rw [← h, List.length_flatten, List.map_replicate, List.sum_replicate_nat, Nat.mul_comm]
  rfl

def fourPixels : RegionMap ℚ where
  pixelHeight := 2
  pixelWidth := 2
  pixelSize := 1
  columnOrderedXCoordinates := [0, 1]
  columnOrderedYCoordinates := [0, 1]
  isUniform := true
  regionBoundary := ⟨1, 0, 0, 1⟩

def cornerModel : GenModel ℚ where
  computePixel x y := if x = some 0 ∧ y = some 0 then (255, 255, 255) else (0, 0, 0)
  inByte x y := by
    split <;> exact ⟨⟨by decide, by decide⟩, ⟨by decide, by decide⟩, ⟨by decide, by decide⟩⟩

/-- The corner has as many channels as there are pixels. -/
theorem paintsAlike_corner : PaintsAlike cornerModel fourPixels blackCanvas := by
  refine (paintsAlike_iff length_blackCanvas rfl (by decide)).mpr ⟨_, rfl, fun i => ?_⟩
  have hchannels : channels cornerModel fourPixels = List.replicate 4 255 ++
      (List.replicate 4 [0, 0, 0, 255]).flatten.drop 4 := by decide
  rw [hchannels, getElem?_replicate_append_drop]
  rfl

def onePixel : RegionMap ℚ where
  pixelHeight := 1
  pixelWidth := 1
  pixelSize := 1
  columnOrderedXCoordinates := [0]
  columnOrderedYCoordinates := [0]
  isUniform := true
  regionBoundary := ⟨1, 0, 0, 1⟩

def blackModel : GenModel ℚ where
  computePixel _ _ := (0, 0, 0)
  inByte _ _ := ⟨⟨by decide, by decide⟩, ⟨by decide, by decide⟩, ⟨by decide, by decide⟩⟩

/-- A black pixel is put onto the canvas in red. -/
theorem black_not_paintsAlike : onePixel.pixelSize = 1 ∧ onePixel.Consistent ∧
    ¬PaintsAlike blackModel onePixel blackCanvas := by
  refine ⟨rfl, by decide, ?_⟩
  rintro ⟨bytes, pixels, hdrawn, hpainted, rfl⟩
  obtain ⟨pixels', hpixels, hdata⟩ := @paintFragment_whole _ blackModel onePixel rfl (by decide)
  rw [hpixels, Except.ok.injEq] at hpainted
  subst hpainted
  have hfirst : doOne blackCanvas blackModel onePixel = .ok [255, 0, 0, 255] :=
    @doOne_of_ok _ blackModel onePixel rfl blackCanvas [0, 0, 0, 255] rfl rfl
  have hchannels : channels blackModel onePixel = [0, 0, 0, 255] := by decide
  rw [hfirst, Except.ok.injEq, hdata, hchannels] at hdrawn
  exact absurd hdrawn (by decide)

end Agreement

end RandomArt.TicketArtService
