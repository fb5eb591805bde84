import RandomArt.PixelData
import Mathlib.Algebra.Order.Floor.Ring
import Mathlib.Data.Rat.Floor

/-!
# Validation of pixel strings

A pixel string is accepted by its length alone: what follows the second comma has to be as long
as the encoded bytes of the stated size. Strings that were written from pixel data are accepted.
Sizes are whole numbers here, of any length.
-/

namespace RandomArt.PixelData

/-- What a size is checked against: a geometry, or its resolution. -/
inductive SizedGeometry where
  | plotMap (geometry : PlotMapGeometry)
  | paint (resolution : PaintResolution)

def SizedGeometry.imageSize : SizedGeometry → PaintResolution
  | .plotMap geometry => geometry.imageSize
  | .paint resolution => resolution

/-- The length of a text in code units. -/
def codeUnits (text : List Char) : ℕ := (Base64Url.utf16 text).length

/-- The length of the encoded bytes of an image, where both sizes are numbers. -/
def encodedLength (pixelWidth pixelHeight : Option ℤ) : Option ℤ :=
  pixelWidth.bind fun width => pixelHeight.map fun height : ℤ =>
    ⌈((8 * 4 * width * height : ℤ) : ℚ) / 6⌉

def blessPixelsString (pixelsString : List Char) (geometry : Option SizedGeometry) : Bool :=
  match parsePreamble pixelsString with
  | .error _ => false
  | .ok preamble =>
    decide (some (codeUnits pixelsString : ℤ) =
      (encodedLength preamble.pixelWidth preamble.pixelHeight).map fun length : ℤ =>
        codeUnits (pixelsString.take preamble.secondComma) + 1 + length) &&
    checkWidthHeight preamble.pixelWidth preamble.pixelHeight (geometry.map (·.imageSize))

section Lengths

@[simp] theorem codeUnits_append (s t : List Char) :
    codeUnits (s ++ t) = codeUnits s + codeUnits t := by
  rw [codeUnits, Base64Url.utf16, List.flatMap_append, List.length_append]
  rfl

theorem codeUnits_cons {c : Char} (hc : c.toNat < 0x10000) (s : List Char) :
    codeUnits (c :: s) = codeUnits s + 1 := by
  rw [codeUnits, Base64Url.utf16, List.flatMap_cons, Base64Url.charUnits, if_pos hc]
  rfl

theorem codeUnits_eq_length {text : List Char} (h : ∀ c ∈ text, c.toNat < 0x10000) :
    codeUnits text = text.length := by
  rw [codeUnits, Base64Url.utf16_eq_map h, List.length_map]

theorem ceil_div_six_eq_iff {bits length : ℤ} :
    ⌈(bits : ℚ) / 6⌉ = length ↔ 6 * (length - 1) < bits ∧ bits ≤ 6 * length := by
  have hsix : (0 : ℚ) < 6 := by norm_num
  rw [Int.ceil_eq_iff, lt_div_iff₀ hsix, div_le_iff₀ hsix, mul_comm, mul_comm (length : ℚ)]
  norm_cast

theorem encodedLength_eq_iff {width height length : ℤ} :
    encodedLength (some width) (some height) = some length ↔
      6 * (length - 1) < 8 * (4 * width * height) ∧ 8 * (4 * width * height) ≤ 6 * length := by
  have hbits : 8 * 4 * width * height = 8 * (4 * width * height) := by ring
  rw [encodedLength, Option.bind_some, Option.map_some, Option.some_inj, ceil_div_six_eq_iff,
    hbits]

theorem commaFrom_split {source : List Char} {start i : ℕ} (h : commaFrom source start = some i) :
    source = source.take i ++ ',' :: source.drop (i + 1) := by
  obtain ⟨k, hk, rfl⟩ := Option.map_eq_some_iff.mp h
  obtain ⟨hlt, hcomma, -⟩ := List.idxOf?_eq_some_iff.mp hk
  have hdrop : source.drop (start + k) = ',' :: source.drop (start + k + 1) := by
    rw [List.length_drop] at hlt
    rw [List.drop_eq_getElem_cons (by omega)]
    rw [List.getElem_drop] at hcomma
    rw [hcomma]
  rw [← hdrop, List.take_append_drop]

theorem parsePreamble_split {source : List Char} {preamble : ParsedPreamble}
    (h : parsePreamble source = .ok preamble) :
    source = source.take preamble.secondComma ++ ',' :: source.drop (preamble.secondComma + 1) := by
  rw [parsePreamble] at h
  split at h
  · cases h
  · split at h
    · cases h
    · next hsecond =>
      cases h
      exact commaFrom_split hsecond

/-- The bytes behind the second comma. -/
def body (source : List Char) (preamble : ParsedPreamble) : List Char :=
  source.drop (preamble.secondComma + 1)

theorem blessPixelsString_eq_true_iff {source : List Char} {preamble : ParsedPreamble}
    (h : parsePreamble source = .ok preamble) (geometry : Option SizedGeometry) :
    blessPixelsString source geometry = true ↔
      encodedLength preamble.pixelWidth preamble.pixelHeight =
        some (codeUnits (body source preamble) : ℤ) ∧
      checkWidthHeight preamble.pixelWidth preamble.pixelHeight
        (geometry.map (·.imageSize)) = true := by
  have hunits : codeUnits source =
      codeUnits (source.take preamble.secondComma) + (codeUnits (body source preamble) + 1) := by
    conv_lhs => rw [parsePreamble_split h]
    rw [codeUnits_append, codeUnits_cons (by decide)]
    rfl
  rw [blessPixelsString, h]
  simp only [Bool.and_eq_true, decide_eq_true_eq]
  refine and_congr_left fun _ => ?_
  cases encodedLength preamble.pixelWidth preamble.pixelHeight with
  | none => simp
  | some length =>
    rw [Option.map_some, Option.some_inj, Option.some_inj, hunits]
    push_cast
    omega

end Lengths

section RoundTrip

theorem fromPixelsData_natCast (data : List UInt8) (w h : ℕ) :
    fromPixelsData ⟨data, some (w : ℤ), some (h : ℤ)⟩ = DecimalText.print w ++
      ',' :: (DecimalText.print h ++ ',' :: Base64Url.encode data) := by
  simp [fromPixelsData]

/-- Text that was written of pixel data of its size has the length that is asked for. -/
theorem blessPixelsString_fromPixelsData {data : List UInt8} {w h : ℕ}
    (hdata : (data.length : ℤ) = 4 * w * h) (geometry : Option SizedGeometry) :
    blessPixelsString (fromPixelsData ⟨data, some (w : ℤ), some (h : ℤ)⟩) geometry =
      checkWidthHeight (some (w : ℤ)) (some (h : ℤ)) (geometry.map (·.imageSize)) := by
  have hparse := parsePreamble_fields (DecimalText.notMem_print rfl w)
    (DecimalText.notMem_print rfl h) (Base64Url.encode data)
  have hlength : encodedLength (some (w : ℤ)) (some (h : ℤ)) =
      some (codeUnits (Base64Url.encode data) : ℤ) := by
    have hplane : ∀ c ∈ Base64Url.encode data, c.toNat < 0x10000 := by
      intro c hc
      obtain ⟨n, hn⟩ := Base64Url.charSextet_of_mem_encode hc
      have hascii := (Base64Url.charSextet_ascii hn).1
      omega
    rw [codeUnits_eq_length hplane, Base64Url.length_encode, encodedLength_eq_iff, ← hdata]
    omega
  rw [fromPixelsData_natCast, Bool.eq_iff_iff, blessPixelsString_eq_true_iff hparse, body,
    drop_fields, DecimalText.parseInt_print, DecimalText.parseInt_print]
  exact and_iff_right hlength

/-- Pixel data of its size comes back from its text, which is accepted, for a geometry if that
has the same size. -/
theorem pixels_string_round_trip {pixels : RawPixelData} {width height : ℤ}
    (hwidth : pixels.pixelWidth = some width) (hheight : pixels.pixelHeight = some height)
    (hw : 1 ≤ width) (hh : 1 ≤ height) (hdata : (pixels.data.length : ℤ) = 4 * width * height) :
    toPixelsData (fromPixelsData pixels) = .ok pixels ∧
    blessPixelsString (fromPixelsData pixels) none = true ∧
    ∀ geometry, blessPixelsString (fromPixelsData pixels) (some geometry) = true ↔
      (geometry.imageSize.pixelWidth : ℤ) = width ∧
        (geometry.imageSize.pixelHeight : ℤ) = height := by
  obtain ⟨data, pixelWidth, pixelHeight⟩ := pixels
  obtain rfl : pixelWidth = some width := hwidth
  obtain rfl : pixelHeight = some height := hheight
  obtain ⟨w, rfl⟩ := Int.eq_ofNat_of_zero_le (zero_le_one.trans hw)
  obtain ⟨h, rfl⟩ := Int.eq_ofNat_of_zero_le (zero_le_one.trans hh)
  have hblessed := blessPixelsString_fromPixelsData hdata
  refine ⟨toPixelsData_fromPixelsData data w h, hblessed none, fun geometry => ?_⟩
  rw [hblessed, Option.map_some, checkWidthHeight, Bool.and_eq_true, decide_eq_true_eq,
    decide_eq_true_eq, Option.some_inj, Option.some_inj]
  exact and_congr eq_comm eq_comm

theorem pixels_string_round_trip_pair :
    blessPixelsString (fromPixelsData ⟨List.replicate 8 255, some 2, some 1⟩)
      (some (.paint ⟨2, 1, 1⟩)) = true :=
  ((pixels_string_round_trip rfl rfl (by decide) (by decide) (by decide)).2.2
    (.paint ⟨2, 1, 1⟩)).mpr ⟨rfl, rfl⟩

end RoundTrip

end RandomArt.PixelData
