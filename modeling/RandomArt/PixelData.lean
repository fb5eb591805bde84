import RandomArt.Base64Url
import RandomArt.DecimalText
import RandomArt.PaintGeometry

/-!
# Raw pixel data and its text form

Pixel data travels as the text `width,height,bytes`, with decimal sizes and
base64url bytes. Sizes read back from text are numbers that may be missing
(`none` stands for NaN). A text is the list of its characters.
-/

namespace RandomArt

/-- RGBA bytes with the image size they are meant for. -/
structure RawPixelData where
  data : List UInt8
  pixelWidth : Option ℤ
  pixelHeight : Option ℤ
  deriving DecidableEq

namespace PixelData

/-- What the pixel utilities throw, with the values their messages quote. -/
inductive PixelsError where
  | commasNotFound
  | geometryMismatch (pixelWidth pixelHeight : Option ℤ) (geometry : Option PaintResolution)
  | incorrectDataSize (pixelWidth pixelHeight : Option ℤ) (dataLength : ℕ)
  deriving DecidableEq

structure ParsedPreamble where
  firstComma : ℕ
  secondComma : ℕ
  pixelWidth : Option ℤ
  pixelHeight : Option ℤ
  deriving DecidableEq

/-- Position of the first comma at or after `start`. -/
def commaFrom (source : List Char) (start : ℕ) : Option ℕ :=
  ((source.drop start).idxOf? ',').map (start + ·)

def parsePreamble (source : List Char) : Except PixelsError ParsedPreamble :=
  match commaFrom source 0 with
  | none => .error .commasNotFound
  | some firstComma =>
    match commaFrom source (firstComma + 1) with
    | none => .error .commasNotFound
    | some secondComma =>
      .ok {
        firstComma
        secondComma
        pixelWidth := DecimalText.parseInt (source.take firstComma)
        pixelHeight :=
          DecimalText.parseInt ((source.take secondComma).drop (firstComma + 1)) }

/-- A size check against an optional geometry; a missing number equals nothing. -/
def checkWidthHeight (pixelWidth pixelHeight : Option ℤ) : Option PaintResolution → Bool
  | none => true
  | some geometry =>
    pixelWidth = some (geometry.pixelWidth : ℤ) && pixelHeight = some (geometry.pixelHeight : ℤ)

/-- The byte count `4 * height * width`, where both sizes are numbers. -/
def expectedLength (pixelsData : RawPixelData) : Option ℤ :=
  pixelsData.pixelHeight.bind fun height =>
    pixelsData.pixelWidth.map fun width => 4 * height * width

def assertPixelsData (pixelsData : RawPixelData) (geometry : Option PaintResolution) :
    Except PixelsError Unit :=
  if ¬checkWidthHeight pixelsData.pixelWidth pixelsData.pixelHeight geometry then
    .error (.geometryMismatch pixelsData.pixelWidth pixelsData.pixelHeight geometry)
  else if some (pixelsData.data.length : ℤ) = expectedLength pixelsData then
    .error (.incorrectDataSize pixelsData.pixelWidth pixelsData.pixelHeight
      pixelsData.data.length)
  else .ok ()

/-- A size as text; pixel data that is written out has natural sizes. -/
def sizeText : Option ℤ → List Char
  | none => "NaN".toList
  | some n => (if n < 0 then ['-'] else []) ++ DecimalText.print n.natAbs

def fromPixelsData (pixelsData : RawPixelData) : List Char :=
  sizeText pixelsData.pixelWidth ++ ',' :: (sizeText pixelsData.pixelHeight ++
    ',' :: Base64Url.encode pixelsData.data)

def toPixelsData (pixelsString : List Char) : Except PixelsError RawPixelData :=
  (parsePreamble pixelsString).map fun preamble => {
    data := Base64Url.decode (pixelsString.drop (preamble.secondComma + 1))
    pixelWidth := preamble.pixelWidth
    pixelHeight := preamble.pixelHeight }

@[simp] theorem sizeText_natCast (n : ℕ) : sizeText (some (n : ℤ)) = DecimalText.print n := by
  simp [sizeText]

private theorem idxOf?_append_comma {pre : List Char} (h : ',' ∉ pre) (rest : List Char) :
    (pre ++ ',' :: rest).idxOf? ',' = some pre.length := by
  induction pre with
  | nil => simp [List.idxOf?_cons]
  | cons c cs ih =>
    have hc : (c == ',') = false := beq_eq_false_iff_ne.mpr (fun he => h (he ▸ List.mem_cons_self))
    have hcs : ',' ∉ cs := fun hm => h (List.mem_cons_of_mem _ hm)
    simp [List.idxOf?_cons, hc, ih hcs]

theorem parsePreamble_fields {width height : List Char} (hw : ',' ∉ width) (hh : ',' ∉ height)
    (rest : List Char) :
    parsePreamble (width ++ ',' :: (height ++ ',' :: rest)) =
      .ok {
        firstComma := width.length
        secondComma := width.length + 1 + height.length
        pixelWidth := DecimalText.parseInt width
        pixelHeight := DecimalText.parseInt height } := by
  have hfirst : commaFrom (width ++ ',' :: (height ++ ',' :: rest)) 0 = some width.length := by
    simp [commaFrom, idxOf?_append_comma hw]
  have hdrop : (width ++ ',' :: (height ++ ',' :: rest)).drop (width.length + 1) =
      height ++ ',' :: rest := by
    rw [List.drop_append]
    simp
  have hsecond : commaFrom (width ++ ',' :: (height ++ ',' :: rest)) (width.length + 1) =
      some (width.length + 1 + height.length) := by
    simp only [commaFrom, hdrop, idxOf?_append_comma hh, Option.map_some]
  have hheight : ((width ++ ',' :: (height ++ ',' :: rest)).take
      (width.length + 1 + height.length)).drop (width.length + 1) = height := by
    rw [List.drop_take, hdrop]
    simp
  simp only [parsePreamble, hfirst, hsecond, hheight, List.take_left]

theorem drop_fields (width height rest : List Char) :
    (width ++ ',' :: (height ++ ',' :: rest)).drop (width.length + 1 + height.length + 1) =
      rest := by
  have hsplit : width ++ ',' :: (height ++ ',' :: rest) =
      (width ++ ',' :: height ++ [',']) ++ rest := by simp
  rw [hsplit]
  exact List.drop_left' (by simp; omega)

/-- Pixel data with natural sizes survives the trip through its text form. -/
theorem toPixelsData_fromPixelsData (data : List UInt8) (width height : ℕ) :
    toPixelsData (fromPixelsData ⟨data, some (width : ℤ), some (height : ℤ)⟩) =
      .ok ⟨data, some (width : ℤ), some (height : ℤ)⟩ := by
  have hparse := parsePreamble_fields (DecimalText.notMem_print rfl width)
    (DecimalText.notMem_print rfl height) (Base64Url.encode data)
  simp only [toPixelsData, fromPixelsData, sizeText_natCast, hparse, Except.map, drop_fields,
    Base64Url.decode_encode, DecimalText.parseInt_print]

/-- Without a geometry, the size assertion throws exactly on data of the stated size. -/
theorem assertPixelsData_eq_ok_iff (data : List UInt8) (width height : ℤ) :
    assertPixelsData ⟨data, some width, some height⟩ none = .ok () ↔
      (data.length : ℤ) ≠ 4 * height * width := by
  unfold assertPixelsData expectedLength checkWidthHeight
  simp only [not_true_eq_false, if_false, Option.bind_some, Option.map_some, Option.some.injEq]
  split_ifs with h
  · simp [h]
  · simp [h]

end PixelData

end RandomArt
