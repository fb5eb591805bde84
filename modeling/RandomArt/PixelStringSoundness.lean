import RandomArt.SizedPixelsString

/-!
# What an accepted pixel string holds

Plain text is accepted and decoded as in exact arithmetic, so that pixel data that was written is
accepted. The one length that is compared says nothing about the signs of the sizes or about the
units that are decoded.
-/

namespace RandomArt.SizedPixelsString
open Binary64 JsNumber
open PixelData (SizedGeometry)

section Written

open Base64Url (utf16)

def JsString.ofText (text : List Char) (short : (utf16 text).length < 2 ^ 30) : JsString :=
  ⟨utf16 text, short⟩

variable {text : List Char} (short : (utf16 text).length < 2 ^ 30)
  (hascii : ∀ c ∈ text, c.toNat < 128)

include hascii

theorem chars_ofText : (JsString.ofText text short).chars = text := by
  have hmap : ∀ c ∈ text, unitChar c.toNat.toUInt16 = c := by
    intro c hc
    have hc' := hascii c hc
    have hunit : c.toNat.toUInt16.toNat = c.toNat := by
      simp
      omega
    rw [unitChar, hunit, Char.ofNat_toNat]
  change (utf16 text).map unitChar = text
  rw [Base64Url.utf16_eq_map fun c hc => (hascii c hc).trans (by decide), List.map_map]
  exact (List.map_congr_left hmap).trans (List.map_id text)

theorem decodeUnits_drop_utf16 (n : ℕ) :
    Base64Url.decodeUnits ((utf16 text).drop n) = Base64Url.decode (text.drop n) := by
  have hplane : ∀ c ∈ text, c.toNat < 0x10000 := fun c hc => (hascii c hc).trans (by decide)
  rw [Base64Url.decode, Base64Url.utf16_eq_map hplane,
    Base64Url.utf16_eq_map fun c hc => hplane c (List.mem_of_mem_drop hc), List.map_drop]

/-- Plain text is decoded as in exact arithmetic, but for the rounding of its sizes. -/
theorem toPixelsData_ofText : toPixelsData (.ofText text short) =
    (PixelData.toPixelsData text).map fun pixels =>
      ⟨pixels.data, parsedInt pixels.pixelWidth, parsedInt pixels.pixelHeight⟩ := by
  rw [toPixelsData, parsePreamble, chars_ofText short hascii, PixelData.toPixelsData]
  cases PixelData.parsePreamble text with
  | error error => rfl
  | ok exact =>
    simp only [Except.map, JsString.ofText, ParsedPreamble.round, decodeUnits_drop_utf16 hascii]

theorem length_body_ofText (exact : PixelData.ParsedPreamble) :
    (body (.ofText text short) (.round exact)).length =
      PixelData.codeUnits (PixelData.body text exact) := by
  have hplane : ∀ c ∈ text, c.toNat < 0x10000 := fun c hc => (hascii c hc).trans (by decide)
  have hunits : (utf16 text).length = text.length := by
    rw [Base64Url.utf16_eq_map hplane, List.length_map]
  rw [PixelData.body,
    PixelData.codeUnits_eq_length fun c hc => hplane c (List.mem_of_mem_drop hc),
    List.length_drop, body, List.length_drop, JsString.ofText, hunits]
  rfl

theorem parsePreamble_ofText {exact : PixelData.ParsedPreamble}
    (h : PixelData.parsePreamble text = .ok exact) :
    parsePreamble (.ofText text short) = .ok (.round exact) := by
  rw [parsePreamble, chars_ofText short hascii, h]
  rfl

omit hascii

theorem parsedInt_eq_finite_iff {n : Option ℤ} {width : ℤ}
    (hsmall : ∀ m, n = some m → |m| < 2 ^ 53) :
    parsedInt n = finite width ↔ n = some width := by
  cases n with
  | none => simp [parsedInt]
  | some n =>
    obtain ⟨hnearest, hover⟩ : nearest (n : ℚ) = n ∧ ¬Overflows (n : ℚ) :=
      toDouble_finite_eq_iff.mp (toDouble_intCast (hsmall n rfl))
    rw [parsedInt, toDouble_finite_eq_iff, hnearest, Int.cast_inj, Option.some_inj]
    exact and_iff_left hover

theorem checkWidthHeight_finite (width height : ℤ) (geometry : Option PaintResolution) :
    checkWidthHeight (finite width) (finite height) geometry =
      PixelData.checkWidthHeight (some width) (some height) geometry := by
  cases geometry with
  | none => rfl
  | some geometry =>
    have hcast (n : ℤ) (m : ℕ) : finite n = finite m ↔ some n = some (m : ℤ) := by
      rw [finite.injEq, Option.some_inj, ← Int.cast_natCast, Int.cast_inj]
    rw [checkWidthHeight, PixelData.checkWidthHeight]
    simp only [hcast]

include hascii

theorem HasLength.ofText {geometry : Option SizedGeometry} {exact : PixelData.ParsedPreamble}
    {width height : ℤ} (hexact : PixelData.parsePreamble text = .ok exact)
    (hwidth : parsedInt exact.pixelWidth = finite width)
    (hheight : parsedInt exact.pixelHeight = finite height) (hsmall : |width| < 2 ^ 48)
    (hchecked : PixelData.checkWidthHeight (some width) (some height)
      (geometry.map (·.imageSize)) = true)
    (hlength : PixelData.encodedLength (some width) (some height) =
      some (PixelData.codeUnits (PixelData.body text exact) : ℤ)) :
    HasLength (.ofText text short) geometry (.round exact) width height where
  parsed := parsePreamble_ofText short hascii hexact
  pixelWidth := hwidth
  pixelHeight := hheight
  noOverflow := by
    have hbits : |32 * width| < 2 ^ 53 := by
      rw [abs_mul]
      norm_num
      omega
    have hover := (toDouble_finite_eq_iff.mp (toDouble_intCast hbits)).2
    push_cast at hover
    exact hover
  checked := by rwa [checkWidthHeight_finite]
  length := by rwa [length_body_ofText short hascii]

/-- Plain text with sizes that are not too large is accepted as in exact arithmetic. -/
theorem blessPixelsString_ofText (geometry : Option SizedGeometry)
    (hsmall : ∀ exact, PixelData.parsePreamble text = .ok exact →
      ∀ n, exact.pixelWidth = some n ∨ exact.pixelHeight = some n → |n| < 2 ^ 48) :
    blessPixelsString (.ofText text short) geometry =
      PixelData.blessPixelsString text geometry := by
  cases hexact : PixelData.parsePreamble text with
  | error error =>
    rw [blessPixelsString, parsePreamble, chars_ofText short hascii, PixelData.blessPixelsString,
      hexact]
    rfl
  | ok exact =>
    have hwidth (m : ℤ) (hm : exact.pixelWidth = some m) := hsmall exact hexact m (.inl hm)
    have hheight (m : ℤ) (hm : exact.pixelHeight = some m) := hsmall exact hexact m (.inr hm)
    have hparsedWidth (m : ℤ) : parsedInt exact.pixelWidth = finite m ↔ exact.pixelWidth = some m :=
      parsedInt_eq_finite_iff fun m hm => (hwidth m hm).trans (by decide)
    have hparsedHeight (m : ℤ) :
        parsedInt exact.pixelHeight = finite m ↔ exact.pixelHeight = some m :=
      parsedInt_eq_finite_iff fun m hm => (hheight m hm).trans (by decide)
    rw [Bool.eq_iff_iff, blessPixelsString_iff, PixelData.blessPixelsString_eq_true_iff hexact]
    constructor
    · rintro ⟨preamble, width, height, hparse, hp, hq, -, hchecked, hlength⟩
      rw [parsePreamble_ofText short hascii hexact] at hparse
      cases hparse
      rw [(hparsedWidth width).mp hp, (hparsedHeight height).mp hq, ← checkWidthHeight_finite]
      rw [length_body_ofText short hascii] at hlength
      exact ⟨hlength, hchecked⟩
    · rintro ⟨hlength, hchecked⟩
      obtain ⟨width, hp⟩ : ∃ width, exact.pixelWidth = some width := by
        cases hp : exact.pixelWidth with
        | none => simp [hp, PixelData.encodedLength] at hlength
        | some width => exact ⟨width, rfl⟩
      obtain ⟨height, hq⟩ : ∃ height, exact.pixelHeight = some height := by
        cases hq : exact.pixelHeight with
        | none => simp [hp, hq, PixelData.encodedLength] at hlength
        | some height => exact ⟨height, rfl⟩
      rw [hp, hq] at hlength hchecked
      exact ⟨.round exact, width, height, .ofText short hascii hexact ((hparsedWidth width).mpr hp)
        ((hparsedHeight height).mpr hq) (hwidth width hp) hchecked hlength⟩

end Written

section WrittenData

open PixelData (fromPixelsData)

theorem fromPixelsData_ascii (data : List UInt8) (w h : ℕ) :
    ∀ c ∈ fromPixelsData ⟨data, some (w : ℤ), some (h : ℤ)⟩, c.toNat < 128 := by
  have hdigit (n : ℕ) : ∀ c ∈ DecimalText.print n, c.toNat < 128 := by
    intro c hc
    have := DecimalText.digit_range (DecimalText.isDigit_of_mem_print hc)
    omega
  have hbytes : ∀ c ∈ Base64Url.encode data, c.toNat < 128 := by
    intro c hc
    obtain ⟨n, hn⟩ := Base64Url.charSextet_of_mem_encode hc
    exact (Base64Url.charSextet_ascii hn).1
  rw [PixelData.fromPixelsData_natCast]
  simp only [List.forall_mem_append, List.forall_mem_cons]
  exact ⟨hdigit w, by decide, hdigit h, by decide, hbytes⟩

/-- Pixel data that fits in a string is accepted there and read back. -/
theorem fromPixelsData_blessed {data : List UInt8} {w h : ℕ} (hw : 0 < w) (hh : 0 < h)
    (hdata : data.length = 4 * w * h)
    (short : (Base64Url.utf16 (fromPixelsData ⟨data, some (w : ℤ), some (h : ℤ)⟩)).length <
      2 ^ 30) :
    blessPixelsString (.ofText _ short) none = true ∧
      toPixelsData (.ofText _ short) = .ok ⟨data, finite w, finite h⟩ := by
  have hascii := fromPixelsData_ascii data w h
  have hbytes : data.length ≤ (Base64Url.utf16 (fromPixelsData ⟨data, some (w : ℤ),
      some (h : ℤ)⟩)).length := by
    rw [Base64Url.utf16_eq_map fun c hc => (hascii c hc).trans (by decide), List.length_map,
      PixelData.fromPixelsData_natCast]
    simp only [List.length_append, List.length_cons, Base64Url.length_encode]
    omega
  have hwidth : w < 2 ^ 30 := by nlinarith
  have hheight : h < 2 ^ 30 := by nlinarith
  have hparse := PixelData.parsePreamble_fields (DecimalText.notMem_print rfl w)
    (DecimalText.notMem_print rfl h) (Base64Url.encode data)
  rw [DecimalText.parseInt_print, DecimalText.parseInt_print,
    ← PixelData.fromPixelsData_natCast] at hparse
  constructor
  · rw [blessPixelsString_ofText short hascii,
      PixelData.blessPixelsString_fromPixelsData (by exact_mod_cast hdata)]
    · rfl
    · intro exact hexact n hn
      rw [hparse] at hexact
      cases hexact
      rcases hn with hn | hn <;> cases hn <;> rw [Nat.abs_cast] <;> omega
  · have hsize {n : ℕ} (hn : n < 2 ^ 30) : parsedInt (some (n : ℤ)) = finite n :=
      (parsedInt_eq_finite_iff fun m hm => by
        cases hm
        rw [Nat.abs_cast]
        omega).mpr rfl
    rw [toPixelsData_ofText short hascii, PixelData.toPixelsData_fromPixelsData]
    simp only [Except.map, hsize hwidth, hsize hheight]

end WrittenData

section Soundness

/-- A string whose pixel data has positive whole sizes and exactly the bytes that they call
for. -/
def Sound (source : JsString) : Prop :=
  ∃ data, ∃ width height : ℤ, toPixelsData source = .ok ⟨data, finite width, finite height⟩ ∧
    0 < width ∧ 0 < height ∧ (data.length : ℤ) = 4 * width * height

/-- The strings that slip through. The body has the length that the sizes call for, but a size is
zero, both are negative, or the body has a unit whose low byte is in neither alphabet. -/
def SlipsThrough (source : JsString) (geometry : Option SizedGeometry) : Prop :=
  ∃ preamble width height, HasLength source geometry preamble width height ∧
    ((width = 0 ∨ height = 0) ∨ (width < 0 ∧ height < 0) ∨
      ∃ u ∈ body source preamble, Base64Url.charSextet (Base64Url.lowChar u) = none)

variable {source : JsString} {geometry : Option SizedGeometry} {preamble : ParsedPreamble}
  {width height : ℤ}

theorem HasLength.mul_nonneg (h : HasLength source geometry preamble width height) :
    0 ≤ width * height := by
  have hlength := PixelData.encodedLength_eq_iff.mp h.length
  rw [mul_assoc] at hlength
  omega

/-- With a body of the right length, the data is sound when its sizes are positive and every
unit counts. -/
theorem HasLength.sound_iff (h : HasLength source geometry preamble width height) :
    Sound source ↔ 0 < width ∧ 0 < height ∧
      ∀ u ∈ body source preamble, ∃ n, Base64Url.charSextet (Base64Url.lowChar u) = some n := by
  have hdata : toPixelsData source =
      .ok ⟨Base64Url.decodeUnits (body source preamble), finite width, finite height⟩ := by
    rw [toPixelsData, h.parsed, ← h.pixelWidth, ← h.pixelHeight]
    rfl
  have hlength := PixelData.encodedLength_eq_iff.mp h.length
  constructor
  · rintro ⟨data, w, k, hto, hw, hk, hbytes⟩
    rw [hdata, Except.ok.injEq, RawPixelData.mk.injEq, finite.injEq, finite.injEq, Int.cast_inj,
      Int.cast_inj] at hto
    obtain ⟨rfl, rfl, rfl⟩ := hto
    refine ⟨hw, hk, fun u hu => ?_⟩
    rw [← Option.isSome_iff_exists, Option.isSome_iff_ne_none]
    intro hnone
    have hnonempty := List.length_pos_of_mem hu
    have hfewer := Base64Url.length_decodeUnits_le_of_exists ⟨u, hu, hnone⟩
    omega
  · rintro ⟨hw, hk, hall⟩
    refine ⟨_, width, height, hdata, hw, hk, ?_⟩
    have hpixels : 0 < width * height := mul_pos hw hk
    rw [mul_assoc] at hlength
    rw [Base64Url.length_decodeUnits_of_forall hall, mul_assoc]
    omega

/-- Acceptance proves a string sound unless it is one of those that slip through. -/
theorem blessed_sound_iff (source : JsString) (geometry : Option SizedGeometry) :
    (blessPixelsString source geometry = true → Sound source) ↔
      ¬SlipsThrough source geometry := by
  rw [blessPixelsString_iff]
  constructor
  · rintro hsound ⟨preamble, width, height, hlength, hkind⟩
    obtain ⟨hw, hh, hall⟩ := hlength.sound_iff.mp (hsound ⟨preamble, width, height, hlength⟩)
    obtain hzero | hnegative | ⟨u, hu, hnone⟩ := hkind
    · omega
    · omega
    · obtain ⟨n, hn⟩ := hall u hu
      rw [hnone] at hn
      cases hn
  · rintro hkind ⟨preamble, width, height, hlength⟩
    have hno (h : (width = 0 ∨ height = 0) ∨ (width < 0 ∧ height < 0) ∨
        ∃ u ∈ body source preamble, Base64Url.charSextet (Base64Url.lowChar u) = none) : False :=
      hkind ⟨preamble, width, height, hlength, h⟩
    have hsigns := mul_nonneg_iff.mp hlength.mul_nonneg
    have hnonzero : ¬(width = 0 ∨ height = 0) := fun h => hno (.inl h)
    have hnotNegative : ¬(width < 0 ∧ height < 0) := fun h => hno (.inr (.inl h))
    refine hlength.sound_iff.mpr ⟨by omega, by omega, fun u hu => ?_⟩
    rw [← Option.isSome_iff_exists, Option.isSome_iff_ne_none]
    exact fun hnone => hno (.inr (.inr ⟨u, hu, hnone⟩))

end Soundness

section Unsound

def negativePixel : JsString := .ofText "-1,-1,AAAAAA".toList (by decide)

def emptyRows : JsString := .ofText "0,7,".toList (by decide)

def foreignPixel : JsString := .ofText "1,1,!!!!!!".toList (by decide)

theorem blessed_unsound :
    (blessPixelsString negativePixel none = true ∧ ¬Sound negativePixel) ∧
    (blessPixelsString emptyRows none = true ∧ ¬Sound emptyRows) ∧
    blessPixelsString foreignPixel none = true ∧ ¬Sound foreignPixel := by
  have hparsed {n : ℤ} (hn : |n| < 2 ^ 53) : parsedInt (some n) = finite n :=
    toDouble_intCast hn
  have hascii {text : List Char} (h : text.all (fun c => c.toNat < 128) = true) :
      ∀ c ∈ text, c.toNat < 128 := fun c hc => of_decide_eq_true (List.all_eq_true.mp h c hc)
  have hnegative : HasLength negativePixel none (.round ⟨2, 5, some (-1), some (-1)⟩) (-1) (-1) :=
    .ofText _ (hascii rfl) (by decide +kernel) (hparsed (by decide)) (hparsed (by decide))
      (by decide) rfl (PixelData.encodedLength_eq_iff.mpr (by decide))
  have hempty : HasLength emptyRows none (.round ⟨1, 3, some 0, some 7⟩) 0 7 :=
    .ofText _ (hascii rfl) (by decide +kernel) (hparsed (by decide)) (hparsed (by decide))
      (by decide) rfl (PixelData.encodedLength_eq_iff.mpr (by decide))
  have hforeign : HasLength foreignPixel none (.round ⟨1, 3, some 1, some 1⟩) 1 1 :=
    .ofText _ (hascii rfl) (by decide +kernel) (hparsed (by decide)) (hparsed (by decide))
      (by decide) rfl (PixelData.encodedLength_eq_iff.mpr (by decide))
  refine ⟨⟨blessPixelsString_iff.mpr ⟨_, _, _, hnegative⟩, ?_⟩,
    ⟨blessPixelsString_iff.mpr ⟨_, _, _, hempty⟩, ?_⟩,
    blessPixelsString_iff.mpr ⟨_, _, _, hforeign⟩, ?_⟩
  · rw [hnegative.sound_iff]
    exact fun h => absurd h.1 (by decide)
  · rw [hempty.sound_iff]
    exact fun h => absurd h.1 (by decide)
  · rw [hforeign.sound_iff]
    rintro ⟨-, -, hall⟩
    have hforeign : Base64Url.charSextet (Base64Url.lowChar 0x21) = none := by decide
    obtain ⟨n, hn⟩ := hall 0x21 (by decide)
    rw [hforeign] at hn
    cases hn

end Unsound

end RandomArt.SizedPixelsString
