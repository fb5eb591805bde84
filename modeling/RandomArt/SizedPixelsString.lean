import RandomArt.DoubleArithmetic
import RandomArt.PixelStrings

/-!
# Pixel strings in code units and doubles

Any string of the host language may be offered as a pixel string. Its sizes are read as doubles,
its length is computed in double arithmetic, and its bytes are decoded unit by unit. Rounding does
not bear on the length that is asked for, since no string is long enough.
-/

namespace RandomArt.SizedPixelsString
open Binary64 JsNumber
open PixelData (SizedGeometry PixelsError)

/-- A string of the host language, within the engine's limit on their length. -/
structure JsString where
  units : List UInt16
  short : units.length < 2 ^ 30

/-- The character of a code unit. A surrogate, which is no comma, blank, sign or digit, becomes
the null character, which is none of them either. -/
def unitChar (unit : UInt16) : Char := Char.ofNat unit.toNat

def JsString.chars (source : JsString) : List Char := source.units.map unitChar

/-- What `parseInt` returns: a double, or NaN without a digit. -/
def parsedInt : Option ℤ → JsNumber
  | none => nan
  | some n => (finite n).toDouble

structure RawPixelData where
  data : List UInt8
  pixelWidth : JsNumber
  pixelHeight : JsNumber

structure ParsedPreamble where
  firstComma : ℕ
  secondComma : ℕ
  pixelWidth : JsNumber
  pixelHeight : JsNumber

/-- The preamble of which the sizes have been rounded. -/
def ParsedPreamble.round (exact : PixelData.ParsedPreamble) : ParsedPreamble where
  firstComma := exact.firstComma
  secondComma := exact.secondComma
  pixelWidth := parsedInt exact.pixelWidth
  pixelHeight := parsedInt exact.pixelHeight

def parsePreamble (source : JsString) : Except PixelsError ParsedPreamble :=
  (PixelData.parsePreamble source.chars).map ParsedPreamble.round

def checkWidthHeight (pixelWidth pixelHeight : JsNumber) : Option PaintResolution → Bool
  | none => true
  | some geometry =>
    pixelWidth = finite geometry.pixelWidth && pixelHeight = finite geometry.pixelHeight

/-- `Math.ceil((8 * 4 * pixelWidth * pixelHeight) / 6)` -/
def encodedLength (pixelWidth pixelHeight : JsNumber) : JsNumber :=
  ceil (divDouble (mulDouble (mulDouble (finite 32) pixelWidth) pixelHeight) (finite 6))

def blessPixelsString (pixelsString : JsString) (geometry : Option SizedGeometry) : Bool :=
  match parsePreamble pixelsString with
  | .error _ => false
  | .ok preamble =>
    decide (finite pixelsString.units.length =
      addDouble (addDouble (finite preamble.secondComma) (finite 1))
        (encodedLength preamble.pixelWidth preamble.pixelHeight)) &&
    checkWidthHeight preamble.pixelWidth preamble.pixelHeight (geometry.map (·.imageSize))

def toPixelsData (pixelsString : JsString) : Except PixelsError RawPixelData :=
  (parsePreamble pixelsString).map fun preamble => {
    data := Base64Url.decodeUnits (pixelsString.units.drop (preamble.secondComma + 1))
    pixelWidth := preamble.pixelWidth
    pixelHeight := preamble.pixelHeight }

section Lengths

variable {width height : ℤ}

theorem mulDouble_eq_bits (hover : ¬Overflows (32 * width))
    (hfew : |32 * width * height| < 2 ^ 50) :
    mulDouble (mulDouble (finite 32) (finite width)) (finite height) =
      finite (32 * width * height : ℤ) := by
  have hbits : nearest (32 * width * height : ℤ) = (32 * width * height : ℤ) :=
    nearest_intCast (by omega)
  have hnone : ¬Overflows (32 * width * height : ℤ) :=
    not_overflows_of_abs_le (n := 2 ^ 50) (by norm_num) (by exact_mod_cast hfew.le)
  push_cast at hbits hnone
  have hproduct : nearest (32 * width) * height = (32 * width * height : ℚ) := by
    rcases eq_or_ne height 0 with rfl | hheight
    · simp
    · have hwidth : |32 * width| < 2 ^ 50 := by
        refine lt_of_le_of_lt ?_ hfew
        rw [abs_mul (32 * width)]
        exact le_mul_of_one_le_right (abs_nonneg _) (Int.one_le_abs hheight)
      have hexact : nearest (32 * width : ℤ) = (32 * width : ℤ) := nearest_intCast (by omega)
      push_cast at hexact
      rw [hexact]
  refine mulDouble_eq_finite_iff.mpr ⟨_, _, mulDouble_eq_finite_iff.mpr
    ⟨_, _, rfl, rfl, rfl, hover⟩, rfl, ?_, ?_⟩
  · rw [hproduct, hbits]
    push_cast
    rfl
  · rwa [hproduct]

theorem encodedLength_of_few (hover : ¬Overflows (32 * width))
    (hfew : |32 * width * height| < 2 ^ 50) :
    encodedLength (finite width) (finite height) =
      finite ⌈((32 * width * height : ℤ) : ℚ) / 6⌉ := by
  obtain ⟨length, hlength⟩ : ∃ length, ⌈((32 * width * height : ℤ) : ℚ) / 6⌉ = length := ⟨_, rfl⟩
  obtain ⟨hlow, hhigh⟩ := PixelData.ceil_div_six_eq_iff.mp hlength
  rw [abs_lt] at hfew
  have hlow' : (6 * (length - 1) + 1 : ℚ) ≤ (32 * width * height : ℤ) := by exact_mod_cast hlow
  have hhigh' : ((32 * width * height : ℤ) : ℚ) ≤ 6 * length := by exact_mod_cast hhigh
  have hceil : ⌈nearest (((32 * width * height : ℤ) : ℚ) / 6)⌉ = length :=
    ceil_nearest (abs_lt.mpr (by omega)) (by linarith) (by linarith)
  have hsixth : |((32 * width * height : ℤ) : ℚ) / 6| ≤ (2 ^ 50 : ℕ) := by
    have hbelow : ((32 * width * height : ℤ) : ℚ) < 2 ^ 50 := by exact_mod_cast hfew.2
    have habove : -2 ^ 50 < ((32 * width * height : ℤ) : ℚ) := by exact_mod_cast hfew.1
    rw [abs_le]
    constructor <;> norm_num at * <;> linarith
  rw [encodedLength, mulDouble_eq_bits hover (abs_lt.mpr hfew), hlength]
  refine ceil_eq_finite_iff.mpr ⟨_, (divDouble_eq_finite_iff (by norm_num)).mpr
    ⟨_, rfl, rfl, not_overflows_of_abs_le (by norm_num) hsixth⟩, ?_⟩
  rw [hceil]

private theorem le_abs_nearest_pow {q : ℚ} {k : ℕ} (hk : k < 53) (h : 2 ^ k ≤ |q|) :
    2 ^ k ≤ |nearest q| := by
  have hpow : nearest ((2 ^ k : ℕ) : ℚ) = (2 ^ k : ℕ) :=
    nearest_natCast_of_lt (Nat.pow_lt_pow_right (by decide) hk)
  push_cast at hpow
  exact le_abs_nearest hpow h

/-- Many bits have a large length, or none. -/
theorem le_encodedLength_of_many {q : ℚ} (hmany : 2 ^ 50 ≤ |32 * width * height|)
    (h : encodedLength (finite width) (finite height) = finite q) : 2 ^ 46 ≤ |q| := by
  obtain ⟨_, hsixth, rfl⟩ := ceil_eq_finite_iff.mp h
  obtain ⟨_, hbits, rfl, -⟩ := (divDouble_eq_finite_iff (by norm_num)).mp hsixth
  obtain ⟨_, _, hrow, ⟨⟩, rfl, -⟩ := mulDouble_eq_finite_iff.mp hbits
  obtain ⟨_, _, ⟨⟩, ⟨⟩, rfl, -⟩ := mulDouble_eq_finite_iff.mp hrow
  have hheight : 1 ≤ |height| := by
    refine Int.one_le_abs ?_
    rintro rfl
    simp at hmany
  have hproduct : (2 : ℚ) ^ 50 ≤ |nearest (32 * width) * height| := by
    rcases lt_or_ge |32 * width| (2 ^ 52) with hnarrow | hwide
    · have hexact : nearest (32 * width : ℤ) = (32 * width : ℤ) := nearest_intCast (by omega)
      push_cast at hexact
      have hcast : ((2 ^ 50 : ℤ) : ℚ) ≤ (|32 * width * height| : ℤ) := Int.cast_le.mpr hmany
      push_cast at hcast
      rwa [hexact]
    · have hrow : (2 : ℚ) ^ 52 ≤ |nearest (32 * width)| :=
        le_abs_nearest_pow (by decide) (by exact_mod_cast hwide)
      have hcast : (1 : ℚ) ≤ |(height : ℚ)| := by exact_mod_cast hheight
      rw [abs_mul]
      calc (2 : ℚ) ^ 50 ≤ 2 ^ 52 * 1 := by norm_num
        _ ≤ |nearest (32 * width)| * |(height : ℚ)| := by gcongr
  have hrounded := le_abs_nearest_pow (by decide) hproduct
  have hsixth : (2 : ℚ) ^ 47 ≤ |nearest (nearest (32 * width) * height) / 6| := by
    rw [abs_div]
    norm_num at hrounded ⊢
    linarith
  have hquotient := le_abs_nearest_pow (by decide) hsixth
  have hbelow := Int.le_ceil (nearest (nearest (nearest (32 * width) * height) / 6))
  have habove := Int.ceil_lt_add_one (nearest (nearest (nearest (32 * width) * height) / 6))
  rcases le_abs.mp hquotient with hpositive | hnegative
  · refine le_abs.mpr (Or.inl ?_)
    linarith
  · refine le_abs.mpr (Or.inr ?_)
    linarith

/-- The computed length of a whole string. It starts behind the second comma, and is exact for
every string of the host language, unless the width overflows on the way. -/
theorem addDouble_encodedLength_iff {start length : ℕ} (hstart : start ≤ length)
    (hlength : length < 2 ^ 30) :
    finite length = addDouble (finite start) (encodedLength (finite width) (finite height)) ↔
      ¬Overflows (32 * width) ∧
        PixelData.encodedLength (some width) (some height) = some ((length - start : ℕ) : ℤ) := by
  have hbits : 8 * 4 * width * height = 32 * width * height := by ring
  rw [PixelData.encodedLength, Option.bind_some, Option.map_some, Option.some_inj, hbits, eq_comm]
  constructor
  · intro h
    obtain ⟨_, q, ⟨⟩, hencoded, hsum, -⟩ := addDouble_eq_finite_iff.mp h
    have hover : ¬Overflows (32 * width) := by
      obtain ⟨_, hsixth, -⟩ := ceil_eq_finite_iff.mp hencoded
      obtain ⟨_, hproduct, -⟩ := (divDouble_eq_finite_iff (by norm_num)).mp hsixth
      obtain ⟨_, _, hrow, -⟩ := mulDouble_eq_finite_iff.mp hproduct
      obtain ⟨_, _, ⟨⟩, ⟨⟩, -, hover⟩ := mulDouble_eq_finite_iff.mp hrow
      exact hover
    refine ⟨hover, ?_⟩
    rcases lt_or_ge |32 * width * height| (2 ^ 50) with hfew | hmany
    · rw [encodedLength_of_few hover hfew] at hencoded
      cases hencoded
      obtain ⟨encoded, hencoded⟩ :
        ∃ encoded, ⌈((32 * width * height : ℤ) : ℚ) / 6⌉ = encoded := ⟨_, rfl⟩
      obtain ⟨hlow, hhigh⟩ := PixelData.ceil_div_six_eq_iff.mp hencoded
      rw [abs_lt] at hfew
      have hexact : nearest (start + encoded : ℤ) = (start + encoded : ℤ) :=
        nearest_intCast (abs_lt.mpr (by omega))
      push_cast at hexact
      rw [hencoded, hexact] at hsum
      have hsum' : (start + encoded : ℤ) = length := by exact_mod_cast hsum
      omega
    · -- The sum of a large length and a small start is rounded to no short length.
      have hlarge := le_encodedLength_of_many hmany hencoded
      have hstart' : (start : ℚ) < 2 ^ 30 := by exact_mod_cast hstart.trans_lt hlength
      have hlength' : (length : ℚ) < 2 ^ 30 := by exact_mod_cast hlength
      have hfar : (2 : ℚ) ^ 45 ≤ |start + q| := by
        have htriangle := abs_sub_abs_le_abs_sub q (-start)
        rw [abs_neg, Nat.abs_cast, sub_neg_eq_add, add_comm q] at htriangle
        linarith
      have hrounded := le_abs_nearest_pow (by decide) hfar
      rw [hsum, Nat.abs_cast] at hrounded
      linarith
  · rintro ⟨hover, hexact⟩
    obtain ⟨hlow, hhigh⟩ := PixelData.ceil_div_six_eq_iff.mp hexact
    have hfew : |32 * width * height| < 2 ^ 50 := abs_lt.mpr (by omega)
    have hsum : (start : ℤ) + (length - start : ℕ) = length := by omega
    have hshort : |(start : ℤ) + (length - start : ℕ)| < 2 ^ 53 := abs_lt.mpr (by omega)
    have hadd := addDouble_intCast hshort
    rw [hsum] at hadd
    rw [encodedLength_of_few hover hfew, hexact]
    simpa only [Int.cast_natCast] using hadd

theorem exists_of_addDouble_encodedLength {start length : ℚ} {pixelWidth pixelHeight : JsNumber}
    (h : finite length = addDouble (finite start) (encodedLength pixelWidth pixelHeight)) :
    ∃ width height, pixelWidth = finite width ∧ pixelHeight = finite height := by
  obtain ⟨_, _, -, hencoded, -⟩ := addDouble_eq_finite_iff.mp h.symm
  obtain ⟨_, hsixth, -⟩ := ceil_eq_finite_iff.mp hencoded
  obtain ⟨_, hproduct, -⟩ := (divDouble_eq_finite_iff (by norm_num)).mp hsixth
  obtain ⟨_, height, hrow, hheight, -⟩ := mulDouble_eq_finite_iff.mp hproduct
  obtain ⟨_, width, -, hwidth, -⟩ := mulDouble_eq_finite_iff.mp hrow
  exact ⟨width, height, hwidth, hheight⟩

theorem exists_intCast_of_parsedInt {n : Option ℤ} {q : ℚ} (h : parsedInt n = finite q) :
    ∃ m : ℤ, q = m := by
  cases n with
  | none => cases h
  | some n => exact exists_intCast_of_toDouble h

end Lengths

section Acceptance

variable {source : JsString} {preamble : ParsedPreamble} {geometry : Option SizedGeometry}

def body (source : JsString) (preamble : ParsedPreamble) : List UInt16 :=
  source.units.drop (preamble.secondComma + 1)

theorem secondComma_lt (h : parsePreamble source = .ok preamble) :
    preamble.secondComma < source.units.length := by
  rw [parsePreamble] at h
  cases hexact : PixelData.parsePreamble source.chars with
  | error error =>
    rw [hexact] at h
    cases h
  | ok exact =>
    rw [hexact] at h
    cases h
    have hlength := congrArg List.length (PixelData.parsePreamble_split hexact)
    rw [List.length_append, List.length_cons, List.length_take, List.length_drop,
      JsString.chars, List.length_map] at hlength
    change exact.secondComma < _
    omega

theorem parsedInt_of_parsePreamble (h : parsePreamble source = .ok preamble) :
    (∃ n, preamble.pixelWidth = parsedInt n) ∧ ∃ n, preamble.pixelHeight = parsedInt n := by
  rw [parsePreamble] at h
  cases hexact : PixelData.parsePreamble source.chars with
  | error error =>
    rw [hexact] at h
    cases h
  | ok exact =>
    rw [hexact] at h
    cases h
    exact ⟨⟨_, rfl⟩, ⟨_, rfl⟩⟩

/-- Both sizes are whole numbers, of the geometry if there is one, the width does not overflow
when it is counted in bits, and the body has as many units as the bytes of that size are encoded
in. -/
structure HasLength (source : JsString) (geometry : Option SizedGeometry)
    (preamble : ParsedPreamble) (width height : ℤ) : Prop where
  parsed : parsePreamble source = .ok preamble
  pixelWidth : preamble.pixelWidth = finite width
  pixelHeight : preamble.pixelHeight = finite height
  noOverflow : ¬Overflows (32 * width)
  checked : checkWidthHeight (finite width) (finite height) (geometry.map (·.imageSize)) = true
  length : PixelData.encodedLength (some width) (some height) =
    some ((body source preamble).length : ℤ)

theorem addDouble_secondComma (h : parsePreamble source = .ok preamble) :
    addDouble (finite preamble.secondComma) (finite 1) =
      finite (preamble.secondComma + 1 : ℕ) := by
  have hcomma := secondComma_lt h
  have hshort := source.short
  have hsum : |(preamble.secondComma : ℤ) + 1| < 2 ^ 53 := abs_lt.mpr (by omega)
  have hadd := addDouble_intCast hsum
  push_cast at hadd ⊢
  exact hadd

theorem blessPixelsString_iff : blessPixelsString source geometry = true ↔
    ∃ preamble width height, HasLength source geometry preamble width height := by
  cases hparse : parsePreamble source with
  | error error =>
    rw [blessPixelsString, hparse]
    refine iff_of_false (by simp) ?_
    rintro ⟨preamble, width, height, hlength⟩
    rw [hlength.parsed] at hparse
    cases hparse
  | ok preamble =>
    have hstart := secondComma_lt hparse
    have hbody : (body source preamble).length =
        source.units.length - (preamble.secondComma + 1) := List.length_drop
    rw [blessPixelsString, hparse]
    simp only [Bool.and_eq_true, decide_eq_true_eq, addDouble_secondComma hparse]
    constructor
    · rintro ⟨hcomputed, hchecked⟩
      obtain ⟨⟨_, hwidth⟩, ⟨_, hheight⟩⟩ := parsedInt_of_parsePreamble hparse
      obtain ⟨p, q, hp, hq⟩ := exists_of_addDouble_encodedLength hcomputed
      obtain ⟨width, rfl⟩ := exists_intCast_of_parsedInt (hwidth ▸ hp)
      obtain ⟨height, rfl⟩ := exists_intCast_of_parsedInt (hheight ▸ hq)
      rw [hp, hq] at hcomputed hchecked
      obtain ⟨hover, hlength⟩ :=
        (addDouble_encodedLength_iff hstart source.short).mp hcomputed
      exact ⟨preamble, width, height, hparse, hp, hq, hover, hchecked, hbody ▸ hlength⟩
    · rintro ⟨_, width, height, hparsed, hp, hq, hover, hchecked, hlength⟩
      rw [hparse] at hparsed
      cases hparsed
      rw [hp, hq]
      exact ⟨(addDouble_encodedLength_iff hstart source.short).mpr ⟨hover, hbody ▸ hlength⟩,
        hchecked⟩

end Acceptance

end RandomArt.SizedPixelsString
