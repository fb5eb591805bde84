import RandomArt.RegionMap
import Mathlib.Data.Int.Basic
import Mathlib.Data.BitVec

/-!
# The artist of a generative model

The artist paints one pixel word for each `plot` call and at the end checks how far
it got. Painting a slice of rows is described by the plot calls of the slice alone,
and the words of consecutive slices join up.
-/

namespace RandomArt

/-- Red, green and blue. -/
abbrev Rgb := ℤ × ℤ × ℤ

def Rgb.InByte (rgb : Rgb) : Prop :=
  (0 ≤ rgb.1 ∧ rgb.1 ≤ 255) ∧ (0 ≤ rgb.2.1 ∧ rgb.2.1 ≤ 255) ∧ (0 ≤ rgb.2.2 ∧ rgb.2.2 ≤ 255)

/-- A pure model; its channels are bytes wherever both coordinates are defined. -/
structure GenModel (Coord : Type) where
  computePixel : Option Coord → Option Coord → Rgb
  inByte : ∀ x y, Rgb.InByte (computePixel (some x) (some y))

namespace GenModelArtist

def ALPHA_OPAQUE : BitVec 32 := 255#32 <<< 24

def pixelWord (rgb : Rgb) : BitVec 32 :=
  ALPHA_OPAQUE ||| (BitVec.ofInt 32 rgb.2.2 <<< 16) ||| (BitVec.ofInt 32 rgb.2.1 <<< 8) |||
    BitVec.ofInt 32 rgb.1

/-- The bytes of a word as a byte view of its buffer shows them. -/
def littleEndian (word : BitVec 32) : List UInt8 :=
  [⟨word.extractLsb' 0 8⟩, ⟨word.extractLsb' 8 8⟩, ⟨word.extractLsb' 16 8⟩,
    ⟨word.extractLsb' 24 8⟩]

def rgbaBytes (rgb : Rgb) : List UInt8 :=
  [UInt8.ofNat rgb.1.toNat, UInt8.ofNat rgb.2.1.toNat, UInt8.ofNat rgb.2.2.toNat, 255]

private theorem bytes_of_word (a b g r : BitVec 8) {word : BitVec 32}
    (hword : word = (a.setWidth 32 <<< 24) ||| (b.setWidth 32 <<< 16) |||
      (g.setWidth 32 <<< 8) ||| r.setWidth 32) :
    word.extractLsb' 0 8 = r ∧ word.extractLsb' 8 8 = g ∧ word.extractLsb' 16 8 = b ∧
      word.extractLsb' 24 8 = a := by
  subst hword
  refine ⟨?_, ?_, ?_, ?_⟩ <;> ext i hi <;> simp <;> grind

private theorem ofInt_of_byte {n : ℤ} (h0 : 0 ≤ n) (h1 : n ≤ 255) :
    BitVec.ofInt 32 n = (BitVec.ofNat 8 n.toNat).setWidth 32 := by
  obtain ⟨m, rfl⟩ := Int.eq_ofNat_of_zero_le h0
  apply BitVec.eq_of_toNat_eq
  simp
  omega

/-- A pixel word holds red, green, blue and full opacity, lowest byte first. -/
theorem littleEndian_pixelWord {rgb : Rgb} (h : rgb.InByte) :
    littleEndian (pixelWord rgb) = rgbaBytes rgb := by
  obtain ⟨⟨hr0, hr1⟩, ⟨hg0, hg1⟩, ⟨hb0, hb1⟩⟩ := h
  have hword : pixelWord rgb = ((255#8).setWidth 32 <<< 24) |||
      ((BitVec.ofNat 8 rgb.2.2.toNat).setWidth 32 <<< 16) |||
      ((BitVec.ofNat 8 rgb.2.1.toNat).setWidth 32 <<< 8) |||
      (BitVec.ofNat 8 rgb.1.toNat).setWidth 32 := by
    rw [← ofInt_of_byte hr0 hr1, ← ofInt_of_byte hg0 hg1, ← ofInt_of_byte hb0 hb1]
    rfl
  obtain ⟨hr, hg, hb, ha⟩ := bytes_of_word _ _ _ _ hword
  rw [littleEndian, hr, hg, hb, ha]
  rfl

/-- The buffer of pixel words and the position of the next one. -/
structure Canvas where
  pixelData : List (BitVec 32)
  plotIndex : ℕ

/-- The artist stopped somewhere else than at the end of its slice. -/
structure IterationMismatch where
  finalIndex : ℤ
  plotIndex : ℕ
  deriving DecidableEq

variable {Coord : Type} (genModel : GenModel Coord)

def plot (canvas : Canvas) (regionX regionY : Option Coord) : Canvas where
  pixelData := canvas.pixelData.set canvas.plotIndex
    (pixelWord (genModel.computePixel regionX regionY))
  plotIndex := canvas.plotIndex + 1

def finish (canvasWidth : ℕ) (initialY finalY : ℤ) (canvas : Canvas) :
    Except IterationMismatch Canvas :=
  let finalIndex : ℤ := canvasWidth * (finalY - initialY)
  if (canvas.plotIndex : ℤ) ≠ finalIndex then .error ⟨finalIndex, canvas.plotIndex⟩
  else .ok canvas

/-- The artist as the receiver of a plot run. -/
def artist (canvasWidth : ℕ) (initialY finalY : ℤ) :
    RegionPlotter Canvas Coord IterationMismatch where
  plot := plot genModel
  finish := finish canvasWidth initialY finalY

def wordsOf (calls : List (Option Coord × Option Coord)) : List (BitVec 32) :=
  calls.map fun c => pixelWord (genModel.computePixel c.1 c.2)

@[simp] theorem length_wordsOf (calls : List (Option Coord × Option Coord)) :
    (wordsOf genModel calls).length = calls.length := List.length_map _

/-- Plotting fills the buffer from the current position on. -/
theorem foldl_plot (calls : List (Option Coord × Option Coord)) (written : List (BitVec 32)) :
    calls.foldl (fun s c => plot genModel s c.1 c.2)
        ⟨written ++ List.replicate calls.length 0, written.length⟩ =
      ⟨written ++ wordsOf genModel calls, written.length + calls.length⟩ := by
  induction calls generalizing written with
  | nil => simp [wordsOf]
  | cons c cs ih =>
    have hplot : plot genModel ⟨written ++ List.replicate (c :: cs).length 0, written.length⟩
        c.1 c.2 =
        ⟨(written ++ [pixelWord (genModel.computePixel c.1 c.2)]) ++ List.replicate cs.length 0,
          (written ++ [pixelWord (genModel.computePixel c.1 c.2)]).length⟩ := by
      rw [plot, List.set_append_right _ _ le_rfl, Nat.sub_self, List.length_cons,
        List.replicate_succ, List.set_cons_zero]
      simp
    rw [List.foldl_cons, hplot, ih]
    simp [wordsOf]
    omega

variable (map : RegionMap Coord)

def paintedBytes (a b : ℕ) : List UInt8 :=
  (wordsOf genModel (map.plotCalls a b)).flatMap littleEndian

theorem length_flatMap_littleEndian (words : List (BitVec 32)) :
    (words.flatMap littleEndian).length = 4 * words.length := by
  induction words with
  | nil => rfl
  | cons w ws ih => simp [ih, littleEndian]; omega

@[simp] theorem length_paintedBytes (a b : ℕ) :
    (paintedBytes genModel map a b).length =
      4 * (map.pixelWidth * (min b map.pixelHeight - a)) := by
  rw [paintedBytes, length_flatMap_littleEndian, length_wordsOf, map.length_plotCalls]

theorem paintedBytes_append {a b c : ℕ} (hab : a ≤ b) (hbc : b ≤ c) (hb : b ≤ map.pixelHeight) :
    paintedBytes genModel map a b ++ paintedBytes genModel map b c =
      paintedBytes genModel map a c := by
  simp only [paintedBytes, wordsOf, ← List.flatMap_append, ← List.map_append,
    map.plotCalls_append hab hbc hb]

/-- Over consistent coordinate lists, the painted bytes are the colours of the pixels. -/
theorem paintedBytes_eq_rgba (hmap : map.Consistent) (a b : ℕ) :
    paintedBytes genModel map a b =
      (map.plotCalls a b).flatMap fun c => rgbaBytes (genModel.computePixel c.1 c.2) := by
  rw [paintedBytes, wordsOf, List.flatMap_map]
  apply List.flatMap_congr
  intro c hc
  obtain ⟨x, y, rfl⟩ := map.exists_coords_of_mem_plotCalls hmap hc
  exact littleEndian_pixelWord (genModel.inByte x y)

/-- A run over rows inside the image fills the canvas exactly, and the final check passes. -/
theorem directPlotter_artist {a b : ℕ} (hab : a ≤ b) (hb : b ≤ map.pixelHeight) :
    map.directPlotter (artist genModel map.pixelWidth a b)
        ⟨List.replicate (map.pixelWidth * (b - a)) 0, 0⟩ a b =
      .ok ⟨wordsOf genModel (map.plotCalls a b), map.pixelWidth * (b - a)⟩ := by
  have hlen : (map.plotCalls a b).length = map.pixelWidth * (b - a) := by
    rw [map.length_plotCalls, Nat.min_eq_left hb]
  have hfold := foldl_plot genModel (map.plotCalls a b) []
  simp only [List.nil_append, List.length_nil, hlen, Nat.zero_add] at hfold
  have hfinal : ((map.pixelWidth * (b - a) : ℕ) : ℤ) = map.pixelWidth * ((b : ℤ) - a) := by
    push_cast [Nat.cast_sub hab]
    rfl
  unfold RegionMap.directPlotter artist
  simp only [hfold, finish, hfinal]
  simp

end GenModelArtist
end RandomArt
