import RandomArt.BitWords
import Mathlib.Algebra.Order.Floor.Div
import Mathlib.Algebra.Order.Field.Rat
import Mathlib.Data.Nat.Size
import Mathlib.Data.Rat.Lemmas

/-!
# Packing coordinates into blocks

Coordinates become numerators and denominators, each list of them is coded through
a palette where that is shorter, cut into blocks and written as bit streams. Reading
takes the blocks apart again. The bit stream itself is a parameter with the
behaviour the packing relies on.
-/

namespace RandomArt.RegionMapUtils

open BitWords

/-- The four lists of a region map. -/
inductive RowColFraction where
  | rowsN
  | rowsD
  | colsN
  | colsD
  deriving DecidableEq

structure FractionList where
  N : List ℤ
  D : List ℤ

def fractionifyList (source : List ℚ) (offset : ℚ) : FractionList where
  N := source.map fun x => (x - offset).num
  D := source.map fun x => ((x - offset).den : ℤ)

/-- Length of a number's binary text, sign included. -/
def binaryLength (n : ℤ) : ℕ := (if n < 0 then 1 else 0) + max 1 n.natAbs.size

structure PaletteMaybe where
  data : List ℤ
  palette : List ℤ
  paletteWordLen : ℕ
  baseWordLen : ℕ

def paletteMaybe (src : List ℤ) : PaletteMaybe :=
  let asSet := src.eraseDups
  let srcMax := asSet.foldl (fun most value => max most |value|) (-1)
  let paletteWordLen := max (binaryLength asSet.length) 1
  let baseWordLen := binaryLength srcMax
  let newSize := src.length * paletteWordLen + asSet.length * baseWordLen
  let baseSize := src.length * baseWordLen
  if newSize > baseSize then ⟨src, [], 0, baseWordLen⟩
  else ⟨src.map fun value => (asSet.idxOf value : ℤ), asSet, baseWordLen, paletteWordLen⟩

inductive BlockError where
  | wordSizeNotPositive (name : RowColFraction)
  | wordSizeNotZero (name : RowColFraction)
  deriving DecidableEq

/-- Bytes that a list takes. -/
def measureSize (name : RowColFraction) (numbers : List ℤ) (wordSize : ℕ) :
    Except BlockError ℕ :=
  if 0 < numbers.length then
    if wordSize = 0 then .error (.wordSizeNotPositive name)
    else .ok ((wordSize * numbers.length) ⌈/⌉ 8)
  else if wordSize ≠ 0 then .error (.wordSizeNotZero name)
  else .ok ((wordSize * numbers.length) ⌈/⌉ 8)

def BLOCK_OVERHEAD : ℕ := 16

/-- A block size that leaves room for data. -/
structure ChunkSize where
  bytes : ℕ
  above : BLOCK_OVERHEAD < bytes

abbrev DataBlock := RowColFraction → List UInt8

/-- A writer and a reader of words, most significant bit first, padded with zero bits to
whole bytes. -/
structure BitStream where
  writeWords : List ℤ → ℕ → List UInt8
  readWords : List UInt8 → ℕ → ℕ → List ℕ
  writes : ∀ (words : List ℤ) (wordSize : ℕ), 0 < wordSize →
    (∀ x ∈ words, 0 ≤ x ∧ x < 2 ^ wordSize) →
    writeWords words wordSize = (packWords wordSize 8 (words.map Int.toNat)).map UInt8.ofNat
  reads : ∀ (bytes : List UInt8) (count wordSize : ℕ), 0 < wordSize →
    count * wordSize ≤ 8 * bytes.length →
    readWords bytes count wordSize =
      BitWords.readWords wordSize count (streamBits 8 (bytes.map UInt8.toNat))

variable (stream : BitStream)

def translate (input : List ℤ) (wordSize : ℕ) : List UInt8 :=
  if input.length = 0 ∨ wordSize = 0 then [] else stream.writeWords input wordSize

def slice (xs : List ℤ) (first next : ℕ) : List ℤ := (xs.drop first).take (next - first)

/-- The number of elements that go into each block. -/
def chunkLength (length minBlockCount blockCount : ℕ) : ℕ :=
  max ((2 * length + minBlockCount) / (2 * minBlockCount)) (length ⌈/⌉ blockCount)

/-- The blocks from the given offsets on. -/
def cutBlocks (lists : RowColFraction → List ℤ) (wordSizes chunks : RowColFraction → ℕ) :
    ℕ → (RowColFraction → ℕ) → List DataBlock
  | 0, _ => []
  | remaining + 1, offsets =>
    (fun name => translate stream
      (slice (lists name) (offsets name) (offsets name + chunks name)) (wordSizes name)) ::
      cutBlocks lists wordSizes chunks remaining fun name => offsets name + chunks name

/-- The four lists under their names. -/
def namedLists (rows cols : FractionList) : RowColFraction → List ℤ
  | .rowsN => rows.N
  | .rowsD => rows.D
  | .colsN => cols.N
  | .colsD => cols.D

def minBlockCount (totalSize : ℕ) (chunkSize : ChunkSize) : ℕ :=
  totalSize ⌈/⌉ (chunkSize.bytes - BLOCK_OVERHEAD)

/-- One block more than needed as soon as one does not suffice. -/
def blockCount (minBlockCount : ℕ) : ℕ :=
  if minBlockCount > 1 then minBlockCount + 1 else minBlockCount

def blockify (rows cols : FractionList) (chunkSize : ChunkSize)
    (wordSizes : RowColFraction → ℕ) : Except BlockError (List DataBlock) := do
  let rowsNSize ← measureSize .rowsN rows.N (wordSizes .rowsN)
  let rowsDSize ← measureSize .rowsD rows.D (wordSizes .rowsD)
  let colsNSize ← measureSize .colsN cols.N (wordSizes .colsN)
  let colsDSize ← measureSize .colsD cols.D (wordSizes .colsD)
  let totalSize := rowsNSize + rowsDSize + colsNSize + colsDSize
  if totalSize = 0 then return []
  let least := minBlockCount totalSize chunkSize
  let lists := namedLists rows cols
  return cutBlocks stream lists wordSizes
    (fun name => chunkLength (lists name).length least (blockCount least))
    (blockCount least) fun _ => 0

/-- Numbers as read back; none stands for undefined. -/
abbrev Palette := List (Option ℕ)

def hydrate (bytes : List UInt8) (palette : Palette) (wordSize : ℕ) : Palette :=
  if bytes.length = 0 ∨ wordSize = 0 then []
  else
    let unpacked := stream.readWords bytes (8 * bytes.length / wordSize) wordSize
    if 0 < palette.length then unpacked.map fun x => palette[x]?.join
    else unpacked.map some

structure DimensionCoding where
  paletteWordLen : ℕ
  baseWordLen : ℕ
  deriving DecidableEq

def unblockify (dataBlocks paletteBlocks : List DataBlock) (selector : DataBlock → List UInt8)
    (coding : DimensionCoding) : Palette :=
  let paletteArray := if 0 < coding.paletteWordLen then
      (paletteBlocks.map selector).flatMap fun blockBytes =>
        hydrate stream blockBytes [] coding.paletteWordLen
    else []
  (dataBlocks.map selector).flatMap fun blockBytes =>
    hydrate stream blockBytes paletteArray coding.baseWordLen

/-- One coordinate from its fraction; none stands for NaN. -/
def rational (n d : Option ℕ) (offset : ℚ) : Option ℚ :=
  match d with
  | none => none
  | some 0 | some 1 => n.map fun n => (n : ℚ) + offset
  | some d => n.map fun n => (n : ℚ) / d + offset

def rationalize (N D : Palette) (offset : ℚ) : List (Option ℚ) :=
  (List.range N.length).map fun idx => rational N[idx]?.join D[idx]?.join offset

end RandomArt.RegionMapUtils
