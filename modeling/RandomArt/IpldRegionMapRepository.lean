import RandomArt.BlockLayout
import RandomArt.RegionMap

/-!
# The region map repository

A director fills a builder, which commits the coordinates as blocks and a root. A
region map is loaded from its root. Serialization and the blockstore are lossless
parameters.
-/

namespace RandomArt.IpldRegionMapRepository

open RegionMapUtils

inductive RefPoint where
  | center
  | topLeft
  deriving DecidableEq

structure RegionBoundaryFractions where
  topN : ℤ
  topD : ℤ
  bottomN : ℤ
  bottomD : ℤ
  leftN : ℤ
  leftD : ℤ
  rightN : ℤ
  rightD : ℤ
  deriving DecidableEq

namespace RegionBoundaryFractions

def leftOffset (bounds : RegionBoundaryFractions) : ℚ := bounds.leftN / bounds.leftD

def bottomOffset (bounds : RegionBoundaryFractions) : ℚ := bounds.bottomN / bounds.bottomD

/-- The borders as numbers. -/
def boundary (bounds : RegionBoundaryFractions) : RegionBoundaries where
  top := bounds.topN / bounds.topD
  bottom := bounds.bottomOffset
  left := bounds.leftOffset
  right := bounds.rightN / bounds.rightD

end RegionBoundaryFractions

def fractionifyBounds (bounds : RegionBoundaries) : RegionBoundaryFractions where
  topN := bounds.top.num
  topD := bounds.top.den
  bottomN := bounds.bottom.num
  bottomD := bounds.bottom.den
  leftN := bounds.left.num
  leftD := bounds.left.den
  rightN := bounds.right.num
  rightD := bounds.right.den

/-- The root of a stored region map. -/
structure RegionMapModel (Cid : Type) where
  pixelRef : RefPoint
  pixelWidth : ℤ
  pixelHeight : ℤ
  projected : Bool
  regionBoundary : RegionBoundaryFractions
  codings : RowColFraction → DimensionCoding
  palettes : List Cid
  data : List Cid

/-- Lossless serialization, whose CIDs tell different bytes apart, over a blockstore that
keeps what is put into it. -/
structure BlockStorage (Cid Bytes Store : Type) where
  encodeData : DataBlock → Cid × Bytes
  decodeData : Bytes → Option DataBlock
  encodeModel : RegionMapModel Cid → Cid × Bytes
  decodeModel : Bytes → Option (RegionMapModel Cid)
  put : Store → Cid → Bytes → Store
  get : Store → Cid → Option Bytes
  decode_data : ∀ block, decodeData (encodeData block).2 = some block
  decode_model : ∀ model, decodeModel (encodeModel model).2 = some model
  address_data : ∀ a b, (encodeData a).1 = (encodeData b).1 → (encodeData a).2 = (encodeData b).2
  address_model : ∀ a model, (encodeData a).1 = (encodeModel model).1 →
    (encodeData a).2 = (encodeModel model).2
  get_put : ∀ store cid bytes, get (put store cid bytes) cid = some bytes
  get_put_ne : ∀ store cid cid' bytes, cid' ≠ cid →
    get (put store cid bytes) cid' = get store cid'

/-- The builder; a list that was never set is none. -/
structure RegionMapModelBuilder where
  pixelRef : RefPoint
  pixelWidth : ℤ
  pixelHeight : ℤ
  regionBoundaryFractions : RegionBoundaryFractions
  rowOrderX : Option (List ℚ)
  rowOrderY : Option (List ℚ)

inductive BuilderCall where
  | pixelRef (pixelRef : RefPoint)
  | imageSize (pixelWidth pixelHeight : ℤ)
  | regionBoundary (boundary : RegionBoundaries)
  | regionBoundaryFractions (boundary : RegionBoundaryFractions)
  | xByRows (rowOrderX : List ℚ)
  | yByRows (rowOrderY : List ℚ)

inductive CommitError where
  | invalidFraction
  | block (error : BlockError)
  | dataPointsUndefined
  | imageDimensionsUndefined
  deriving DecidableEq

namespace RegionMapModelBuilder

def start : RegionMapModelBuilder :=
  ⟨.center, -1, -1, ⟨0, 0, 0, 0, 0, 0, 0, 0⟩, none, none⟩

def perform (builder : RegionMapModelBuilder) : BuilderCall → RegionMapModelBuilder
  | .pixelRef pixelRef => { builder with pixelRef }
  | .imageSize pixelWidth pixelHeight => { builder with pixelWidth, pixelHeight }
  | .regionBoundary boundary =>
    { builder with regionBoundaryFractions := fractionifyBounds boundary }
  | .regionBoundaryFractions boundary => { builder with regionBoundaryFractions := boundary }
  | .xByRows rowOrderX => { builder with rowOrderX := some rowOrderX }
  | .yByRows rowOrderY => { builder with rowOrderY := some rowOrderY }

/-- The builder after a director's calls. -/
def direct (director : List BuilderCall) : RegionMapModelBuilder := director.foldl perform start

def isProjected (builder : RegionMapModelBuilder) : Except CommitError Bool :=
  match builder.rowOrderX, builder.rowOrderY with
  | some rowOrderX, some rowOrderY =>
    if builder.pixelWidth = -1 ∨ builder.pixelHeight = -1 then .error .imageDimensionsUndefined
    else .ok (decide ((rowOrderX.length : ℤ) = builder.pixelWidth ∧
      (rowOrderY.length : ℤ) = builder.pixelHeight))
  | _, _ => .error .dataPointsUndefined

end RegionMapModelBuilder

/-- The size of the blocks that are written. -/
def blockWriteSize : ChunkSize := ⟨512 * 1024, by decide⟩

/-- The palettes of the four lists of a builder. -/
def paletteMaybes (rows cols : FractionList) (name : RowColFraction) : PaletteMaybe :=
  paletteMaybe (namedLists rows cols name)

def palettesOf (rows : RowColFraction → PaletteMaybe) (n d : RowColFraction) : FractionList where
  N := (rows n).palette
  D := (rows d).palette

def dataOf (rows : RowColFraction → PaletteMaybe) (n d : RowColFraction) : FractionList where
  N := (rows n).data
  D := (rows d).data

variable {Cid Bytes Store : Type} (stream : BitStream) (storage : BlockStorage Cid Bytes Store)

def commitData (store : Store) (blocks : List DataBlock) : List Cid × Store :=
  (blocks.map fun block => (storage.encodeData block).1,
    blocks.foldl (fun store block =>
      storage.put store (storage.encodeData block).1 (storage.encodeData block).2) store)

def commitRoot (store : Store) (source : RegionMapModel Cid) : Cid × Store :=
  ((storage.encodeModel source).1,
    storage.put store (storage.encodeModel source).1 (storage.encodeModel source).2)

/-- Store the blocks and the root of a builder. A boundary without a denominator, whose offset is
no number, is refused here. -/
def commit (builder : RegionMapModelBuilder) (store : Store) :
    Except CommitError (Cid × Store) := do
  let bounds := builder.regionBoundaryFractions
  if bounds.leftD = 0 ∨ bounds.bottomD = 0 then throw .invalidFraction
  let rows := fractionifyList (builder.rowOrderX.getD []) bounds.leftOffset
  let cols := fractionifyList (builder.rowOrderY.getD []) bounds.bottomOffset
  let maybes := paletteMaybes rows cols
  let paletteBlocks ← (blockify stream (palettesOf maybes .rowsN .rowsD)
    (palettesOf maybes .colsN .colsD) blockWriteSize
    fun name => (maybes name).paletteWordLen).mapError .block
  let dataBlocks ← (blockify stream (dataOf maybes .rowsN .rowsD)
    (dataOf maybes .colsN .colsD) blockWriteSize
    fun name => (maybes name).baseWordLen).mapError .block
  let projected ← builder.isProjected
  let (palettes, store) := commitData storage store paletteBlocks
  let (data, store) := commitData storage store dataBlocks
  return commitRoot storage store {
    pixelRef := builder.pixelRef
    pixelWidth := builder.pixelWidth
    pixelHeight := builder.pixelHeight
    projected
    regionBoundary := bounds
    codings := fun name => ⟨(maybes name).paletteWordLen, (maybes name).baseWordLen⟩
    palettes
    data }

def importMap (store : Store) (director : List BuilderCall) : Except CommitError (Cid × Store) :=
  commit stream storage (RegionMapModelBuilder.direct director) store

/-- A region map from its root and its blocks. -/
def ipldRegionMap (regionMap : RegionMapModel Cid) (paletteBlocks dataBlocks : List DataBlock) :
    RegionMap (Option ℚ) :=
  let unblock (name : RowColFraction) : Palette :=
    unblockify stream dataBlocks paletteBlocks (· name) (regionMap.codings name)
  { pixelHeight := regionMap.pixelHeight.toNat
    pixelWidth := regionMap.pixelWidth.toNat
    pixelSize := 1
    columnOrderedXCoordinates :=
      rationalize (unblock .rowsN) (unblock .rowsD) regionMap.regionBoundary.leftOffset
    columnOrderedYCoordinates :=
      rationalize (unblock .colsN) (unblock .colsD) regionMap.regionBoundary.bottomOffset
    isUniform := regionMap.projected
    regionBoundary := regionMap.regionBoundary.boundary }

def loadBlock (store : Store) (cid : Cid) : Option DataBlock :=
  (storage.get store cid).bind storage.decodeData

/-- The stored region map; none where the blockstore or the decoding fails. -/
def load (store : Store) (cid : Cid) : Option (RegionMap (Option ℚ)) := do
  let rootObject ← (storage.get store cid).bind storage.decodeModel
  let paletteBlocks ← rootObject.palettes.mapM (loadBlock storage store)
  let dataBlocks ← rootObject.data.mapM (loadBlock storage store)
  return ipldRegionMap stream rootObject paletteBlocks dataBlocks

end RandomArt.IpldRegionMapRepository
