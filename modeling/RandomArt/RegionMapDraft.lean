import RandomArt.FailingSteps
import RandomArt.JsNumber
import RandomArt.RegionMapRoundTrip

/-!
# Drafts of region maps

A director may call the builder in any order, any number of times and with any numbers. A commit
encodes the lists, looks at the sizes only to see whether the map is projected, and then puts one
block after another, the root last. The root is checked against its schema when the other blocks
have been put. What the fraction and bit stream libraries make of numbers that are not finite is a
parameter. For finite numbers, and integers where the schema has them, a draft is committed as
the builder is.
-/

namespace RandomArt.IpldRegionMapRepository

open RegionMapUtils FallibleFold

inductive Boundary where
  | top
  | bottom
  | left
  | right

/-- The lists of a map in blocks, of which at least one has data. -/
structure EncodedLists where
  codings : RowColFraction → DimensionCoding
  paletteBlocks : List DataBlock
  dataBlocks : List DataBlock
  dataBlocks_ne_nil : dataBlocks ≠ []

/-- What becomes of numbers that are not finite: the numerator and denominator of one, unless the
library throws, and the blocks of coordinates of which one is such a number over its border. -/
structure OddNumbers where
  fraction : JsNumber → Option (JsNumber × JsNumber)
  encodeLists : List JsNumber → List JsNumber → JsNumber → JsNumber →
    Except CommitError EncodedLists

/-- A call on the builder with any numbers. Borders come as numbers or as fractions. -/
inductive DirectorCall where
  | pixelRef (pixelRef : RefPoint)
  | imageSize (pixelWidth pixelHeight : JsNumber)
  | regionBoundary (boundary : Boundary → JsNumber)
  | regionBoundaryFractions (boundary : Boundary → JsNumber × JsNumber)
  | xByRows (rowOrderX : List JsNumber)
  | yByRows (rowOrderY : List JsNumber)

/-- What a director has told the builder; a list that was never set is none. -/
structure RegionMapDraft where
  pixelRef : RefPoint
  pixelWidth : JsNumber
  pixelHeight : JsNumber
  boundaryFractions : Boundary → JsNumber × JsNumber
  rowOrderX : Option (List JsNumber)
  rowOrderY : Option (List JsNumber)

inductive ImportError where
  | builder (error : CommitError)
  | invalidTypedForm
  deriving DecidableEq

variable (odd : OddNumbers)

def OddNumbers.fractionOf : JsNumber → Except CommitError (JsNumber × JsNumber)
  | .finite q => .ok (.finite q.num, .finite q.den)
  | x =>
    match odd.fraction x with
    | none => .error .invalidFraction
    | some fraction => .ok fraction

def OddNumbers.fractionifyBounds (boundary : Boundary → JsNumber) :
    Except CommitError (Boundary → JsNumber × JsNumber) := do
  let top ← odd.fractionOf (boundary .top)
  let bottom ← odd.fractionOf (boundary .bottom)
  let left ← odd.fractionOf (boundary .left)
  let right ← odd.fractionOf (boundary .right)
  return fun
    | .top => top
    | .bottom => bottom
    | .left => left
    | .right => right

/-- The distances of coordinates from their border, if all are finite. -/
def distances (source : List JsNumber) (offset : JsNumber) : Option (List ℚ) :=
  source.mapM fun x =>
    match x.sub offset with
    | .finite q => some q
    | _ => none

/-- Borders that are numbers, and borders whose fractions are of integers. -/
def ofBoundaries (bounds : RegionBoundaries) : Boundary → JsNumber
  | .top => .finite bounds.top
  | .bottom => .finite bounds.bottom
  | .left => .finite bounds.left
  | .right => .finite bounds.right

def ofFractions (bounds : RegionBoundaryFractions) : Boundary → JsNumber × JsNumber
  | .top => (.finite bounds.topN, .finite bounds.topD)
  | .bottom => (.finite bounds.bottomN, .finite bounds.bottomD)
  | .left => (.finite bounds.leftN, .finite bounds.leftD)
  | .right => (.finite bounds.rightN, .finite bounds.rightD)

namespace RegionMapDraft

def start : RegionMapDraft :=
  ⟨.center, .finite (-1), .finite (-1), fun _ => (.finite 0, .finite 0), none, none⟩

def perform (draft : RegionMapDraft) : DirectorCall → Except CommitError RegionMapDraft
  | .pixelRef pixelRef => .ok { draft with pixelRef }
  | .imageSize pixelWidth pixelHeight => .ok { draft with pixelWidth, pixelHeight }
  | .regionBoundary boundary =>
    (odd.fractionifyBounds boundary).map fun boundaryFractions => { draft with boundaryFractions }
  | .regionBoundaryFractions boundaryFractions => .ok { draft with boundaryFractions }
  | .xByRows rowOrderX => .ok { draft with rowOrderX := some rowOrderX }
  | .yByRows rowOrderY => .ok { draft with rowOrderY := some rowOrderY }

def direct (director : List DirectorCall) : Except CommitError RegionMapDraft :=
  runAll (perform odd) director start

def leftOffset (draft : RegionMapDraft) : JsNumber :=
  (draft.boundaryFractions .left).1.div (draft.boundaryFractions .left).2

def bottomOffset (draft : RegionMapDraft) : JsNumber :=
  (draft.boundaryFractions .bottom).1.div (draft.boundaryFractions .bottom).2

/-- The lists, once they and the image size have been set. -/
def defined (draft : RegionMapDraft) : Except CommitError (List JsNumber × List JsNumber) :=
  match draft.rowOrderX, draft.rowOrderY with
  | some rowOrderX, some rowOrderY =>
    if draft.pixelWidth = .finite (-1) ∨ draft.pixelHeight = .finite (-1) then
      .error .imageDimensionsUndefined
    else .ok (rowOrderX, rowOrderY)
  | _, _ => .error .dataPointsUndefined

def isProjected (draft : RegionMapDraft) : Except CommitError Bool :=
  draft.defined.map fun (rowOrderX, rowOrderY) =>
    decide (.finite rowOrderX.length = draft.pixelWidth ∧
      .finite rowOrderY.length = draft.pixelHeight)

def isComplete (draft : RegionMapDraft) : Except CommitError Bool :=
  draft.defined.map fun (rowOrderX, rowOrderY) =>
    let pixelCount := draft.pixelWidth.mul draft.pixelHeight
    decide (.finite rowOrderX.length = pixelCount ∧ .finite rowOrderY.length = pixelCount)

end RegionMapDraft

variable {Cid Bytes Store : Type} (stream : BitStream) (storage : BlockStorage Cid Bytes Store)

section Encoding

variable {rows cols : FractionList}

/-- Lists that pass the checks for the palettes have data. -/
theorem dataBlocks_ne_nil {paletteBlocks dataBlocks : List DataBlock}
    (hpalettes : blockify stream (palettesOf (paletteMaybes rows cols) .rowsN .rowsD)
      (palettesOf (paletteMaybes rows cols) .colsN .colsD) blockWriteSize
      (paletteWordSizes rows cols) = .ok paletteBlocks)
    (hdata : blockify stream (dataOf (paletteMaybes rows cols) .rowsN .rowsD)
      (dataOf (paletteMaybes rows cols) .colsN .colsD) blockWriteSize
      (dataWordSizes rows cols) = .ok dataBlocks) : dataBlocks ≠ [] := by
  have hnone := noneEmpty_of_blockify stream hpalettes
  rw [blockify_data stream hnone, Except.ok.injEq] at hdata
  have hcover := length_le_blocksFor_mul _ _ blockWriteSize (sizesMatch_dataLists hnone) .rowsN
  have hlength : 0 < (dataLists rows cols .rowsN).length := by
    rw [length_dataLists]
    exact List.length_pos_of_ne_nil (hnone .rowsN)
  rw [← hdata, plannedBlocks, cutBlocks_eq, ne_eq, List.map_eq_nil_iff, List.range_eq_nil]
  intro hzero
  rw [hzero, Nat.zero_mul] at hcover
  omega

variable (rows cols)

def encodeFractions : Except BlockError EncodedLists :=
  match hpalettes : blockify stream (palettesOf (paletteMaybes rows cols) .rowsN .rowsD)
      (palettesOf (paletteMaybes rows cols) .colsN .colsD) blockWriteSize
      (paletteWordSizes rows cols) with
  | .error error => .error error
  | .ok paletteBlocks =>
    match hdata : blockify stream (dataOf (paletteMaybes rows cols) .rowsN .rowsD)
        (dataOf (paletteMaybes rows cols) .colsN .colsD) blockWriteSize
        (dataWordSizes rows cols) with
    | .error error => .error error
    | .ok dataBlocks => .ok {
        codings := fun name => ⟨paletteWordSizes rows cols name, dataWordSizes rows cols name⟩
        paletteBlocks
        dataBlocks
        dataBlocks_ne_nil := dataBlocks_ne_nil stream hpalettes hdata }

/-- The lists of fractions are encoded when all of them hold something. -/
theorem encodeFractions_isOk_iff :
    (∃ encoded, encodeFractions stream rows cols = .ok encoded) ↔ NoneEmpty rows cols := by
  constructor
  · rintro ⟨encoded, h⟩
    rw [encodeFractions] at h
    split at h
    · cases h
    · next hpalettes => exact noneEmpty_of_blockify stream hpalettes
  · intro hnone
    rw [encodeFractions]
    split
    · next h => cases (blockify_palettes stream hnone).symm.trans h
    · split
      · next h => cases (blockify_data stream hnone).symm.trans h
      · exact ⟨_, rfl⟩

end Encoding

/-- An entry is put into the blockstore. The entries that were put are listed in order. -/
def put (entry : Cid × Bytes) : Failing ImportError (List (Cid × Bytes)) PUnit :=
  modify (· ++ [entry])

def putBlock (block : DataBlock) : Failing ImportError (List (Cid × Bytes)) Cid := do
  put (storage.encodeData block)
  return (storage.encodeData block).1

def integers (fraction : JsNumber × JsNumber) : Option (ℤ × ℤ) := do
  let n ← fraction.1.toInt
  let d ← fraction.2.toInt
  return (n, d)

namespace RegionMapDraft

def encodeLists (draft : RegionMapDraft) : Except CommitError EncodedLists :=
  let rowOrderX := draft.rowOrderX.getD []
  let rowOrderY := draft.rowOrderY.getD []
  match distances rowOrderX draft.leftOffset, distances rowOrderY draft.bottomOffset with
  | some rows, some cols =>
    (encodeFractions stream (fractionifyList rows 0) (fractionifyList cols 0)).mapError .block
  | _, _ => odd.encodeLists rowOrderX rowOrderY draft.leftOffset draft.bottomOffset

/-- The root as its schema has it, with integers only. -/
def toRepresentation (draft : RegionMapDraft) (projected : Bool)
    (codings : RowColFraction → DimensionCoding) (palettes data : List Cid) :
    Option (RegionMapModel Cid) := do
  let pixelWidth ← draft.pixelWidth.toInt
  let pixelHeight ← draft.pixelHeight.toInt
  let top ← integers (draft.boundaryFractions .top)
  let bottom ← integers (draft.boundaryFractions .bottom)
  let left ← integers (draft.boundaryFractions .left)
  let right ← integers (draft.boundaryFractions .right)
  return {
    pixelRef := draft.pixelRef
    pixelWidth
    pixelHeight
    projected
    regionBoundary := ⟨top.1, top.2, bottom.1, bottom.2, left.1, left.2, right.1, right.2⟩
    codings
    palettes
    data }

def commit (draft : RegionMapDraft) : Failing ImportError (List (Cid × Bytes)) Cid := do
  let encoded ← MonadExcept.ofExcept ((draft.encodeLists odd stream).mapError .builder)
  let projected ← MonadExcept.ofExcept (draft.isProjected.mapError .builder)
  let palettes ← encoded.paletteBlocks.mapM (putBlock storage)
  let data ← encoded.dataBlocks.mapM (putBlock storage)
  match draft.toRepresentation projected encoded.codings palettes data with
  | none => throw .invalidTypedForm
  | some root =>
    put (storage.encodeModel root)
    return (storage.encodeModel root).1

def importMap (director : List DirectorCall) : Failing ImportError (List (Cid × Bytes)) Cid := do
  let draft ← MonadExcept.ofExcept ((direct odd director).mapError .builder)
  draft.commit odd stream storage

section Runs

variable {odd stream storage} {draft : RegionMapDraft}

theorem exec_mapM_putBlock (blocks : List DataBlock) (puts : List (Cid × Bytes)) :
    Failing.exec (blocks.mapM (putBlock storage)) puts =
      (.ok (blocks.map fun block => (storage.encodeData block).1),
        puts ++ blocks.map storage.encodeData) := by
  induction blocks generalizing puts with
  | nil => simp
  | cons block blocks ih =>
    rw [List.mapM_cons, Failing.exec_bind, putBlock, Failing.exec_bind, put, Failing.exec_modify]
    simp only [Failing.exec_pure, Failing.exec_bind, ih, List.map_cons, List.append_assoc,
      List.singleton_append]

/-- A commit that gets to its blocks puts all of them, and the root if that fits its schema. -/
theorem exec_commit {encoded : EncodedLists} {projected : Bool}
    (hencoded : draft.encodeLists odd stream = .ok encoded)
    (hprojected : draft.isProjected = .ok projected) (puts : List (Cid × Bytes)) :
    Failing.exec (draft.commit odd stream storage) puts =
      match draft.toRepresentation projected encoded.codings
        (encoded.paletteBlocks.map fun block => (storage.encodeData block).1)
        (encoded.dataBlocks.map fun block => (storage.encodeData block).1) with
      | none => (.error .invalidTypedForm, puts ++ encoded.paletteBlocks.map storage.encodeData ++
          encoded.dataBlocks.map storage.encodeData)
      | some root => (.ok (storage.encodeModel root).1,
          puts ++ encoded.paletteBlocks.map storage.encodeData ++
            encoded.dataBlocks.map storage.encodeData ++ [storage.encodeModel root]) := by
  rw [commit, hencoded, hprojected, Failing.exec_bind, Failing.exec_ofExcept, Except.mapError]
  simp only [Failing.exec_bind, Failing.exec_ofExcept, Except.mapError, exec_mapM_putBlock]
  split
  · rfl
  · rw [Failing.exec_bind, put, Failing.exec_modify]
    rfl

theorem exec_commit_encodeError {error : CommitError}
    (hencoded : draft.encodeLists odd stream = .error error) (puts : List (Cid × Bytes)) :
    Failing.exec (draft.commit odd stream storage) puts = (.error (.builder error), puts) := by
  rw [commit, hencoded, Failing.exec_bind, Failing.exec_ofExcept, Except.mapError]

theorem exec_commit_undefined {encoded : EncodedLists} {error : CommitError}
    (hencoded : draft.encodeLists odd stream = .ok encoded)
    (hprojected : draft.isProjected = .error error) (puts : List (Cid × Bytes)) :
    Failing.exec (draft.commit odd stream storage) puts = (.error (.builder error), puts) := by
  rw [commit, hencoded, hprojected, Failing.exec_bind, Failing.exec_ofExcept, Except.mapError]
  simp only [Failing.exec_bind, Failing.exec_ofExcept, Except.mapError]

end Runs

section Typed

/-- The draft of a builder whose numbers are finite, and whose sizes and fractions are integers. -/
def ofBuilder (builder : RegionMapModelBuilder) : RegionMapDraft where
  pixelRef := builder.pixelRef
  pixelWidth := .finite builder.pixelWidth
  pixelHeight := .finite builder.pixelHeight
  boundaryFractions := ofFractions builder.regionBoundaryFractions
  rowOrderX := builder.rowOrderX.map (·.map .finite)
  rowOrderY := builder.rowOrderY.map (·.map .finite)

def ofCall : BuilderCall → DirectorCall
  | .pixelRef pixelRef => .pixelRef pixelRef
  | .imageSize pixelWidth pixelHeight => .imageSize (.finite pixelWidth) (.finite pixelHeight)
  | .regionBoundary boundary => .regionBoundary (ofBoundaries boundary)
  | .regionBoundaryFractions boundary => .regionBoundaryFractions (ofFractions boundary)
  | .xByRows rowOrderX => .xByRows (rowOrderX.map .finite)
  | .yByRows rowOrderY => .yByRows (rowOrderY.map .finite)

theorem fractionifyBounds_ofBoundaries (bounds : RegionBoundaries) :
    odd.fractionifyBounds (ofBoundaries bounds) = .ok (ofFractions (fractionifyBounds bounds)) := by
  simp only [OddNumbers.fractionifyBounds, ofBoundaries, OddNumbers.fractionOf, bind, Except.bind,
    pure, Except.pure, Except.ok.injEq]
  funext border
  cases border <;> rfl

theorem perform_ofCall (builder : RegionMapModelBuilder) (call : BuilderCall) :
    perform odd (ofBuilder builder) (ofCall call) = .ok (ofBuilder (builder.perform call)) := by
  cases call with
  | regionBoundary boundary =>
    rw [ofCall, perform, fractionifyBounds_ofBoundaries]
    rfl
  | _ => rfl

/-- A director of finite numbers leaves the draft of its builder. -/
theorem direct_ofCall (director : List BuilderCall) :
    direct odd (director.map ofCall) = .ok (ofBuilder (RegionMapModelBuilder.direct director)) := by
  have hrun : ∀ builder, runAll (perform odd) (director.map ofCall) (ofBuilder builder) =
      .ok (ofBuilder (director.foldl RegionMapModelBuilder.perform builder)) := by
    induction director with
    | nil => exact fun _ => rfl
    | cons call director ih =>
      intro builder
      rw [List.map_cons, runAll_cons_ok (perform_ofCall odd builder call), ih, List.foldl_cons]
  have hborders : ofFractions ⟨0, 0, 0, 0, 0, 0, 0, 0⟩ = fun _ => (.finite 0, .finite 0) := by
    funext border
    cases border <;> simp [ofFractions]
  have hstart : ofBuilder RegionMapModelBuilder.start = start := by
    simp [ofBuilder, RegionMapModelBuilder.start, start, hborders]
  rw [direct, ← hstart, hrun, RegionMapModelBuilder.direct]

variable {builder : RegionMapModelBuilder}

theorem distances_map_finite (qs : List ℚ) (offset : ℚ) :
    distances (qs.map .finite) (.finite offset) = some (qs.map (· - offset)) := by
  induction qs with
  | nil => rfl
  | cons q qs ih =>
    rw [distances] at ih ⊢
    rw [List.map_cons, List.mapM_cons, ih]
    rfl

theorem fractionifyList_sub (qs : List ℚ) (offset : ℚ) :
    fractionifyList (qs.map (· - offset)) 0 = fractionifyList qs offset := by
  simp [fractionifyList]

theorem encodeLists_ofBuilder (hleft : builder.regionBoundaryFractions.leftD ≠ 0)
    (hbottom : builder.regionBoundaryFractions.bottomD ≠ 0) :
    (ofBuilder builder).encodeLists odd stream =
      (encodeFractions stream builder.rows builder.cols).mapError .block := by
  have hgetD (qs : Option (List ℚ)) :
      (qs.map (·.map JsNumber.finite)).getD [] = (qs.getD []).map .finite := by
    cases qs <;> rfl
  have hleftOffset : (ofBuilder builder).leftOffset =
      .finite builder.regionBoundaryFractions.leftOffset := by
    simp [leftOffset, ofBuilder, ofFractions, JsNumber.div, hleft,
      RegionBoundaryFractions.leftOffset]
  have hbottomOffset : (ofBuilder builder).bottomOffset =
      .finite builder.regionBoundaryFractions.bottomOffset := by
    simp [bottomOffset, ofBuilder, ofFractions, JsNumber.div, hbottom,
      RegionBoundaryFractions.bottomOffset]
  have hx : (ofBuilder builder).rowOrderX.getD [] = (builder.rowOrderX.getD []).map .finite :=
    hgetD _
  have hy : (ofBuilder builder).rowOrderY.getD [] = (builder.rowOrderY.getD []).map .finite :=
    hgetD _
  simp only [encodeLists, hx, hy, hleftOffset, hbottomOffset, distances_map_finite,
    fractionifyList_sub]
  rfl

theorem isProjected_ofBuilder : (ofBuilder builder).isProjected = builder.isProjected := by
  have hundefined (n : ℤ) : (JsNumber.finite n = .finite (-1)) ↔ n = -1 := by
    rw [JsNumber.finite.injEq]
    norm_cast
  have hlength (k : ℕ) (n : ℤ) : (JsNumber.finite k = .finite n) ↔ (k : ℤ) = n := by
    rw [JsNumber.finite.injEq]
    norm_cast
  rw [isProjected, defined, RegionMapModelBuilder.isProjected, ofBuilder]
  cases builder.rowOrderX with
  | none => rfl
  | some xs =>
    cases builder.rowOrderY with
    | none => rfl
    | some ys =>
      simp only [Option.map_some, hundefined]
      split_ifs
      · rfl
      · simp only [Except.map, List.length_map, hlength]

/-- What was put into a store. -/
def stored (store : Store) (puts : List (Cid × Bytes)) : Store :=
  puts.foldl (fun store entry => storage.put store entry.1 entry.2) store

theorem commit_eq (hleft : builder.regionBoundaryFractions.leftD ≠ 0)
    (hbottom : builder.regionBoundaryFractions.bottomD ≠ 0) (store : Store) :
    IpldRegionMapRepository.commit stream storage builder store =
      ((encodeFractions stream builder.rows builder.cols).mapError .block).bind fun encoded =>
        builder.isProjected.map fun projected =>
          commitRoot storage (commitData storage (commitData storage store encoded.paletteBlocks).2
            encoded.dataBlocks).2
            (committedRoot storage builder encoded.paletteBlocks encoded.dataBlocks projected) := by
  rw [commit_bind stream storage hleft hbottom, encodeFractions]
  split
  · next hpalettes =>
    rw [hpalettes]
    rfl
  · next hpalettes =>
    split
    · next hdata =>
      simp only [hpalettes, hdata]
      rfl
    · next hdata =>
      simp only [hpalettes, hdata]
      rfl

/-- What makes a builder store a root that is marked as projected. -/
theorem exists_projected_iff (hleft : builder.regionBoundaryFractions.leftD ≠ 0)
    (hbottom : builder.regionBoundaryFractions.bottomD ≠ 0) (store : Store) :
    (∃ cid store' root,
      IpldRegionMapRepository.commit stream storage builder store = .ok (cid, store') ∧
        (storage.get store' cid).bind storage.decodeModel = some root ∧ root.projected = true) ↔
      NoneEmpty builder.rows builder.cols ∧ builder.isProjected = .ok true := by
  rw [commit_eq stream storage hleft hbottom, ← encodeFractions_isOk_iff stream]
  cases encodeFractions stream builder.rows builder.cols with
  | error error => simp [Except.mapError, Except.bind]
  | ok encoded =>
    cases builder.isProjected with
    | error error => simp [Except.mapError, Except.bind, Except.map]
    | ok projected =>
      have hstored (store : Store) (root : RegionMapModel Cid) :
          (storage.get (storage.put store (storage.encodeModel root).1 (storage.encodeModel root).2)
            (storage.encodeModel root).1).bind storage.decodeModel = some root := by
        rw [storage.get_put, Option.bind_some, storage.decode_model]
      simp only [Except.mapError, Except.bind, Except.map, Except.ok.injEq]
      constructor
      · rintro ⟨cid, store', root, hcommit, hroot, hprojected⟩
        obtain ⟨rfl, rfl⟩ := Prod.mk.inj hcommit
        rw [hstored, Option.some_inj] at hroot
        subst hroot
        exact ⟨⟨encoded, rfl⟩, hprojected⟩
      · rintro ⟨-, rfl⟩
        exact ⟨_, _, _, rfl, hstored _ _, rfl⟩

theorem toRepresentation_ofBuilder {encoded : EncodedLists} {projected : Bool}
    (h : encodeFractions stream builder.rows builder.cols = .ok encoded) :
    (ofBuilder builder).toRepresentation projected encoded.codings
        (encoded.paletteBlocks.map fun block => (storage.encodeData block).1)
        (encoded.dataBlocks.map fun block => (storage.encodeData block).1) =
      some (committedRoot storage builder encoded.paletteBlocks encoded.dataBlocks projected) := by
  have hcodings : encoded.codings = fun name =>
      ⟨paletteWordSizes builder.rows builder.cols name,
        dataWordSizes builder.rows builder.cols name⟩ := by
    rw [encodeFractions] at h
    split at h
    · cases h
    · split at h
      · cases h
      · cases h
        rfl
  have hint (n : ℤ) : (JsNumber.finite n).toInt = some n := JsNumber.toInt_eq_some_iff.mpr rfl
  simp only [toRepresentation, ofBuilder, ofFractions, integers, hint, hcodings]
  rfl

theorem stored_append (store : Store) (puts more : List (Cid × Bytes)) :
    stored storage store (puts ++ more) = stored storage (stored storage store puts) more :=
  List.foldl_append

theorem stored_encodeData (blocks : List DataBlock) (store : Store) :
    stored storage store (blocks.map storage.encodeData) = (commitData storage store blocks).2 := by
  rw [stored, List.foldl_map, commitData]

/-- The commit of a builder is the commit of its draft, applied to the store. -/
theorem commit_ofBuilder (hleft : builder.regionBoundaryFractions.leftD ≠ 0)
    (hbottom : builder.regionBoundaryFractions.bottomD ≠ 0) (store : Store) :
    (IpldRegionMapRepository.commit stream storage builder store).mapError .builder =
      (Failing.exec ((ofBuilder builder).commit odd stream storage) []).1.map fun cid =>
        (cid, stored storage store
          (Failing.exec ((ofBuilder builder).commit odd stream storage) []).2) := by
  have hlists := encodeLists_ofBuilder odd stream hleft hbottom
  rw [commit_eq stream storage hleft hbottom]
  cases hencoded : encodeFractions stream builder.rows builder.cols with
  | error error =>
    rw [hencoded] at hlists
    rw [exec_commit_encodeError hlists]
    rfl
  | ok encoded =>
    rw [hencoded] at hlists
    cases hprojected : builder.isProjected with
    | error error =>
      rw [exec_commit_undefined hlists (isProjected_ofBuilder.trans hprojected)]
      rfl
    | ok projected =>
      rw [exec_commit hlists (isProjected_ofBuilder.trans hprojected),
        toRepresentation_ofBuilder stream storage hencoded]
      simp only [List.nil_append, stored_append, stored_encodeData]
      rfl

end Typed

end RegionMapDraft

end RandomArt.IpldRegionMapRepository
