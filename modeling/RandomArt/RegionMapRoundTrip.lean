import RandomArt.IpldRegionMapRepository

/-!
# Importing and loading a region map

Loading gives back the lists with the zero words that the padding of their blocks
holds. The coordinates survive exactly when no numerator block holds such a word
and no other such word displaces a numerator or a denominator to a different
quotient.
-/

namespace RandomArt.IpldRegionMapRepository

open RegionMapUtils

variable {Cid Bytes Store : Type} (stream : BitStream) (storage : BlockStorage Cid Bytes Store)

section Storage

/-- The store answers a CID with these bytes. -/
def Holds (store : Store) (entry : Cid × Bytes) : Prop :=
  storage.get store entry.1 = some entry.2

variable {storage}

theorem Holds.put {store : Store} {entry other : Cid × Bytes} (h : Holds storage store entry)
    (hsame : entry.1 = other.1 → entry.2 = other.2) :
    Holds storage (storage.put store other.1 other.2) entry := by
  by_cases heq : entry.1 = other.1
  · rw [Holds, heq, storage.get_put, hsame heq]
  · rw [Holds, storage.get_put_ne _ _ _ _ heq]
    exact h

private theorem holds_foldl (blocks : List DataBlock) {store : Store} {entry : Cid × Bytes}
    (h : Holds storage store entry)
    (hsame : ∀ block, entry.1 = (storage.encodeData block).1 →
      entry.2 = (storage.encodeData block).2) :
    Holds storage (commitData storage store blocks).2 entry := by
  simp only [commitData]
  induction blocks generalizing store with
  | nil => exact h
  | cons block blocks ih => exact ih (h.put (hsame block))

theorem holds_commitData (blocks : List DataBlock) (store : Store) {block : DataBlock}
    (hblock : block ∈ blocks) :
    Holds storage (commitData storage store blocks).2 (storage.encodeData block) := by
  induction blocks generalizing store with
  | nil => cases hblock
  | cons first blocks ih =>
    rcases List.mem_cons.mp hblock with rfl | hblock
    · exact holds_foldl blocks (storage.get_put _ _ _) (storage.address_data block)
    · exact ih _ hblock

private theorem mapM_loadBlock {store : Store} {blocks : List DataBlock}
    (h : ∀ block ∈ blocks, Holds storage store (storage.encodeData block)) :
    (blocks.map fun block => (storage.encodeData block).1).mapM (loadBlock storage store) =
      some blocks := by
  induction blocks with
  | nil => rfl
  | cons block blocks ih =>
    have hload : loadBlock storage store (storage.encodeData block).1 = some block := by
      have hget : storage.get store _ = some _ := h block List.mem_cons_self
      rw [loadBlock, hget, Option.bind_some, storage.decode_data]
    rw [List.map_cons, List.mapM_cons, hload, ih fun b hb => h b (List.mem_cons_of_mem _ hb)]
    rfl

/-- What was committed under a root is loaded from it. -/
theorem load_commitRoot (store : Store) (paletteBlocks dataBlocks : List DataBlock)
    {root : RegionMapModel Cid}
    (hpalettes : root.palettes = paletteBlocks.map fun block => (storage.encodeData block).1)
    (hdata : root.data = dataBlocks.map fun block => (storage.encodeData block).1) :
    load stream storage
        (commitRoot storage (commitData storage (commitData storage store paletteBlocks).2
          dataBlocks).2 root).2
        (commitRoot storage (commitData storage (commitData storage store paletteBlocks).2
          dataBlocks).2 root).1 =
      some (ipldRegionMap stream root paletteBlocks dataBlocks) := by
  have hroot : storage.get (commitRoot storage (commitData storage
      (commitData storage store paletteBlocks).2 dataBlocks).2 root).2
      (commitRoot storage (commitData storage (commitData storage store paletteBlocks).2
        dataBlocks).2 root).1 = some (storage.encodeModel root).2 := storage.get_put _ _ _
  have hpaletteBlocks := mapM_loadBlock fun block hblock =>
    (holds_foldl dataBlocks (holds_commitData paletteBlocks store hblock)
      (storage.address_data block)).put (storage.address_model block root)
  have hdataBlocks := mapM_loadBlock fun block hblock =>
    (holds_commitData dataBlocks (commitData storage store paletteBlocks).2 hblock).put
      (storage.address_model block root)
  simp only [load, hroot, Option.bind_some, storage.decode_model, hpalettes, hdata, bind]
  simp only [commitRoot] at hpaletteBlocks hdataBlocks ⊢
  rw [hpaletteBlocks, Option.bind_some, hdataBlocks, Option.bind_some]
  rfl

end Storage

section Lists

variable (rows cols : FractionList)

/-- The lists and word sizes that the data blocks are made from. -/
def dataLists (name : RowColFraction) : List ℤ := (paletteMaybes rows cols name).data

def dataWordSizes (name : RowColFraction) : ℕ := (paletteMaybes rows cols name).baseWordLen

/-- The lists and word sizes that the palette blocks are made from. -/
def paletteLists (name : RowColFraction) : List ℤ := (paletteMaybes rows cols name).palette

def paletteWordSizes (name : RowColFraction) : ℕ := (paletteMaybes rows cols name).paletteWordLen

theorem namedLists_dataOf :
    namedLists (dataOf (paletteMaybes rows cols) .rowsN .rowsD)
      (dataOf (paletteMaybes rows cols) .colsN .colsD) = dataLists rows cols := by
  funext name
  cases name <;> rfl

theorem namedLists_palettesOf :
    namedLists (palettesOf (paletteMaybes rows cols) .rowsN .rowsD)
      (palettesOf (paletteMaybes rows cols) .colsN .colsD) = paletteLists rows cols := by
  funext name
  cases name <;> rfl

def NoneEmpty : Prop := ∀ name, namedLists rows cols name ≠ []

theorem length_dataLists (name : RowColFraction) :
    (dataLists rows cols name).length = (namedLists rows cols name).length :=
  length_paletteMaybe_data _

theorem lists_cases (name : RowColFraction) :
    (paletteLists rows cols name = [] ∧ dataLists rows cols name = namedLists rows cols name) ∨
    (paletteLists rows cols name = (namedLists rows cols name).eraseDups ∧
      dataLists rows cols name = (namedLists rows cols name).map fun value =>
        ((namedLists rows cols name).eraseDups.idxOf value : ℤ)) := by
  unfold paletteLists dataLists paletteMaybes
  rcases paletteMaybe_cases (namedLists rows cols name) with ⟨hnil, -, hsame⟩ |
    ⟨hvalues, -, hindices⟩
  · exact Or.inl ⟨hnil, hsame⟩
  · exact Or.inr ⟨hvalues, hindices⟩

variable {rows cols}

theorem sizesMatch_dataLists (h : NoneEmpty rows cols) :
    SizesMatch (dataLists rows cols) (dataWordSizes rows cols) := by
  intro name
  have hlen : 0 < (dataLists rows cols name).length := by
    rw [length_dataLists]
    exact List.length_pos_of_ne_nil (h name)
  exact ⟨fun _ => List.ne_nil_of_length_pos hlen, fun _ => paletteMaybe_baseWordLen_pos _⟩

theorem sizesMatch_paletteLists_iff :
    SizesMatch (paletteLists rows cols) (paletteWordSizes rows cols) ↔ NoneEmpty rows cols := by
  apply forall_congr'
  intro name
  unfold paletteLists paletteWordSizes paletteMaybes
  rcases paletteMaybe_cases (namedLists rows cols name) with ⟨hpalette, hlen, -⟩ |
    ⟨hpalette, hlen, -⟩
  · have hne : namedLists rows cols name ≠ [] := by
      intro hnil
      rw [hnil] at hlen
      exact absurd hlen (by decide)
    simp [hpalette, hlen, hne]
  · have hiff : (namedLists rows cols name).eraseDups ≠ [] ↔ namedLists rows cols name ≠ [] := by
      simp only [ne_eq, List.eq_nil_iff_forall_not_mem, List.mem_eraseDups]
    rw [hpalette, hiff]
    exact ⟨fun h => h.mp hlen, fun h => ⟨fun _ => h, fun _ => hlen⟩⟩

/-- The palettes are cut into blocks, for which all four lists have to hold something. -/
theorem blockify_palettes (h : NoneEmpty rows cols) :
    blockify stream (palettesOf (paletteMaybes rows cols) .rowsN .rowsD)
        (palettesOf (paletteMaybes rows cols) .colsN .colsD) blockWriteSize
        (paletteWordSizes rows cols) =
      .ok (plannedBlocks stream (paletteLists rows cols) (paletteWordSizes rows cols)
        blockWriteSize) := by
  rw [blockify_ok, namedLists_palettesOf]
  rw [namedLists_palettesOf]
  exact sizesMatch_paletteLists_iff.mpr h

theorem noneEmpty_of_blockify {blocks : List DataBlock}
    (h : blockify stream (palettesOf (paletteMaybes rows cols) .rowsN .rowsD)
      (palettesOf (paletteMaybes rows cols) .colsN .colsD) blockWriteSize
      (paletteWordSizes rows cols) = .ok blocks) : NoneEmpty rows cols := by
  rw [← sizesMatch_paletteLists_iff, ← namedLists_palettesOf]
  exact sizesMatch_of_blockify _ _ _ h

theorem blockify_data (h : NoneEmpty rows cols) :
    blockify stream (dataOf (paletteMaybes rows cols) .rowsN .rowsD)
        (dataOf (paletteMaybes rows cols) .colsN .colsD) blockWriteSize
        (dataWordSizes rows cols) =
      .ok (plannedBlocks stream (dataLists rows cols) (dataWordSizes rows cols)
        blockWriteSize) := by
  rw [blockify_ok, namedLists_dataOf]
  rw [namedLists_dataOf]
  exact sizesMatch_dataLists h

theorem noneEmpty_fractionifyList_iff {xs ys : List ℚ} {left bottom : ℚ} :
    NoneEmpty (fractionifyList xs left) (fractionifyList ys bottom) ↔ xs ≠ [] ∧ ys ≠ [] := by
  constructor
  · intro h
    exact ⟨by simpa [namedLists, fractionifyList] using h .rowsN,
      by simpa [namedLists, fractionifyList] using h .colsN⟩
  · rintro ⟨hx, hy⟩ name
    cases name <;> simpa [namedLists, fractionifyList]

def NonNegative (rows cols : FractionList) : Prop :=
  ∀ name, ∀ x ∈ namedLists rows cols name, 0 ≤ x

/-- One of the four lists as loading finds it. -/
def comesBack (rows cols : FractionList) (name : RowColFraction) : Palette :=
  let data := readBack (dataLists rows cols) (dataWordSizes rows cols) blockWriteSize name
  if paletteLists rows cols name = [] then data.map some
  else
    let palette :=
      readBack (paletteLists rows cols) (paletteWordSizes rows cols) blockWriteSize name
    data.map fun x => palette[x]?

theorem unblockify_plannedBlocks (h : NoneEmpty rows cols) (hpos : NonNegative rows cols)
    (name : RowColFraction) :
    unblockify stream
        (plannedBlocks stream (dataLists rows cols) (dataWordSizes rows cols) blockWriteSize)
        (plannedBlocks stream (paletteLists rows cols) (paletteWordSizes rows cols) blockWriteSize)
        (· name)
        ⟨paletteWordSizes rows cols name, dataWordSizes rows cols name⟩ =
      comesBack rows cols name := by
  have hdata := fun palette => flatMap_hydrate_plannedBlocks stream (dataLists rows cols)
    (dataWordSizes rows cols) blockWriteSize palette
    ((sizesMatch_dataLists h name).mpr ((sizesMatch_dataLists h name).mp
      (paletteMaybe_baseWordLen_pos _))) (paletteMaybe_data_fits (hpos name))
  unfold unblockify comesBack
  by_cases hpalette : paletteLists rows cols name = []
  · have hsize : ¬0 < paletteWordSizes rows cols name := fun hlt =>
      (sizesMatch_paletteLists_iff.mpr h name).mp hlt hpalette
    simp only [hsize, hpalette, if_false, if_true]
    exact (hdata []).trans (by simp)
  · have hsize : 0 < paletteWordSizes rows cols name :=
      (sizesMatch_paletteLists_iff.mpr h name).mpr hpalette
    have hread := flatMap_hydrate_plannedBlocks stream (paletteLists rows cols)
      (paletteWordSizes rows cols) blockWriteSize [] hsize (paletteMaybe_palette_fits (hpos name))
    have hlen : 0 < (readBack (paletteLists rows cols) (paletteWordSizes rows cols)
        blockWriteSize name).length :=
      (List.length_pos_of_ne_nil hpalette).trans_le
        (length_le_readBack (sizesMatch_paletteLists_iff.mpr h) name)
    simp only [hsize, hpalette, if_false, if_true]
    refine (hdata _).trans ?_
    rw [hread]
    simp only [List.length_nil, lt_irrefl, if_false, List.length_map, hlen, if_true,
      List.getElem?_map]
    apply List.map_congr_left
    intro x _
    cases (readBack (paletteLists rows cols) (paletteWordSizes rows cols) blockWriteSize name)[x]?
      <;> rfl

end Lists

section Axis

variable (rows cols : FractionList)

/-- The number that loading finds at place `i` of one of the four lists. -/
def numberAt (name : RowColFraction) (i : ℕ) : ℕ :=
  let number := backAt (dataLists rows cols) (dataWordSizes rows cols) blockWriteSize name i
  if paletteLists rows cols name = [] then number
  else backAt (paletteLists rows cols) (paletteWordSizes rows cols) blockWriteSize name number

variable {rows cols}

private theorem paletteIndices_lt {name : RowColFraction} (h : paletteLists rows cols name ≠ []) :
    ∀ x ∈ (dataLists rows cols name).map Int.toNat, x < (paletteLists rows cols name).length := by
  rcases lists_cases rows cols name with ⟨hnil, -⟩ | ⟨hpalette, hdata⟩
  · exact absurd hnil h
  · rw [hpalette, hdata, List.map_map]
    intro x hx
    obtain ⟨value, hvalue, rfl⟩ := List.mem_map.mp hx
    exact List.idxOf_lt_length_of_mem (List.mem_eraseDups.mpr hvalue)

/-- One of the four lists comes back at its length exactly when it is snug in its blocks. -/
theorem length_comesBack_eq_iff (h : NoneEmpty rows cols) (name : RowColFraction) :
    (comesBack rows cols name).length = (namedLists rows cols name).length ↔
      Snug (dataLists rows cols) (dataWordSizes rows cols) blockWriteSize name := by
  rw [← length_readBack_eq_iff (sizesMatch_dataLists h), length_dataLists, comesBack]
  simp only
  split_ifs <;> simp

theorem getElem?_comesBack (h : NoneEmpty rows cols) {name : RowColFraction} {i : ℕ}
    (hi : i < (namedLists rows cols name).length) :
    (comesBack rows cols name)[i]? = some (some (numberAt rows cols name i)) := by
  have hnumber :
      (readBack (dataLists rows cols) (dataWordSizes rows cols) blockWriteSize name)[i]? =
      some (backAt (dataLists rows cols) (dataWordSizes rows cols) blockWriteSize name i) :=
    getElem?_readBack (sizesMatch_dataLists h) (by rwa [length_dataLists])
  unfold comesBack numberAt
  simp only
  split_ifs with hpalette
  · rw [List.getElem?_map, hnumber]
    rfl
  · have hlt : backAt (dataLists rows cols) (dataWordSizes rows cols) blockWriteSize name i <
        (paletteLists rows cols name).length :=
      standsAt_lt (List.length_pos_of_ne_nil hpalette) (paletteIndices_lt hpalette) i
    rw [List.getElem?_map, hnumber, Option.map_some,
      getElem?_readBack (sizesMatch_paletteLists_iff.mpr h) hlt]

theorem rational_eq_iff {n d : ℕ} {offset x : ℚ} :
    rational (some n) (some d) offset = some x ↔
      (n : ℤ) * (x - offset).den = (x - offset).num * max 1 (d : ℤ) := by
  have hquot : rational (some n) (some d) offset = some ((n : ℚ) / (max 1 d : ℕ) + offset) := by
    match d with
    | 0 => simp [rational]
    | 1 => simp [rational]
    | d + 2 => simp [rational]
  have hden : ((x - offset).den : ℚ) ≠ 0 := Nat.cast_ne_zero.mpr (x - offset).den_ne_zero
  have hmax : ((max 1 d : ℕ) : ℚ) ≠ 0 := by
    have : 0 < max 1 d := by omega
    exact_mod_cast this.ne'
  rw [hquot, Option.some.injEq, ← eq_sub_iff_add_eq]
  conv_lhs => rw [← Rat.num_div_den (x - offset)]
  rw [div_eq_div_iff hmax hden]
  push_cast
  exact_mod_cast Iff.rfl

variable (rows cols) in
/-- The numerators are snug in their blocks, and at every place the fraction of the numbers
that loading finds there is the one that was written. -/
def AxisSurvives (numerators denominators : RowColFraction) : Prop :=
  Snug (dataLists rows cols) (dataWordSizes rows cols) blockWriteSize numerators ∧
    ∀ i < (namedLists rows cols numerators).length,
      (numberAt rows cols numerators i : ℤ) * (namedLists rows cols denominators).getD i 1 =
        (namedLists rows cols numerators).getD i 0 * max 1 (numberAt rows cols denominators i : ℤ)

instance (numerators denominators : RowColFraction) :
    Decidable (AxisSurvives rows cols numerators denominators) := by
  rw [AxisSurvives]
  infer_instance

theorem rationalize_comesBack_eq_iff (h : NoneEmpty rows cols)
    {numerators denominators : RowColFraction} {zs : List ℚ} {offset : ℚ}
    (hN : namedLists rows cols numerators = (fractionifyList zs offset).N)
    (hD : namedLists rows cols denominators = (fractionifyList zs offset).D) :
    rationalize (comesBack rows cols numerators) (comesBack rows cols denominators) offset =
      zs.map some ↔ AxisSurvives rows cols numerators denominators := by
  have hlenN : (namedLists rows cols numerators).length = zs.length := by
    simp [hN, fractionifyList]
  have hlenD : (namedLists rows cols denominators).length = zs.length := by
    simp [hD, fractionifyList]
  have hplace : ∀ i, (hi : i < zs.length) →
      ((rationalize (comesBack rows cols numerators)
        (comesBack rows cols denominators) offset)[i]? = some (some zs[i]) ↔
      (numberAt rows cols numerators i : ℤ) * (namedLists rows cols denominators).getD i 1 =
        (namedLists rows cols numerators).getD i 0 *
          max 1 (numberAt rows cols denominators i : ℤ)) := by
    intro i hi
    have hnumber := getElem?_comesBack h (hlenN ▸ hi)
    have hdenominator := getElem?_comesBack h (hlenD ▸ hi)
    have hrange : i < (comesBack rows cols numerators).length :=
      (List.getElem?_eq_some_iff.mp hnumber).1
    rw [rationalize, List.getElem?_map, List.getElem?_range hrange, Option.map_some,
      hnumber, hdenominator, Option.some.injEq, Option.join_some, Option.join_some, rational_eq_iff,
      hN, hD]
    simp [fractionifyList, List.getD_eq_getElem?_getD, hi]
  rw [AxisSurvives, hlenN, ← length_comesBack_eq_iff h, hlenN]
  constructor
  · intro heq
    refine ⟨?_, fun i hi => (hplace i hi).mp (by simp [heq, hi])⟩
    simpa [rationalize] using congrArg List.length heq
  · rintro ⟨hlen, hall⟩
    apply List.ext_getElem?
    intro i
    rcases Nat.lt_or_ge i zs.length with hi | hi
    · rw [(hplace i hi).mpr (hall i hi)]
      simp [hi]
    · rw [List.getElem?_eq_none (by simpa [rationalize, hlen] using hi),
        List.getElem?_eq_none (by simpa using hi)]

theorem numberAt_eq {name : RowColFraction} {i : ℕ} (hi : i < (namedLists rows cols name).length)
    (hdata : InPlace (dataLists rows cols) (dataWordSizes rows cols) blockWriteSize name)
    (hpalette : InPlace (paletteLists rows cols) (paletteWordSizes rows cols) blockWriteSize name) :
    numberAt rows cols name i = ((namedLists rows cols name).getD i 0).toNat := by
  have hnumber := backAt_eq (by rwa [length_dataLists]) hdata
  simp only [numberAt, hnumber]
  rcases lists_cases rows cols name with ⟨hnil, hsame⟩ | ⟨hvalues, hindices⟩
  · rw [if_pos hnil, hsame]
  · have hmem : (namedLists rows cols name)[i] ∈ (namedLists rows cols name).eraseDups :=
      List.mem_eraseDups.mpr (List.getElem_mem hi)
    have hindex : ((dataLists rows cols name).getD i 0).toNat =
        (namedLists rows cols name).eraseDups.idxOf (namedLists rows cols name)[i] := by
      simp [hindices, List.getD_eq_getElem?_getD, hi]
    have hlt := List.idxOf_lt_length_of_mem hmem
    rw [if_neg (by rw [hvalues]; exact List.ne_nil_of_mem hmem), hindex,
      backAt_eq (by rwa [hvalues]) hpalette, hvalues]
    simp [List.getD_eq_getElem?_getD, hi, hlt]

theorem axisSurvives_of_inPlace {numerators denominators : RowColFraction}
    (hlen : (namedLists rows cols denominators).length =
      (namedLists rows cols numerators).length)
    (hnum : ∀ x ∈ namedLists rows cols numerators, 0 ≤ x)
    (hden : ∀ x ∈ namedLists rows cols denominators, 0 < x)
    (hsnug : Snug (dataLists rows cols) (dataWordSizes rows cols) blockWriteSize numerators)
    (hplace : ∀ name, name = numerators ∨ name = denominators →
      InPlace (dataLists rows cols) (dataWordSizes rows cols) blockWriteSize name ∧
        InPlace (paletteLists rows cols) (paletteWordSizes rows cols) blockWriteSize name) :
    AxisSurvives rows cols numerators denominators := by
  refine ⟨hsnug, fun i hi => ?_⟩
  have hi' : i < (namedLists rows cols denominators).length := hlen ▸ hi
  obtain ⟨hdataN, hpaletteN⟩ := hplace numerators (Or.inl rfl)
  obtain ⟨hdataD, hpaletteD⟩ := hplace denominators (Or.inr rfl)
  have h0 := hnum _ (List.getElem_mem hi)
  have h1 := hden _ (List.getElem_mem hi')
  have hmax : max 1 (namedLists rows cols denominators)[i] =
      (namedLists rows cols denominators)[i] := max_eq_right (Int.add_one_le_iff.mpr h1)
  rw [numberAt_eq hi hdataN hpaletteN, numberAt_eq hi' hdataD hpaletteD]
  simp only [List.getD_eq_getElem?_getD, List.getElem?_eq_getElem hi,
    List.getElem?_eq_getElem hi', Option.getD_some, Int.toNat_of_nonneg h0,
    Int.toNat_of_nonneg h1.le, hmax]

end Axis

section Instances

/-- Words most significant bit first, padded with zero bits to whole bytes. -/
def wordStream : BitStream where
  writeWords words wordSize :=
    (BitWords.packWords wordSize 8 (words.map Int.toNat)).map UInt8.ofNat
  readWords bytes count wordSize :=
    BitWords.readWords wordSize count (BitWords.streamBits 8 (bytes.map UInt8.toNat))
  writes _ _ _ _ := rfl
  reads _ _ _ _ _ := rfl

/-- Stored objects, each of which is its own address. -/
inductive Node where
  | data (block : DataBlock)
  | root (model : RegionMapModel Node)

open Classical in
noncomputable def nodeStorage : BlockStorage Node Node (Node → Option Node) where
  encodeData block := (.data block, .data block)
  decodeData
    | .data block => some block
    | .root _ => none
  encodeModel model := (.root model, .root model)
  decodeModel
    | .data _ => none
    | .root model => some model
  put store cid bytes := Function.update store cid (some bytes)
  get store cid := store cid
  decode_data _ := rfl
  decode_model _ := rfl
  address_data _ _ h := h
  address_model _ _ h := h
  get_put _ _ _ := Function.update_self ..
  get_put_ne _ _ _ _ h := Function.update_of_ne h ..

/-- Calls that describe a map over a square at the origin. -/
def squareDirector (side : ℚ) (pixelWidth pixelHeight : ℤ) (xs ys : List ℚ) : List BuilderCall :=
  [.pixelRef .center, .imageSize pixelWidth pixelHeight, .regionBoundary ⟨side, 0, 0, side⟩,
    .xByRows xs, .yByRows ys]

end Instances

section RoundTrip

/-- A director that sets an image size, borders with denominators, and coordinates at or
above the left and bottom borders, for each column and row or for each pixel. -/
structure WellDirected (director : List BuilderCall) (pixelWidth pixelHeight : ℕ)
    (xs ys : List ℚ) : Prop where
  width : (RegionMapModelBuilder.direct director).pixelWidth = pixelWidth
  height : (RegionMapModelBuilder.direct director).pixelHeight = pixelHeight
  rowOrderX : (RegionMapModelBuilder.direct director).rowOrderX = some xs
  rowOrderY : (RegionMapModelBuilder.direct director).rowOrderY = some ys
  topD : (RegionMapModelBuilder.direct director).regionBoundaryFractions.topD ≠ 0
  bottomD : (RegionMapModelBuilder.direct director).regionBoundaryFractions.bottomD ≠ 0
  leftD : (RegionMapModelBuilder.direct director).regionBoundaryFractions.leftD ≠ 0
  rightD : (RegionMapModelBuilder.direct director).regionBoundaryFractions.rightD ≠ 0
  shape : (xs.length = pixelWidth ∧ ys.length = pixelHeight) ∨
    (xs.length = pixelWidth * pixelHeight ∧ ys.length = pixelWidth * pixelHeight)
  left_le : ∀ x ∈ xs,
    (RegionMapModelBuilder.direct director).regionBoundaryFractions.leftOffset ≤ x
  bottom_le : ∀ y ∈ ys,
    (RegionMapModelBuilder.direct director).regionBoundaryFractions.bottomOffset ≤ y

/-- The borders that a director leaves. -/
def boundsOf (director : List BuilderCall) : RegionBoundaryFractions :=
  (RegionMapModelBuilder.direct director).regionBoundaryFractions

/-- The map of the given coordinates, projected when they are one for each column and row. -/
def mapOf (pixelWidth pixelHeight : ℕ) (bounds : RegionBoundaryFractions) (xs ys : List ℚ)
    (columnOrderedXCoordinates columnOrderedYCoordinates : List (Option ℚ)) :
    RegionMap (Option ℚ) where
  pixelHeight
  pixelWidth
  pixelSize := 1
  columnOrderedXCoordinates
  columnOrderedYCoordinates
  isUniform := decide (xs.length = pixelWidth ∧ ys.length = pixelHeight)
  regionBoundary := bounds.boundary

def sourceMap (pixelWidth pixelHeight : ℕ) (bounds : RegionBoundaryFractions) (xs ys : List ℚ) :
    RegionMap (Option ℚ) :=
  mapOf pixelWidth pixelHeight bounds xs ys (xs.map some) (ys.map some)

/-- The numerators and denominators of a director's coordinates. -/
def rowsOf (bounds : RegionBoundaryFractions) (xs : List ℚ) : FractionList :=
  fractionifyList xs bounds.leftOffset

def colsOf (bounds : RegionBoundaryFractions) (ys : List ℚ) : FractionList :=
  fractionifyList ys bounds.bottomOffset

/-- The numerators and denominators that a builder's lists leave. -/
def RegionMapModelBuilder.rows (builder : RegionMapModelBuilder) : FractionList :=
  rowsOf builder.regionBoundaryFractions (builder.rowOrderX.getD [])

def RegionMapModelBuilder.cols (builder : RegionMapModelBuilder) : FractionList :=
  colsOf builder.regionBoundaryFractions (builder.rowOrderY.getD [])

variable {director : List BuilderCall} {pixelWidth pixelHeight : ℕ} {xs ys : List ℚ}

theorem noneEmpty_iff (bounds : RegionBoundaryFractions) :
    NoneEmpty (rowsOf bounds xs) (colsOf bounds ys) ↔ xs ≠ [] ∧ ys ≠ [] :=
  noneEmpty_fractionifyList_iff

theorem WellDirected.nonNegative (hd : WellDirected director pixelWidth pixelHeight xs ys) :
    NonNegative (rowsOf (boundsOf director) xs) (colsOf (boundsOf director) ys) := by
  have hnum : ∀ {zs : List ℚ} {offset : ℚ}, (∀ z ∈ zs, offset ≤ z) →
      ∀ n ∈ (fractionifyList zs offset).N, 0 ≤ n := by
    intro zs offset hle n hn
    obtain ⟨z, hz, rfl⟩ := List.mem_map.mp hn
    exact Rat.num_nonneg.mpr (sub_nonneg.mpr (hle z hz))
  have hden : ∀ {zs : List ℚ} {offset : ℚ}, ∀ n ∈ (fractionifyList zs offset).D, 0 ≤ n := by
    intro zs offset n hn
    obtain ⟨z, -, rfl⟩ := List.mem_map.mp hn
    exact Int.natCast_nonneg _
  intro name
  cases name with
  | rowsN => exact hnum hd.left_le
  | rowsD => exact hden
  | colsN => exact hnum hd.bottom_le
  | colsD => exact hden

def committedRoot (builder : RegionMapModelBuilder) (paletteBlocks dataBlocks : List DataBlock)
    (projected : Bool) : RegionMapModel Cid where
  pixelRef := builder.pixelRef
  pixelWidth := builder.pixelWidth
  pixelHeight := builder.pixelHeight
  projected
  regionBoundary := builder.regionBoundaryFractions
  codings name :=
    ⟨paletteWordSizes (builder.rows) (builder.cols) name,
      dataWordSizes (builder.rows) (builder.cols) name⟩
  palettes := paletteBlocks.map fun block => (storage.encodeData block).1
  data := dataBlocks.map fun block => (storage.encodeData block).1

/-- A commit encodes the palettes and the data, and asks whether the map is projected, before it
stores anything. -/
theorem commit_bind {builder : RegionMapModelBuilder}
    (hleft : builder.regionBoundaryFractions.leftD ≠ 0)
    (hbottom : builder.regionBoundaryFractions.bottomD ≠ 0) (store : Store) :
    commit stream storage builder store =
      ((blockify stream (palettesOf (paletteMaybes builder.rows builder.cols) .rowsN .rowsD)
        (palettesOf (paletteMaybes builder.rows builder.cols) .colsN .colsD) blockWriteSize
        (paletteWordSizes builder.rows builder.cols)).mapError .block).bind fun paletteBlocks =>
      ((blockify stream (dataOf (paletteMaybes builder.rows builder.cols) .rowsN .rowsD)
        (dataOf (paletteMaybes builder.rows builder.cols) .colsN .colsD) blockWriteSize
        (dataWordSizes builder.rows builder.cols)).mapError .block).bind fun dataBlocks =>
      builder.isProjected.map fun projected =>
        commitRoot storage (commitData storage (commitData storage store paletteBlocks).2
          dataBlocks).2 (committedRoot storage builder paletteBlocks dataBlocks projected) := by
  rw [commit]
  simp only [hleft, hbottom, or_self, if_false]
  rfl

theorem WellDirected.rows_eq (hd : WellDirected director pixelWidth pixelHeight xs ys) :
    (RegionMapModelBuilder.direct director).rows = rowsOf (boundsOf director) xs := by
  rw [RegionMapModelBuilder.rows, hd.rowOrderX]
  rfl

theorem WellDirected.cols_eq (hd : WellDirected director pixelWidth pixelHeight xs ys) :
    (RegionMapModelBuilder.direct director).cols = colsOf (boundsOf director) ys := by
  rw [RegionMapModelBuilder.cols, hd.rowOrderY]
  rfl

/-- An import that returns had coordinates on both axes. -/
theorem nonempty_of_import (hd : WellDirected director pixelWidth pixelHeight xs ys)
    {store : Store} {result : Cid × Store}
    (h : importMap stream storage store director = .ok result) : xs ≠ [] ∧ ys ≠ [] := by
  rw [← noneEmpty_iff (boundsOf director), ← hd.rows_eq, ← hd.cols_eq]
  rw [importMap, commit_bind stream storage hd.leftD hd.bottomD] at h
  cases hpalettes : blockify stream
    (palettesOf (paletteMaybes (RegionMapModelBuilder.direct director).rows
      (RegionMapModelBuilder.direct director).cols) .rowsN .rowsD)
    (palettesOf (paletteMaybes (RegionMapModelBuilder.direct director).rows
      (RegionMapModelBuilder.direct director).cols) .colsN .colsD) blockWriteSize
    (paletteWordSizes (RegionMapModelBuilder.direct director).rows
      (RegionMapModelBuilder.direct director).cols) with
  | error error =>
    rw [hpalettes] at h
    cases h
  | ok blocks => exact noneEmpty_of_blockify stream hpalettes

theorem WellDirected.isProjected (hd : WellDirected director pixelWidth pixelHeight xs ys) :
    (RegionMapModelBuilder.direct director).isProjected =
      .ok (decide (xs.length = pixelWidth ∧ ys.length = pixelHeight)) := by
  have hsize : ¬((pixelWidth : ℤ) = -1 ∨ (pixelHeight : ℤ) = -1) := by omega
  simp only [RegionMapModelBuilder.isProjected, hd.rowOrderX, hd.rowOrderY, hd.width, hd.height,
    hsize, if_false, Nat.cast_inj]

/-- The coordinates that loading finds. -/
def xsBack (bounds : RegionBoundaryFractions) (xs ys : List ℚ) : List (Option ℚ) :=
  rationalize (comesBack (rowsOf bounds xs) (colsOf bounds ys) .rowsN)
    (comesBack (rowsOf bounds xs) (colsOf bounds ys) .rowsD) bounds.leftOffset

def ysBack (bounds : RegionBoundaryFractions) (xs ys : List ℚ) : List (Option ℚ) :=
  rationalize (comesBack (rowsOf bounds xs) (colsOf bounds ys) .colsN)
    (comesBack (rowsOf bounds xs) (colsOf bounds ys) .colsD) bounds.bottomOffset

/-- With coordinates on both axes the import returns, and loading finds the lists as they
come back from the blocks. -/
theorem load_import (hd : WellDirected director pixelWidth pixelHeight xs ys) (hx : xs ≠ [])
    (hy : ys ≠ []) (store : Store) :
    ∃ cid store', importMap stream storage store director = .ok (cid, store') ∧
      load stream storage store' cid = some (mapOf pixelWidth pixelHeight (boundsOf director) xs ys
        (xsBack (boundsOf director) xs ys) (ysBack (boundsOf director) xs ys)) := by
  have hnone : NoneEmpty (rowsOf (boundsOf director) xs) (colsOf (boundsOf director) ys) :=
    (noneEmpty_iff (boundsOf director)).mpr ⟨hx, hy⟩
  have hcommit := commit_bind stream storage hd.leftD hd.bottomD store
  rw [hd.rows_eq, hd.cols_eq, blockify_palettes stream hnone, blockify_data stream hnone,
    hd.isProjected] at hcommit
  refine ⟨_, _, hcommit, (load_commitRoot stream store _ _ rfl rfl).trans ?_⟩
  simp only [ipldRegionMap, committedRoot, hd.width, hd.height, Int.toNat_natCast, hd.rows_eq,
    hd.cols_eq, unblockify_plannedBlocks stream hnone hd.nonNegative]
  rfl

/-- What importing promises: the loaded map has the imported coordinates and plots them. -/
def RoundTrips (director : List BuilderCall) (pixelWidth pixelHeight : ℕ) (xs ys : List ℚ)
    (store : Store) : Prop :=
  ∃ cid store' loaded, importMap stream storage store director = .ok (cid, store') ∧
    load stream storage store' cid = some loaded ∧
    loaded.columnOrderedXCoordinates = xs.map some ∧
    loaded.columnOrderedYCoordinates = ys.map some ∧
    loaded.plotCalls 0 pixelHeight =
      (sourceMap pixelWidth pixelHeight (boundsOf director) xs ys).plotCalls 0 pixelHeight

theorem roundTrips_iff_back (hd : WellDirected director pixelWidth pixelHeight xs ys)
    (store : Store) :
    RoundTrips stream storage director pixelWidth pixelHeight xs ys store ↔
      xs ≠ [] ∧ ys ≠ [] ∧ xsBack (boundsOf director) xs ys = xs.map some ∧
        ysBack (boundsOf director) xs ys = ys.map some := by
  constructor
  · rintro ⟨cid, store', loaded, himport, hload, hX, hY, -⟩
    obtain ⟨hx, hy⟩ := nonempty_of_import stream storage hd himport
    obtain ⟨cid', store'', himport', hload'⟩ := load_import stream storage hd hx hy store
    have hsame : (cid, store') = (cid', store'') := Except.ok.inj (himport.symm.trans himport')
    obtain ⟨rfl, rfl⟩ := Prod.mk.inj hsame
    have hloaded : loaded = _ := Option.some.inj (hload.symm.trans hload')
    simp only [hloaded, mapOf] at hX hY
    exact ⟨hx, hy, hX, hY⟩
  · rintro ⟨hx, hy, hX, hY⟩
    obtain ⟨cid, store', himport, hload⟩ := load_import stream storage hd hx hy store
    rw [hX, hY] at hload
    refine ⟨cid, store', sourceMap pixelWidth pixelHeight (boundsOf director) xs ys, himport, hload,
      ?_, ?_, ?_⟩ <;> rfl

/-- A region map survives importing and loading exactly when it has coordinates and both
its axes survive. -/
theorem region_map_round_trip_iff (hd : WellDirected director pixelWidth pixelHeight xs ys)
    (store : Store) :
    RoundTrips stream storage director pixelWidth pixelHeight xs ys store ↔
      xs ≠ [] ∧ ys ≠ [] ∧
        AxisSurvives (rowsOf (boundsOf director) xs) (colsOf (boundsOf director) ys)
          .rowsN .rowsD ∧
        AxisSurvives (rowsOf (boundsOf director) xs) (colsOf (boundsOf director) ys)
          .colsN .colsD := by
  rw [roundTrips_iff_back stream storage hd, xsBack, ysBack]
  refine and_congr_right fun hx => and_congr_right fun hy => ?_
  have hnone : NoneEmpty (rowsOf (boundsOf director) xs) (colsOf (boundsOf director) ys) :=
    (noneEmpty_iff (boundsOf director)).mpr ⟨hx, hy⟩
  exact and_congr (rationalize_comesBack_eq_iff hnone rfl rfl)
    (rationalize_comesBack_eq_iff hnone rfl rfl)

theorem region_map_round_trip_bytes :
    RoundTrips wordStream nodeStorage (squareDirector 1 2 1 [129/256, 255/256] [255/256]) 2 1
      [129/256, 255/256] [255/256] fun _ => none := by
  have hd : WellDirected (squareDirector 1 2 1 [129/256, 255/256] [255/256]) 2 1
      [129/256, 255/256] [255/256] := by
    constructor <;> decide +kernel
  exact (region_map_round_trip_iff wordStream nodeStorage hd _).mpr
    ⟨by decide, by decide, by decide +kernel, by decide +kernel⟩

/-- Three columns of two-bit words leave room for a fourth. -/
theorem three_columns_come_back_as_four :
    WellDirected (squareDirector 3 3 2 [1, 2, 3] [1, 2]) 3 2 [1, 2, 3] [1, 2] ∧
      ¬RoundTrips wordStream nodeStorage (squareDirector 3 3 2 [1, 2, 3] [1, 2])
        3 2 [1, 2, 3] [1, 2] fun _ => none := by
  have hd : WellDirected (squareDirector 3 3 2 [1, 2, 3] [1, 2]) 3 2 [1, 2, 3] [1, 2] := by
    constructor <;> decide +kernel
  refine ⟨hd, ?_⟩
  rw [roundTrips_iff_back _ _ hd]
  decide +kernel

end RoundTrip

end RandomArt.IpldRegionMapRepository
