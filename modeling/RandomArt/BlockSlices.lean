import RandomArt.RegionMapRoundTrip

/-!
# What goes into each block

The slices that the blocks are packed from make up their lists again. How many bytes a block
takes is settled by the first one: no other has more words of any list. Whole words round the
share of a list in each block, and the shares of four lists together may outgrow the block.
-/

namespace RandomArt.RegionMapUtils

section Slices

variable (stream : BitStream) (lists : RowColFraction → List ℤ)
variable (wordSizes : RowColFraction → ℕ) (chunkSize : ChunkSize)

/-- The slices of the lists that the blocks hold, from the given offsets on. -/
def cutSlices (chunks : RowColFraction → ℕ) :
    ℕ → (RowColFraction → ℕ) → List (RowColFraction → List ℤ)
  | 0, _ => []
  | remaining + 1, offsets =>
    (fun name => slice (lists name) (offsets name) (offsets name + chunks name)) ::
      cutSlices chunks remaining fun name => offsets name + chunks name

/-- The slices that each of the blocks is packed from. -/
def assignedSlices : List (RowColFraction → List ℤ) :=
  cutSlices lists (chunkFor lists wordSizes chunkSize) (blocksFor lists wordSizes chunkSize)
    fun _ => 0

/-- A block packed from its slices. -/
def packed (slices : RowColFraction → List ℤ) : DataBlock :=
  fun name => translate stream (slices name) (wordSizes name)

theorem cutBlocks_eq_map_packed (chunks offsets : RowColFraction → ℕ) (n : ℕ) :
    cutBlocks stream lists wordSizes chunks n offsets =
      (cutSlices lists chunks n offsets).map (packed stream wordSizes) := by
  induction n generalizing offsets with
  | zero => rfl
  | succ n ih =>
    rw [cutBlocks, ih, cutSlices, List.map_cons]
    rfl

theorem slice_append (xs : List ℤ) {a b c : ℕ} (hab : a ≤ b) (hbc : b ≤ c) :
    slice xs a b ++ slice xs b c = slice xs a c := by
  have hb : xs.drop b = (xs.drop a).drop (b - a) := by
    rw [List.drop_drop]
    congr 1
    omega
  rw [slice, slice, slice, hb, ← List.take_add]
  congr 1
  omega

theorem flatMap_cutSlices (chunks offsets : RowColFraction → ℕ) (n : ℕ) (name : RowColFraction) :
    (cutSlices lists chunks n offsets).flatMap (· name) =
      slice (lists name) (offsets name) (offsets name + n * chunks name) := by
  induction n generalizing offsets with
  | zero => simp [cutSlices, slice]
  | succ n ih =>
    rw [cutSlices, List.flatMap_cons, ih, slice_append _ (Nat.le_add_right _ _)
      (Nat.le_add_right _ _), Nat.succ_mul]
    congr 1
    omega

theorem flatMap_assignedSlices (h : SizesMatch lists wordSizes) (name : RowColFraction) :
    (assignedSlices lists wordSizes chunkSize).flatMap (· name) = lists name := by
  rw [assignedSlices, flatMap_cutSlices, slice, Nat.zero_add, Nat.sub_zero, List.drop_zero]
  exact List.take_of_length_le (length_le_blocksFor_mul lists wordSizes chunkSize h name)

/-- The blocks are packed from slices that make up all four lists. -/
theorem blockify_loses_nothing (rows cols : FractionList)
    (h : SizesMatch (namedLists rows cols) wordSizes) :
    blockify stream rows cols chunkSize wordSizes =
        .ok ((assignedSlices (namedLists rows cols) wordSizes chunkSize).map
          (packed stream wordSizes)) ∧
      ∀ name, (assignedSlices (namedLists rows cols) wordSizes chunkSize).flatMap (· name) =
        namedLists rows cols name := by
  refine ⟨?_, flatMap_assignedSlices _ wordSizes chunkSize h⟩
  rw [blockify_ok stream wordSizes chunkSize rows cols h, plannedBlocks, cutBlocks_eq_map_packed]
  rfl

/-- Word sizes for row numerators alone. -/
def rowsNOnly (wordSize : ℕ) (name : RowColFraction) : ℕ := if name = .rowsN then wordSize else 0

theorem sizesMatch_rowsNOnly : SizesMatch (namedLists ⟨[1, 2, 3], []⟩ ⟨[], []⟩) (rowsNOnly 16) ∧
    SizesMatch (namedLists ⟨[1, 2, 3], []⟩ ⟨[], []⟩) (rowsNOnly 20) := by
  constructor <;> intro name <;> cases name <;> decide

theorem blockify_loses_nothing_rows :
    (assignedSlices (namedLists ⟨[1, 2, 3], []⟩ ⟨[], []⟩) (rowsNOnly 16)
      ⟨20, by decide⟩).flatMap (· .rowsN) = [1, 2, 3] :=
  (blockify_loses_nothing IpldRegionMapRepository.wordStream _ ⟨20, by decide⟩ _ _
    sizesMatch_rowsNOnly.1).2 .rowsN

end Slices

section Budget

/-- A number for each of the four lists, added up. -/
def inAll (count : RowColFraction → ℕ) : ℕ :=
  count .rowsN + count .rowsD + count .colsN + count .colsD

theorem inAll_mono {f g : RowColFraction → ℕ} (h : ∀ name, f name ≤ g name) :
    inAll f ≤ inAll g :=
  Nat.add_le_add (Nat.add_le_add (Nat.add_le_add (h .rowsN) (h .rowsD)) (h .colsN)) (h .colsD)

/-- Bytes of the four packed arrays of a block. -/
def blockBytes (block : DataBlock) : ℕ := inAll fun name => (block name).length

/-- Bytes that a block has for data. -/
def ChunkSize.room (chunkSize : ChunkSize) : ℕ := chunkSize.bytes - BLOCK_OVERHEAD

/-- A list's share in each of `least` blocks, in whole words: it is rounded up from one half on,
and when the words left over would not go into one more block. -/
def roundedShare (length least : ℕ) : ℕ :=
  length / least +
    if least ≤ 2 * (length % least) ∨ length / least < length % least then 1 else 0

def SharesFit (lists : RowColFraction → List ℤ) (wordSizes : RowColFraction → ℕ)
    (chunkSize : ChunkSize) : Prop :=
  inAll (fun name => (wordSizes name *
    roundedShare (lists name).length (totalBytes lists wordSizes ⌈/⌉ chunkSize.room)) ⌈/⌉ (8 : ℕ)) ≤
      chunkSize.room

instance (lists : RowColFraction → List ℤ) (wordSizes : RowColFraction → ℕ)
    (chunkSize : ChunkSize) : Decidable (SharesFit lists wordSizes chunkSize) :=
  inferInstanceAs (Decidable (_ ≤ _))

theorem roundedShare_le {length least : ℕ} (hleast : 0 < least) :
    roundedShare length least ≤ length := by
  have hsplit := Nat.div_add_mod length least
  have hquot : length / least ≤ least * (length / least) := Nat.le_mul_of_pos_left _ hleast
  have hpos : 0 ≤ length / least := Nat.zero_le _
  rw [roundedShare]
  split_ifs with hup <;> omega

theorem round_div_eq (length : ℕ) {least : ℕ} (hleast : 0 < least) :
    (2 * length + least) / (2 * least) =
      length / least + if least ≤ 2 * (length % least) then 1 else 0 := by
  have hrem := Nat.mod_lt length hleast
  have hsplit : 2 * length + least =
      2 * least * (length / least) + (2 * (length % least) + least) := by
    rw [Nat.mul_assoc]
    have := Nat.div_add_mod length least
    omega
  rw [hsplit, Nat.mul_add_div (by omega)]
  congr 1
  split_ifs with hup
  · exact Nat.div_eq_of_lt_le (by omega) (by omega)
  · exact Nat.div_eq_of_lt (by omega)

/-- With one block more, the words left over go into it if there are no more than each of the
others has. -/
theorem ceilDiv_succ_le_iff (length least : ℕ) :
    length ⌈/⌉ (least + 1) ≤ length / least ↔ length % least ≤ length / least := by
  rw [ceilDiv_le_iff_le_smul (Nat.succ_pos least), smul_eq_mul, Nat.succ_mul]
  have := Nat.div_add_mod length least
  omega

theorem ceilDiv_succ_le (length : ℕ) {least : ℕ} (hleast : 0 < least) :
    length ⌈/⌉ (least + 1) ≤ length / least + 1 := by
  have hrem := Nat.mod_lt length hleast
  have hpos : 0 ≤ length / least := Nat.zero_le _
  rw [ceilDiv_le_iff_le_smul (Nat.succ_pos least), smul_eq_mul, Nat.succ_mul, Nat.mul_succ]
  have := Nat.div_add_mod length least
  omega

/-- The words of a list that go into each block are its rounded share. -/
theorem chunkLength_eq (length : ℕ) {least : ℕ} (hleast : 0 < least) :
    chunkLength length least (blockCount least) = roundedShare length least := by
  have hmax : ∀ count, length ⌈/⌉ count ≤ length / least + 1 →
      (length ⌈/⌉ count ≤ length / least ↔ ¬length / least < length % least) →
      chunkLength length least count = roundedShare length least := by
    intro count hle hiff
    rw [chunkLength, round_div_eq length hleast, roundedShare]
    split_ifs <;> omega
  rw [blockCount]
  split_ifs with hmany
  · refine hmax _ (ceilDiv_succ_le length hleast) ?_
    rw [ceilDiv_succ_le_iff length least, not_lt]
  · obtain rfl : least = 1 := by omega
    apply hmax <;> simp [Nat.mod_one]

/-- A stream whose words take the whole bytes that their bits need. -/
def PacksTightly (stream : BitStream) : Prop :=
  ∀ (words : List ℤ) (wordSize : ℕ), 0 < wordSize →
    (stream.writeWords words wordSize).length = (wordSize * words.length) ⌈/⌉ (8 : ℕ)

theorem length_translate {stream : BitStream} (htight : PacksTightly stream) (xs : List ℤ)
    (wordSize : ℕ) :
    (translate stream xs wordSize).length = (wordSize * xs.length) ⌈/⌉ (8 : ℕ) := by
  rw [translate]
  split_ifs with hempty
  · rcases hempty with hxs | hword
    · rw [hxs, Nat.mul_zero, zero_ceilDiv]
      rfl
    · rw [hword, Nat.zero_mul, zero_ceilDiv]
      rfl
  · exact htight xs wordSize (by omega)

theorem length_le_of_mem_cutSlices {lists : RowColFraction → List ℤ}
    {chunks offsets : RowColFraction → ℕ} {n : ℕ} {slices : RowColFraction → List ℤ}
    (h : slices ∈ cutSlices lists chunks n offsets) (name : RowColFraction) :
    (slices name).length ≤ chunks name := by
  induction n generalizing offsets with
  | zero => cases h
  | succ n ih =>
    rcases List.mem_cons.mp h with rfl | hlater
    · simp [slice]
    · exact ih hlater

variable {stream : BitStream} {lists : RowColFraction → List ℤ}
variable {wordSizes : RowColFraction → ℕ} {chunkSize : ChunkSize}

theorem blockBytes_packed (htight : PacksTightly stream) (slices : RowColFraction → List ℤ) :
    blockBytes (packed stream wordSizes slices) =
      inAll fun name => (wordSizes name * (slices name).length) ⌈/⌉ (8 : ℕ) := by
  simp only [blockBytes, packed, length_translate htight]

theorem wordSizes_eq_zero (h : SizesMatch lists wordSizes)
    (hnone : totalBytes lists wordSizes = 0) (name : RowColFraction) : wordSizes name = 0 := by
  by_contra hsize
  have hlen : 0 < (lists name).length :=
    List.length_pos_of_ne_nil ((h name).mp (Nat.pos_of_ne_zero hsize))
  have hbits : 0 < wordSizes name * (lists name).length :=
    Nat.mul_pos (Nat.pos_of_ne_zero hsize) hlen
  have hbytes : 0 < (wordSizes name * (lists name).length) ⌈/⌉ (8 : ℕ) := by
    rw [Nat.ceilDiv_eq_add_pred_div]
    omega
  rw [totalBytes] at hnone
  cases name <;> omega

/-- Every block keeps to its room exactly when the rounded shares fit. -/
theorem blockBytes_le_iff (htight : PacksTightly stream) (h : SizesMatch lists wordSizes) :
    (∀ block ∈ (assignedSlices lists wordSizes chunkSize).map (packed stream wordSizes),
      blockBytes block ≤ chunkSize.room) ↔ SharesFit lists wordSizes chunkSize := by
  rcases Nat.eq_zero_or_pos (totalBytes lists wordSizes) with hnone | hsome
  · have hblocks : blocksFor lists wordSizes chunkSize = 0 := by
      rw [blocksFor, hnone, minBlockCount, zero_ceilDiv]
      rfl
    have hfit : SharesFit lists wordSizes chunkSize := by
      simp [SharesFit, wordSizes_eq_zero h hnone, inAll]
    simp [assignedSlices, hblocks, cutSlices, hfit]
  · have hroom : 0 < chunkSize.room := Nat.sub_pos_of_lt chunkSize.above
    have hleast : 0 < totalBytes lists wordSizes ⌈/⌉ chunkSize.room := by
      by_contra hzero
      have hle := (ceilDiv_le_iff_le_smul hroom).mp (Nat.le_of_not_lt hzero)
      rw [smul_zero] at hle
      omega
    have hchunk : ∀ name, chunkFor lists wordSizes chunkSize name =
        roundedShare (lists name).length (totalBytes lists wordSizes ⌈/⌉ chunkSize.room) :=
      fun name => chunkLength_eq (lists name).length hleast
    have hcount : ∃ more, blocksFor lists wordSizes chunkSize = more + 1 := by
      refine Nat.exists_eq_succ_of_ne_zero (ne_of_gt ?_)
      change 0 < blockCount (totalBytes lists wordSizes ⌈/⌉ chunkSize.room)
      rw [blockCount]
      split_ifs <;> omega
    have hmono : ∀ {name : RowColFraction} {m n : ℕ}, m ≤ n →
        (wordSizes name * m) ⌈/⌉ (8 : ℕ) ≤ (wordSizes name * n) ⌈/⌉ (8 : ℕ) := by
      intro name m n hmn
      rw [Nat.ceilDiv_eq_add_pred_div, Nat.ceilDiv_eq_add_pred_div]
      have := Nat.mul_le_mul_left (wordSizes name) hmn
      omega
    rw [List.forall_mem_map]
    constructor
    · intro hall
      obtain ⟨more, hmore⟩ := hcount
      have hfirst := hall _ (by rw [assignedSlices, hmore, cutSlices]; exact List.mem_cons_self)
      rw [blockBytes_packed htight] at hfirst
      refine le_trans (inAll_mono fun name => hmono ?_) hfirst
      rw [slice, Nat.zero_add, Nat.sub_zero, List.drop_zero, List.length_take, hchunk name]
      exact le_min le_rfl (roundedShare_le hleast)
    · intro hfit slices hslices
      rw [blockBytes_packed htight]
      refine le_trans (inAll_mono fun name => hmono ?_) hfit
      exact (length_le_of_mem_cutSlices hslices name).trans_eq (hchunk name)

/-- No block outgrows its room exactly when the rounded shares of the lists fit into one. -/
theorem blocks_keep_to_room_iff (chunkSize : ChunkSize) (htight : PacksTightly stream)
    (rows cols : FractionList) (h : SizesMatch (namedLists rows cols) wordSizes) :
    ∃ blocks, blockify stream rows cols chunkSize wordSizes = .ok blocks ∧
      ((∀ block ∈ blocks, blockBytes block ≤ chunkSize.room) ↔
        SharesFit (namedLists rows cols) wordSizes chunkSize) := by
  refine ⟨_, blockify_ok stream wordSizes chunkSize rows cols h, ?_⟩
  rw [plannedBlocks, cutBlocks_eq_map_packed]
  exact blockBytes_le_iff htight h

theorem packsTightly_wordStream : PacksTightly IpldRegionMapRepository.wordStream := by
  intro words wordSize _
  rw [IpldRegionMapRepository.wordStream, List.length_map, BitWords.length_packWords,
    List.length_map, Nat.ceilDiv_eq_add_pred_div]

theorem blocks_keep_to_room_rows : ∃ blocks,
    blockify IpldRegionMapRepository.wordStream ⟨[1, 2, 3], []⟩ ⟨[], []⟩ ⟨20, by decide⟩
      (rowsNOnly 16) = .ok blocks ∧ ∀ block ∈ blocks, blockBytes block ≤ 4 := by
  obtain ⟨blocks, hblocks, hiff⟩ := blocks_keep_to_room_iff ⟨20, by decide⟩
    packsTightly_wordStream ⟨[1, 2, 3], []⟩ ⟨[], []⟩ sizesMatch_rowsNOnly.1
  exact ⟨blocks, hblocks, hiff.mpr (by decide)⟩

/-- Two words of twenty bits do not go into four bytes, though one does. -/
theorem block_outgrows_room : inAll (fun name => rowsNOnly 20 name ⌈/⌉ (8 : ℕ)) ≤ 4 ∧ ∃ blocks,
    blockify IpldRegionMapRepository.wordStream ⟨[1, 2, 3], []⟩ ⟨[], []⟩ ⟨20, by decide⟩
      (rowsNOnly 20) = .ok blocks ∧ ¬∀ block ∈ blocks, blockBytes block ≤ 4 := by
  have hsizes := sizesMatch_rowsNOnly.2
  refine ⟨by decide, _, blockify_ok _ _ _ _ _ hsizes, fun hall => ?_⟩
  rw [plannedBlocks, cutBlocks_eq_map_packed] at hall
  have hfit := (blockBytes_le_iff packsTightly_wordStream hsizes).mp hall
  exact absurd hfit (by decide)

end Budget

end RandomArt.RegionMapUtils
