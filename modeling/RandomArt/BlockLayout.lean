import RandomArt.FallibleFold
import RandomArt.RegionMapUtils
import Mathlib.Algebra.BigOperators.Group.List.Basic

/-!
# What comes back from the blocks

A list that is cut into chunks and packed comes back with the whole zero words that
fit into the padding of each chunk. `withPadding` says where they end up; without
such words the list comes back as it was.
-/

namespace RandomArt.RegionMapUtils

open BitWords FallibleFold

section Padding

variable {wordSize chunk : ℕ}

/-- The `b`-th chunk of a list. -/
def chunkOf (chunk : ℕ) (xs : List ℕ) (b : ℕ) : List ℕ := (xs.drop (b * chunk)).take chunk

/-- A chunk with the zero words that its padding holds. -/
def paddedChunk (wordSize chunk : ℕ) (xs : List ℕ) (b : ℕ) : List ℕ :=
  chunkOf chunk xs b ++ List.replicate (slack wordSize 8 (chunkOf chunk xs b).length) 0

/-- A list as it comes back from `count` chunks. -/
def withPadding (wordSize chunk count : ℕ) (xs : List ℕ) : List ℕ :=
  (List.range count).flatMap (paddedChunk wordSize chunk xs)

/-- No chunk's padding holds a whole word. -/
def NoSlack (wordSize chunk count length : ℕ) : Prop :=
  ∀ b < count, slack wordSize 8 (min chunk (length - b * chunk)) = 0

/-- The number at place `i` of a list whose full chunks are each followed by the zero words
that their padding holds. -/
def standsAt (wordSize chunk : ℕ) (xs : List ℕ) (i : ℕ) : ℕ :=
  let stride := chunk + slack wordSize 8 chunk
  if i % stride < chunk then xs.getD (i / stride * chunk + i % stride) 0 else 0

instance (count length : ℕ) : Decidable (NoSlack wordSize chunk count length) := by
  rw [NoSlack]
  infer_instance

@[simp] theorem length_chunkOf (xs : List ℕ) (b : ℕ) :
    (chunkOf chunk xs b).length = min chunk (xs.length - b * chunk) := by
  simp [chunkOf]

theorem flatMap_chunkOf (chunk count : ℕ) (xs : List ℕ) :
    (List.range count).flatMap (chunkOf chunk xs) = xs.take (count * chunk) := by
  induction count with
  | zero => simp
  | succ count ih =>
    rw [List.range_succ, List.flatMap_append, ih, List.flatMap_singleton, chunkOf,
      Nat.succ_mul, List.take_add]

theorem flatMap_chunkOf_eq {count : ℕ} {xs : List ℕ} (h : xs.length ≤ count * chunk) :
    (List.range count).flatMap (chunkOf chunk xs) = xs := by
  rw [flatMap_chunkOf, List.take_of_length_le h]

theorem length_withPadding {count : ℕ} {xs : List ℕ} (h : xs.length ≤ count * chunk) :
    (withPadding wordSize chunk count xs).length = xs.length +
      ((List.range count).map fun b =>
        slack wordSize 8 (min chunk (xs.length - b * chunk))).sum := by
  have hlen := congrArg List.length (flatMap_chunkOf_eq h)
  rw [List.length_flatMap] at hlen
  rw [withPadding, List.length_flatMap]
  simp only [paddedChunk, List.length_append, List.length_replicate, length_chunkOf] at hlen ⊢
  rw [List.sum_map_add, hlen]

theorem length_withPadding_eq_iff {count : ℕ} {xs : List ℕ} (h : xs.length ≤ count * chunk) :
    (withPadding wordSize chunk count xs).length = xs.length ↔
      NoSlack wordSize chunk count xs.length := by
  rw [length_withPadding h]
  constructor
  · intro hlen b hb
    have hsum : ((List.range count).map fun b =>
        slack wordSize 8 (min chunk (xs.length - b * chunk))).sum = 0 := by omega
    exact List.sum_eq_zero_iff_forall_eq_nat.mp hsum _ (List.mem_map_of_mem (List.mem_range.mpr hb))
  · intro hslack
    have hall : ∀ b ∈ List.range count,
        slack wordSize 8 (min chunk (xs.length - b * chunk)) = 0 :=
      fun b hb => hslack b (List.mem_range.mp hb)
    rw [List.map_congr_left hall]
    simp

theorem standsAt_lt {m : ℕ} {xs : List ℕ} (hm : 0 < m) (h : ∀ x ∈ xs, x < m) (i : ℕ) :
    standsAt wordSize chunk xs i < m := by
  simp only [standsAt]
  split_ifs
  · rw [List.getD_eq_getElem?_getD]
    rcases hx : xs[_]? with _ | x
    · exact hm
    · exact h x (List.mem_of_getElem? hx)
  · exact hm

theorem withPadding_succ (count : ℕ) (xs : List ℕ) :
    withPadding wordSize chunk (count + 1) xs =
      paddedChunk wordSize chunk xs 0 ++ withPadding wordSize chunk count (xs.drop chunk) := by
  rw [withPadding, List.range_succ_eq_map, List.flatMap_cons, List.flatMap_map]
  congr 1
  apply List.flatMap_congr
  intro b _
  simp only [paddedChunk, chunkOf, Nat.succ_mul, List.drop_drop, Nat.succ_eq_add_one,
    Nat.add_comm chunk]

theorem standsAt_of_lt {xs : List ℕ} {i : ℕ} (h : i < chunk) :
    standsAt wordSize chunk xs i = xs.getD i 0 := by
  have hstride : i < chunk + slack wordSize 8 chunk := by omega
  simp only [standsAt, Nat.mod_eq_of_lt hstride, Nat.div_eq_of_lt hstride, h, if_true, Nat.zero_mul,
    Nat.zero_add]

theorem standsAt_of_ge {xs : List ℕ} {i : ℕ} (hchunk : 0 < chunk)
    (h : chunk + slack wordSize 8 chunk ≤ i) :
    standsAt wordSize chunk xs i =
      standsAt wordSize chunk (xs.drop chunk) (i - (chunk + slack wordSize 8 chunk)) := by
  have hmod := Nat.mod_eq_sub_mod h
  have hdiv : i / (chunk + slack wordSize 8 chunk) =
      (i - (chunk + slack wordSize 8 chunk)) / (chunk + slack wordSize 8 chunk) + 1 :=
    Nat.div_eq_sub_div (by omega) h
  simp only [standsAt, ← hmod, hdiv]
  split_ifs
  · rw [List.getD_eq_getElem?_getD, List.getD_eq_getElem?_getD, List.getElem?_drop]
    congr 2
    rw [Nat.succ_mul]
    omega
  · rfl

/-- Where no full chunk's padding holds a word, or one chunk holds all, every number stays. -/
theorem standsAt_eq {xs : List ℕ} {i : ℕ} (hi : i < xs.length)
    (h : slack wordSize 8 chunk = 0 ∧ 0 < chunk ∨ xs.length ≤ chunk) :
    standsAt wordSize chunk xs i = xs.getD i 0 := by
  rcases h with ⟨hslack, hchunk⟩ | hone
  · simp only [standsAt, hslack, Nat.add_zero, Nat.mod_lt i hchunk, if_true, Nat.div_add_mod']
  · exact standsAt_of_lt (by omega)

theorem getElem?_withPadding {count : ℕ} {xs : List ℕ} (h : xs.length ≤ count * chunk) {i : ℕ}
    (hi : i < xs.length) :
    (withPadding wordSize chunk count xs)[i]? = some (standsAt wordSize chunk xs i) := by
  induction count generalizing xs i with
  | zero => omega
  | succ count ih =>
    have hchunk : 0 < chunk := by
      rcases Nat.eq_zero_or_pos chunk with hzero | hpos
      · rw [hzero, Nat.mul_zero] at h
        omega
      · exact hpos
    have hfirst : chunkOf chunk xs 0 = xs.take chunk := by simp [chunkOf]
    rw [withPadding_succ, paddedChunk, hfirst, List.length_take, List.append_assoc]
    rcases Nat.lt_or_ge i chunk with hlt | hge
    · have htake : i < (xs.take chunk).length := by
        rw [List.length_take]
        omega
      rw [List.getElem?_append_left htake, List.getElem?_take_of_lt hlt, standsAt_of_lt hlt,
        List.getD_eq_getElem?_getD, List.getElem?_eq_getElem hi]
      rfl
    · have hmin : min chunk xs.length = chunk := by omega
      rw [hmin, List.getElem?_append_right (by simp; omega), List.length_take, hmin]
      rcases Nat.lt_or_ge (i - chunk) (slack wordSize 8 chunk) with hpad | hrest
      · rw [List.getElem?_append_left (by simpa using hpad), List.getElem?_replicate_of_lt hpad]
        have hstride : i < chunk + slack wordSize 8 chunk := by omega
        simp only [standsAt, Nat.mod_eq_of_lt hstride]
        rw [if_neg (by omega)]
      · have hcover : (xs.drop chunk).length ≤ count * chunk := by
          rw [Nat.succ_mul] at h
          rw [List.length_drop]
          omega
        have hstays : standsAt wordSize chunk xs i = _ := standsAt_of_ge hchunk (by omega)
        rw [List.getElem?_append_right (by simpa using hrest), List.length_replicate, hstays,
          Nat.sub_sub]
        exact ih hcover (by rw [List.length_drop]; omega)

end Padding

section Words

def Fits (wordSize : ℕ) (xs : List ℤ) : Prop := ∀ x ∈ xs, 0 ≤ x ∧ x < 2 ^ wordSize

theorem lt_two_pow_binaryLength {n : ℤ} (h : 0 ≤ n) : n < 2 ^ binaryLength n := by
  obtain ⟨m, rfl⟩ := Int.eq_ofNat_of_zero_le h
  have hsize : m < 2 ^ binaryLength (m : ℤ) :=
    (Nat.lt_size_self m).trans_le (Nat.pow_le_pow_right (by norm_num)
      (by rw [binaryLength, Int.natAbs_natCast]; omega))
  exact_mod_cast hsize

theorem binaryLength_pos (n : ℤ) : 0 < binaryLength n := by
  rw [binaryLength]
  omega

theorem le_foldl_max (xs : List ℤ) (m : ℤ) :
    m ≤ xs.foldl (fun most value => max most |value|) m ∧
      ∀ x ∈ xs, |x| ≤ xs.foldl (fun most value => max most |value|) m := by
  induction xs generalizing m with
  | nil => simp
  | cons x xs ih =>
    obtain ⟨hbase, hall⟩ := ih (max m |x|)
    rw [List.foldl_cons]
    refine ⟨(le_max_left _ _).trans hbase, List.forall_mem_cons.mpr ⟨?_, hall⟩⟩
    exact (le_max_right _ _).trans hbase

theorem fits_of_nonneg {src : List ℤ} (hpos : ∀ x ∈ src, 0 ≤ x) :
    Fits (binaryLength (src.eraseDups.foldl (fun most value => max most |value|) (-1))) src := by
  intro x hx
  obtain ⟨-, hall⟩ := le_foldl_max src.eraseDups (-1)
  have hle := hall x (List.mem_eraseDups.mpr hx)
  rw [abs_of_nonneg (hpos x hx)] at hle
  exact ⟨hpos x hx, hle.trans_lt (lt_two_pow_binaryLength ((hpos x hx).trans hle))⟩

section Palette

variable {src : List ℤ}

@[simp] theorem length_paletteMaybe_data (src : List ℤ) :
    (paletteMaybe src).data.length = src.length := by
  simp only [paletteMaybe]
  split <;> simp

theorem paletteMaybe_baseWordLen_pos (src : List ℤ) : 0 < (paletteMaybe src).baseWordLen := by
  simp only [paletteMaybe]
  split
  · exact binaryLength_pos _
  · exact (binaryLength_pos _).trans_le (le_max_left _ _)

theorem paletteMaybe_data_fits (hpos : ∀ x ∈ src, 0 ≤ x) :
    Fits (paletteMaybe src).baseWordLen (paletteMaybe src).data := by
  simp only [paletteMaybe]
  split
  · exact fits_of_nonneg hpos
  · intro x hx
    obtain ⟨value, hvalue, rfl⟩ := List.mem_map.mp hx
    have hidx : src.eraseDups.idxOf value < src.eraseDups.length :=
      List.idxOf_lt_length_of_mem (List.mem_eraseDups.mpr hvalue)
    have hlen := lt_two_pow_binaryLength (Int.natCast_nonneg src.eraseDups.length)
    have hpow : (2 : ℤ) ^ binaryLength (src.eraseDups.length : ℤ) ≤
        2 ^ max (binaryLength (src.eraseDups.length : ℤ)) 1 :=
      pow_le_pow_right₀ (by norm_num) (le_max_left _ _)
    refine ⟨by positivity, lt_of_lt_of_le ?_ hpow⟩
    exact lt_trans (by exact_mod_cast hidx) hlen

theorem paletteMaybe_palette_fits (hpos : ∀ x ∈ src, 0 ≤ x) :
    Fits (paletteMaybe src).paletteWordLen (paletteMaybe src).palette := by
  simp only [paletteMaybe]
  split
  · simp [Fits]
  · intro x hx
    exact fits_of_nonneg hpos x (List.mem_eraseDups.mp hx)

/-- Either the list is kept as it is, or every element is looked up in the palette. -/
theorem paletteMaybe_cases (src : List ℤ) :
    ((paletteMaybe src).palette = [] ∧ (paletteMaybe src).paletteWordLen = 0 ∧
      (paletteMaybe src).data = src) ∨
    ((paletteMaybe src).palette = src.eraseDups ∧ 0 < (paletteMaybe src).paletteWordLen ∧
      (paletteMaybe src).data = src.map fun value => (src.eraseDups.idxOf value : ℤ)) := by
  simp only [paletteMaybe]
  split
  · exact Or.inl ⟨rfl, rfl, rfl⟩
  · exact Or.inr ⟨rfl, binaryLength_pos _, rfl⟩

end Palette

variable (stream : BitStream)

private theorem map_toNat_ofNat {xs : List ℕ} (h : ∀ x ∈ xs, x < 256) :
    (xs.map UInt8.ofNat).map UInt8.toNat = xs := by
  rw [List.map_map]
  conv_rhs => rw [← List.map_id xs]
  apply List.map_congr_left
  intro x hx
  simpa using h x hx

theorem hydrate_translate {wordSize : ℕ} (hw : 0 < wordSize) {xs : List ℤ}
    (hfits : Fits wordSize xs) (palette : Palette) :
    hydrate stream (translate stream xs wordSize) palette wordSize =
      (xs.map Int.toNat ++ List.replicate (slack wordSize 8 xs.length) 0).map
        (if 0 < palette.length then fun x => palette[x]?.join else some) := by
  rw [translate]
  split
  · next hempty =>
    have hnil : xs = [] := by
      rcases hempty with h | h
      · exact List.eq_nil_of_length_eq_zero h
      · omega
    simp [hnil, hydrate, slack, padding]
  · next hne =>
    have hbytes := stream.writes xs wordSize hw hfits
    have hlt : ∀ x ∈ packWords wordSize 8 (xs.map Int.toNat), x < 256 :=
      fun x hx => packWords_lt hx
    have hnat := map_toNat_ofNat hlt
    have hwords : ∀ x ∈ xs.map Int.toNat, x < 2 ^ wordSize := by
      intro x hx
      obtain ⟨y, hy, rfl⟩ := List.mem_map.mp hx
      have := (hfits y hy).2
      have h0 := (hfits y hy).1
      zify
      rwa [Int.toNat_of_nonneg h0]
    have hlen : 0 < xs.length := by omega
    have hnonempty : (packWords wordSize 8 (xs.map Int.toNat)).length ≠ 0 := by
      rw [length_packWords, List.length_map]
      have : 0 < wordSize * xs.length := Nat.mul_pos hw hlen
      omega
    have hunpack := unpackWords_packWords hw (show 0 < 8 by norm_num) hwords
    rw [unpackWords, List.length_map] at hunpack
    rw [hydrate]
    rw [hbytes, if_neg (by simpa using ⟨by simpa using hnonempty, hw.ne'⟩),
      stream.reads _ _ _ hw (by rw [Nat.mul_comm]; exact Nat.mul_div_le _ _), hnat,
      List.length_map, hunpack]
    split_ifs <;> rfl

end Words

section Blocks

variable (stream : BitStream) (lists : RowColFraction → List ℤ)
variable (wordSizes : RowColFraction → ℕ) (chunkSize : ChunkSize)

def SizesMatch : Prop := ∀ name, 0 < wordSizes name ↔ lists name ≠ []

def totalBytes : ℕ :=
  (wordSizes .rowsN * (lists .rowsN).length) ⌈/⌉ 8 +
    (wordSizes .rowsD * (lists .rowsD).length) ⌈/⌉ 8 +
    (wordSizes .colsN * (lists .colsN).length) ⌈/⌉ 8 +
    (wordSizes .colsD * (lists .colsD).length) ⌈/⌉ 8

def blocksFor : ℕ := blockCount (minBlockCount (totalBytes lists wordSizes) chunkSize)

/-- Elements of a list that go into each block. -/
def chunkFor (name : RowColFraction) : ℕ :=
  chunkLength (lists name).length (minBlockCount (totalBytes lists wordSizes) chunkSize)
    (blocksFor lists wordSizes chunkSize)

def readBack (name : RowColFraction) : List ℕ :=
  withPadding (wordSizes name) (chunkFor lists wordSizes chunkSize name)
    (blocksFor lists wordSizes chunkSize) ((lists name).map Int.toNat)

def plannedBlocks : List DataBlock :=
  cutBlocks stream lists wordSizes (chunkFor lists wordSizes chunkSize)
    (blocksFor lists wordSizes chunkSize) fun _ => 0

theorem measureSize_ok {name : RowColFraction} {numbers : List ℤ} {wordSize : ℕ}
    (h : 0 < wordSize ↔ numbers ≠ []) :
    measureSize name numbers wordSize = .ok ((wordSize * numbers.length) ⌈/⌉ 8) := by
  rw [measureSize]
  split_ifs with hlen hzero hpos
  · exact absurd hzero (h.mpr (List.ne_nil_of_length_pos hlen)).ne'
  · rfl
  · exact absurd (List.length_pos_of_ne_nil (h.mp (Nat.pos_of_ne_zero hpos))) hlen
  · rfl

/-- With matching sizes all lists are cut into the planned blocks. -/
theorem blockify_ok (rows cols : FractionList) (h : SizesMatch (namedLists rows cols) wordSizes) :
    blockify stream rows cols chunkSize wordSizes =
      .ok (plannedBlocks stream (namedLists rows cols) wordSizes chunkSize) := by
  have hrowsN : measureSize .rowsN rows.N (wordSizes .rowsN) = _ := measureSize_ok (h .rowsN)
  have hrowsD : measureSize .rowsD rows.D (wordSizes .rowsD) = _ := measureSize_ok (h .rowsD)
  have hcolsN : measureSize .colsN cols.N (wordSizes .colsN) = _ := measureSize_ok (h .colsN)
  have hcolsD : measureSize .colsD cols.D (wordSizes .colsD) = _ := measureSize_ok (h .colsD)
  rw [blockify]
  simp only [hrowsN, hrowsD, hcolsN, hcolsD, bind, Except.bind]
  split_ifs with hzero
  · have hcount : blocksFor (namedLists rows cols) wordSizes chunkSize = 0 := by
      have htotal : totalBytes (namedLists rows cols) wordSizes = 0 := hzero
      rw [blocksFor, htotal, minBlockCount, zero_ceilDiv]
      rfl
    rw [plannedBlocks, hcount]
    rfl
  · rfl

private theorem sizeMatch_of_measureSize {name : RowColFraction} {numbers : List ℤ}
    {wordSize size : ℕ} (h : measureSize name numbers wordSize = .ok size) :
    0 < wordSize ↔ numbers ≠ [] := by
  rw [measureSize] at h
  split_ifs at h with hlen hzero hpos
  · exact ⟨fun _ => List.ne_nil_of_length_pos hlen, fun _ => Nat.pos_of_ne_zero hzero⟩
  · have hnil : numbers = [] := List.eq_nil_of_length_eq_zero (by omega)
    have hsize : wordSize = 0 := not_not.mp hpos
    simp [hnil, hsize]

theorem sizesMatch_of_blockify {rows cols : FractionList} {blocks : List DataBlock}
    (h : blockify stream rows cols chunkSize wordSizes = .ok blocks) :
    SizesMatch (namedLists rows cols) wordSizes := by
  obtain ⟨_, hrowsN, h⟩ := exists_of_bind_eq_ok h
  obtain ⟨_, hrowsD, h⟩ := exists_of_bind_eq_ok h
  obtain ⟨_, hcolsN, h⟩ := exists_of_bind_eq_ok h
  obtain ⟨_, hcolsD, h⟩ := exists_of_bind_eq_ok h
  intro name
  cases name with
  | rowsN => exact sizeMatch_of_measureSize hrowsN
  | rowsD => exact sizeMatch_of_measureSize hrowsD
  | colsN => exact sizeMatch_of_measureSize hcolsN
  | colsD => exact sizeMatch_of_measureSize hcolsD

theorem cutBlocks_eq (chunks offsets : RowColFraction → ℕ) (n : ℕ) :
    cutBlocks stream lists wordSizes chunks n offsets =
      (List.range n).map fun b name => translate stream
        (slice (lists name) (offsets name + b * chunks name)
          (offsets name + b * chunks name + chunks name)) (wordSizes name) := by
  induction n generalizing offsets with
  | zero => rfl
  | succ n ih =>
    rw [cutBlocks, ih, List.range_succ_eq_map, List.map_cons, List.map_map]
    congr 1
    · funext name
      simp
    · apply List.map_congr_left
      intro b _
      funext name
      simp only [Function.comp_apply, Nat.succ_mul]
      congr 2 <;> omega

theorem map_toNat_slice (xs : List ℤ) (chunk b : ℕ) :
    (slice xs (b * chunk) (b * chunk + chunk)).map Int.toNat =
      chunkOf chunk (xs.map Int.toNat) b := by
  rw [slice, chunkOf, Nat.add_sub_cancel_left, List.map_take, List.map_drop]

theorem flatMap_hydrate_plannedBlocks (palette : Palette) {name : RowColFraction}
    (hw : 0 < wordSizes name) (hfits : Fits (wordSizes name) (lists name)) :
    ((plannedBlocks stream lists wordSizes chunkSize).map (· name)).flatMap
        (fun bytes => hydrate stream bytes palette (wordSizes name)) =
      (readBack lists wordSizes chunkSize name).map
        (if 0 < palette.length then fun x => palette[x]?.join else some) := by
  rw [plannedBlocks, cutBlocks_eq, List.map_map, List.flatMap_map, readBack, withPadding,
    List.map_flatMap]
  apply List.flatMap_congr
  intro b _
  simp only [Function.comp_apply, Nat.zero_add]
  have hslice : Fits (wordSizes name) (slice (lists name)
      (b * chunkFor lists wordSizes chunkSize name)
      (b * chunkFor lists wordSizes chunkSize name + chunkFor lists wordSizes chunkSize name)) :=
    fun x hx => hfits x (List.mem_of_mem_drop (List.mem_of_mem_take hx))
  rw [hydrate_translate stream hw hslice, map_toNat_slice, paddedChunk, ← map_toNat_slice,
    List.length_map]

theorem length_le_blocksFor_mul (h : SizesMatch lists wordSizes) (name : RowColFraction) :
    (lists name).length ≤
      blocksFor lists wordSizes chunkSize * chunkFor lists wordSizes chunkSize name := by
  have hroom : 0 < chunkSize.bytes - BLOCK_OVERHEAD := Nat.sub_pos_of_lt chunkSize.above
  rcases Nat.eq_zero_or_pos (lists name).length with hzero | hpos
  · omega
  · have hsize : 0 < wordSizes name * (lists name).length :=
      Nat.mul_pos ((h name).mpr (List.ne_nil_of_length_pos hpos)) hpos
    have hbytes : 0 < (wordSizes name * (lists name).length) ⌈/⌉ 8 := by
      rw [Nat.ceilDiv_eq_add_pred_div]
      omega
    have htotal : 0 < totalBytes lists wordSizes := by
      rw [totalBytes]
      cases name <;> omega
    have hleast : 0 < minBlockCount (totalBytes lists wordSizes) chunkSize := by
      rw [minBlockCount, Nat.ceilDiv_eq_add_pred_div]
      exact Nat.div_pos (by omega) hroom
    have hcount : 0 < blocksFor lists wordSizes chunkSize := by
      rw [blocksFor, blockCount]
      split_ifs <;> omega
    have hcover : (lists name).length ≤ blocksFor lists wordSizes chunkSize *
        ((lists name).length ⌈/⌉ blocksFor lists wordSizes chunkSize) := by
      simpa using (le_smul_ceilDiv hcount : (lists name).length ≤
        blocksFor lists wordSizes chunkSize •
          ((lists name).length ⌈/⌉ blocksFor lists wordSizes chunkSize))
    exact hcover.trans (Nat.mul_le_mul_left _ (le_max_right _ _))

/-- The blocks of a list leave no room for words that it does not have. -/
def Snug (name : RowColFraction) : Prop :=
  NoSlack (wordSizes name) (chunkFor lists wordSizes chunkSize name)
    (blocksFor lists wordSizes chunkSize) (lists name).length

instance (name : RowColFraction) : Decidable (Snug lists wordSizes chunkSize name) := by
  rw [Snug]
  infer_instance

/-- The number at a place of a list as it comes back from the blocks. -/
def backAt (name : RowColFraction) (i : ℕ) : ℕ :=
  standsAt (wordSizes name) (chunkFor lists wordSizes chunkSize name)
    ((lists name).map Int.toNat) i

variable {lists wordSizes chunkSize}

/-- A list comes back at its length exactly when it is snug in its blocks. -/
theorem length_readBack_eq_iff (h : SizesMatch lists wordSizes) (name : RowColFraction) :
    (readBack lists wordSizes chunkSize name).length = (lists name).length ↔
      Snug lists wordSizes chunkSize name := by
  have hcover := length_le_blocksFor_mul lists wordSizes chunkSize h name
  rw [readBack, Snug, ← List.length_map Int.toNat] at *
  exact length_withPadding_eq_iff hcover

theorem length_le_readBack (h : SizesMatch lists wordSizes) (name : RowColFraction) :
    (lists name).length ≤ (readBack lists wordSizes chunkSize name).length := by
  have hcover := length_le_blocksFor_mul lists wordSizes chunkSize h name
  rw [← List.length_map Int.toNat] at hcover
  rw [readBack, length_withPadding hcover, List.length_map]
  exact Nat.le_add_right _ _

theorem getElem?_readBack (h : SizesMatch lists wordSizes) {name : RowColFraction} {i : ℕ}
    (hi : i < (lists name).length) :
    (readBack lists wordSizes chunkSize name)[i]? =
      some (backAt lists wordSizes chunkSize name i) := by
  have hcover := length_le_blocksFor_mul lists wordSizes chunkSize h name
  rw [← List.length_map Int.toNat] at hcover hi
  exact getElem?_withPadding hcover hi

variable (lists wordSizes chunkSize) in
/-- One block holds the list, or the full blocks leave no room for words it does not have. -/
def InPlace (name : RowColFraction) : Prop :=
  slack (wordSizes name) 8 (chunkFor lists wordSizes chunkSize name) = 0 ∧
      0 < chunkFor lists wordSizes chunkSize name ∨
    (lists name).length ≤ chunkFor lists wordSizes chunkSize name

theorem backAt_eq {name : RowColFraction} {i : ℕ} (hi : i < (lists name).length)
    (h : InPlace lists wordSizes chunkSize name) :
    backAt lists wordSizes chunkSize name i = ((lists name).getD i 0).toNat := by
  rw [backAt, standsAt_eq (by rwa [List.length_map]) (by rwa [List.length_map])]
  simp [List.getD_eq_getElem?_getD, hi]

end Blocks

end RandomArt.RegionMapUtils
