import RandomArt.BlockLayout

/-!
# Palettes

A list of numbers is coded through a palette of its distinct values where that takes fewer
bits than the numbers themselves. Either way every word fits its word length, and the code is
no longer than words of any one length that hold the numbers as they are.
-/

namespace RandomArt.RegionMapUtils

theorem nodup_eraseDups (src : List ℤ) : src.eraseDups.Nodup := by
  induction h : src.length using Nat.strong_induction_on generalizing src with
  | _ n ih =>
    cases src with
    | nil => exact List.nodup_nil
    | cons value rest =>
      have hshorter : (rest.filter fun other => !other == value).length < n := by
        rw [← h, List.length_cons]
        exact Nat.lt_succ_of_le (List.length_filter_le _ _)
      rw [List.eraseDups_cons, List.nodup_cons]
      refine ⟨?_, ih _ hshorter _ rfl⟩
      simp

/-- The data of a coded list, looked up in its palette where it has one. -/
def PaletteMaybe.lookedUp (coded : PaletteMaybe) : List (Option ℤ) :=
  if coded.palette = [] then coded.data.map some
  else coded.data.map fun x => coded.palette[x.toNat]?

def PaletteMaybe.size (coded : PaletteMaybe) : ℕ :=
  coded.data.length * coded.baseWordLen + coded.palette.length * coded.paletteWordLen

theorem lookedUp_paletteMaybe (src : List ℤ) : (paletteMaybe src).lookedUp = src.map some := by
  rcases paletteMaybe_cases src with ⟨hpalette, -, hdata⟩ | ⟨hpalette, -, hdata⟩
  · rw [PaletteMaybe.lookedUp, if_pos hpalette, hdata]
  · rw [PaletteMaybe.lookedUp, hpalette, hdata]
    split_ifs with hempty
    · have hsrc : src = [] := by
        rw [List.eq_nil_iff_forall_not_mem] at hempty ⊢
        intro x hx
        exact hempty x (List.mem_eraseDups.mpr hx)
      rw [hsrc]
      rfl
    · rw [List.map_map]
      apply List.map_congr_left
      intro x hx
      rw [Function.comp_apply, Int.toNat_natCast]
      exact List.getElem?_idxOf (List.mem_eraseDups.mpr hx)

theorem nodup_palette (src : List ℤ) : (paletteMaybe src).palette.Nodup := by
  rcases paletteMaybe_cases src with ⟨hpalette, -⟩ | ⟨hpalette, -⟩ <;> rw [hpalette]
  · exact List.nodup_nil
  · exact nodup_eraseDups src

private theorem foldl_max_lt {xs : List ℤ} {m bound : ℤ} (hm : m < bound)
    (h : ∀ x ∈ xs, |x| < bound) : xs.foldl (fun most value => max most |value|) m < bound := by
  induction xs generalizing m with
  | nil => exact hm
  | cons x xs ih =>
    obtain ⟨hx, hxs⟩ := List.forall_mem_cons.mp h
    exact ih (max_lt hm hx) hxs

theorem binaryLength_le {n : ℤ} {width : ℕ} (hn : 0 ≤ n) (hwidth : 0 < width) (h : n < 2 ^ width) :
    binaryLength n ≤ width := by
  obtain ⟨m, rfl⟩ := Int.eq_ofNat_of_zero_le hn
  have hsize : m.size ≤ width := Nat.size_le.mpr (by exact_mod_cast h)
  rw [binaryLength, Int.natAbs_natCast, if_neg (not_lt.mpr hn), Nat.zero_add]
  exact max_le hwidth hsize

/-- The length of the greatest number is at most that of any words that hold them all. -/
theorem binaryLength_most_le {src : List ℤ} {width : ℕ} (hne : src ≠ []) (hwidth : 0 < width)
    (hfits : Fits width src) :
    binaryLength (src.eraseDups.foldl (fun most value => max most |value|) (-1)) ≤ width := by
  obtain ⟨x, hx⟩ := List.exists_mem_of_ne_nil src hne
  obtain ⟨-, hall⟩ := le_foldl_max src.eraseDups (-1)
  have hmost := hall x (List.mem_eraseDups.mpr hx)
  have hbound : ∀ y ∈ src.eraseDups, |y| < 2 ^ width := by
    intro y hy
    obtain ⟨hnonneg, hlt⟩ := hfits y (List.mem_eraseDups.mp hy)
    rwa [abs_of_nonneg hnonneg]
  have hstart : (-1 : ℤ) < 2 ^ width := neg_one_lt_zero.trans (by positivity)
  exact binaryLength_le ((abs_nonneg x).trans hmost) hwidth (foldl_max_lt hstart hbound)

theorem size_paletteMaybe_le {src : List ℤ} {width : ℕ} (hwidth : 0 < width)
    (hfits : Fits width src) : (paletteMaybe src).size ≤ src.length * width := by
  have hraw : src.length * binaryLength
      (src.eraseDups.foldl (fun most value => max most |value|) (-1)) ≤ src.length * width := by
    rcases eq_or_ne src [] with rfl | hne
    · simp
    · exact Nat.mul_le_mul_left _ (binaryLength_most_le hne hwidth hfits)
  refine le_trans ?_ hraw
  simp only [PaletteMaybe.size, paletteMaybe]
  split_ifs with hlonger
  · simp
  · simpa using hlonger

/-- A coded list is found again through its palette, in words that fit their lengths, without a
number twice in the palette, and in no more bits than it takes as it is. -/
theorem paletteMaybe_sound {src : List ℤ} (hpos : ∀ x ∈ src, 0 ≤ x) :
    (paletteMaybe src).lookedUp = src.map some ∧
    Fits (paletteMaybe src).baseWordLen (paletteMaybe src).data ∧
    Fits (paletteMaybe src).paletteWordLen (paletteMaybe src).palette ∧
    (paletteMaybe src).palette.Nodup ∧
    ∀ width, 0 < width → Fits width src → (paletteMaybe src).size ≤ src.length * width :=
  ⟨lookedUp_paletteMaybe src, paletteMaybe_data_fits hpos, paletteMaybe_palette_fits hpos,
    nodup_palette src, fun _ hwidth hfits => size_paletteMaybe_le hwidth hfits⟩

/-- Two numbers of five bits in a list of five: an index takes two bits. -/
theorem paletteMaybe_sound_pair :
    (paletteMaybe [17, 30, 17, 17, 30]).lookedUp = [17, 30, 17, 17, 30].map some ∧
      (paletteMaybe [17, 30, 17, 17, 30]).size ≤ 5 * 5 := by
  have hpos : ∀ x ∈ [(17 : ℤ), 30, 17, 17, 30], 0 ≤ x := by decide
  have hfits : ∀ x ∈ [(17 : ℤ), 30, 17, 17, 30], 0 ≤ x ∧ x < 2 ^ 5 := by decide
  obtain ⟨hlooked, -, -, -, hsize⟩ := paletteMaybe_sound hpos
  exact ⟨hlooked, hsize 5 (by decide) hfits⟩

end RandomArt.RegionMapUtils
