import RandomArt.DoubleRounding
import RandomArt.MultiplyWithCarry
import Mathlib.Data.Int.DivMod

/-!
# The generator of random numbers

`Alea` seeds three fractions from a text, by a hash in floating point numbers, and then draws
numbers by multiply-with-carry. Every operation is rounded to a double. The state after seeding is
fine enough for no operation to lose anything: the numbers drawn are the digits of an integer
generator.
-/

namespace RandomArt.Alea

open Binary64

/-- Conversion to a signed word, as the operator `|` does it. -/
def toInt32 (q : ℚ) : ℤ := (if 0 ≤ q then ⌊q⌋ else ⌈q⌉).bmod (2 ^ 32)

section Mash

/-- The literals `0.02519603282416938` and `2.3283064365386963e-10`. -/
def spread : ℚ := nearest (2519603282416938 / 10 ^ 17)

def scale : ℚ := nearest (23283064365386963 / 10 ^ 26)

def mashChar (n : ℚ) (charCode : UInt16) : ℚ :=
  let n := nearest (n + charCode.toNat)
  let product := nearest (spread * n)
  let f := nearest (product - toInt32 product)
  let t := nearest (f * toInt32 product)
  nearest (nearest (4294967296 * nearest (t - toInt32 t)) + toInt32 t)

def mash (n : ℚ) (text : List UInt16) : ℚ := text.foldl mashChar n

def mashResult (n : ℚ) : ℚ := nearest (toInt32 n * scale)

end Mash

structure State where
  a : ℚ
  b : ℚ
  c : ℚ
  x : ℚ

/-- `a < 0 && a++`. -/
def wrap (a : ℚ) : ℚ := if a < 0 then nearest (a + 1) else a

def seeded (seed : List UInt16) : State :=
  let n₁ := mash 4022871197 [32]
  let n₂ := mash n₁ [32]
  let n₃ := mash n₂ [32]
  let n₄ := mash n₃ seed
  let n₅ := mash n₄ seed
  let n₆ := mash n₅ seed
  { a := wrap (nearest (mashResult n₁ - mashResult n₄))
    b := wrap (nearest (mashResult n₂ - mashResult n₅))
    c := wrap (nearest (mashResult n₃ - mashResult n₆))
    x := 1 }

def State.draw (s : State) : ℚ × State :=
  let y := nearest (nearest (s.x * scale) + nearest (s.a * 2091639))
  let x := toInt32 y
  let c := nearest (y - x)
  (c, ⟨s.b, s.c, c, x⟩)

def State.after (s : State) (draws : ℕ) : State := (fun s => s.draw.2)^[draws] s

section Random

/-- `Random.uniform`. -/
def State.uniform (s : State) (min max : ℚ) : ℚ × State :=
  (nearest (nearest (s.draw.1 * nearest (max - min)) + min), s.draw.2)

/-- `Random.randrange`, called with both of its bounds. -/
def State.randrange (s : State) (min max : ℚ) : ℚ × State :=
  let min := ⌈min⌉
  let max := ⌊max⌋
  (nearest (⌊nearest (s.draw.1 * nearest (max - min))⌋ + min), s.draw.2)

/-- `arr[idx]`, none where the array has nothing. -/
def elementAt {α : Type} (arr : List α) (idx : ℚ) : Option α :=
  if idx.den = 1 ∧ 0 ≤ idx then arr[idx.num.toNat]? else none

/-- `Random.choice`. -/
def State.choice {α : Type} (s : State) (arr : List α) : Option α × State :=
  let (idx, s) := s.randrange 0 arr.length
  (elementAt arr idx, s)

end Random

section Words

theorem scale_eq : scale = 1 / 2 ^ 32 := by decide +kernel

theorem toInt32_bounds (q : ℚ) : -2 ^ 31 ≤ toInt32 q ∧ toInt32 q < 2 ^ 31 := by
  have hlow := Int.le_bmod (x := if 0 ≤ q then ⌊q⌋ else ⌈q⌉) (m := 2 ^ 32) (by decide)
  have hhigh := Int.bmod_lt (x := if 0 ≤ q then ⌊q⌋ else ⌈q⌉) (m := 2 ^ 32) (by decide)
  rw [toInt32]
  norm_num at hlow hhigh ⊢
  exact ⟨hlow, hhigh⟩

/-- A fraction that a word's digits spell. -/
def fraction (word : ℤ) : ℚ := word / 2 ^ 32

theorem nearest_fraction {word : ℤ} (h : |word| < 2 ^ 53) :
    nearest (fraction word) = fraction word := nearest_dyadic 32 h (by decide)

theorem exists_mashResult_eq (n : ℚ) :
    ∃ word : ℤ, mashResult n = fraction word ∧ -2 ^ 31 ≤ word ∧ word < 2 ^ 31 := by
  obtain ⟨hlow, hhigh⟩ := toInt32_bounds n
  refine ⟨toInt32 n, ?_, hlow, hhigh⟩
  have hword : (toInt32 n : ℚ) * scale = fraction (toInt32 n) := by
    rw [scale_eq, fraction, mul_one_div]
  rw [mashResult, hword, nearest_fraction]
  rw [abs_lt]
  constructor <;> linarith

/-- The difference of two hashes, brought between zero and one. -/
theorem exists_wrap_eq (n n' : ℚ) :
    ∃ digit : ℕ, digit < 2 ^ 32 ∧
      wrap (nearest (mashResult n - mashResult n')) = fraction digit := by
  obtain ⟨word, hword, hlow, hhigh⟩ := exists_mashResult_eq n
  obtain ⟨word', hword', hlow', hhigh'⟩ := exists_mashResult_eq n'
  have hsub : mashResult n - mashResult n' = fraction (word - word') := by
    rw [hword, hword', fraction, fraction, fraction]
    push_cast
    ring
  have hdifference : nearest (mashResult n - mashResult n') = fraction (word - word') := by
    rw [hsub, nearest_fraction]
    rw [abs_lt]
    constructor <;> linarith
  have hsign : fraction (word - word') < 0 ↔ word - word' < 0 := by
    rw [fraction, div_lt_iff₀ (by positivity), zero_mul]
    exact_mod_cast Iff.rfl
  have hone : fraction (word - word') + 1 = fraction (word - word' + 2 ^ 32) := by
    rw [fraction, fraction]
    push_cast
    field_simp
    norm_num
  simp only [wrap, hdifference, hsign]
  split_ifs with hneg
  · obtain ⟨digit, hdigit⟩ := Int.eq_ofNat_of_zero_le (a := word - word' + 2 ^ 32) (by linarith)
    refine ⟨digit, by omega, ?_⟩
    rw [hone, nearest_fraction, hdigit]
    rw [abs_lt]
    constructor <;> linarith
  · obtain ⟨digit, hdigit⟩ := Int.eq_ofNat_of_zero_le (not_lt.mp hneg)
    exact ⟨digit, by omega, by rw [hdigit]⟩

end Words

section Exactness

/-- The integer generator. -/
abbrev Generator := MultiplyWithCarry 2091639 (2 ^ 32)

/-- The fractions of a state are the digits of the integer generator. -/
structure Spells (s : State) (m : Generator) : Prop where
  digits : [s.a, s.b, s.c] = m.digits.map fun digit : ℕ => fraction digit
  carry : s.x = m.carry

theorem exists_spells_seeded (seed : List UInt16) :
    ∃ m : Generator, Spells (seeded seed) m ∧ m.carry = 1 := by
  obtain ⟨a, ha, hfirst⟩ := exists_wrap_eq (mash 4022871197 [32])
    (mash (mash (mash (mash 4022871197 [32]) [32]) [32]) seed)
  obtain ⟨b, hb, hsecond⟩ := exists_wrap_eq (mash (mash 4022871197 [32]) [32])
    (mash (mash (mash (mash (mash 4022871197 [32]) [32]) [32]) seed) seed)
  obtain ⟨c, hc, hthird⟩ := exists_wrap_eq (mash (mash (mash 4022871197 [32]) [32]) [32])
    (mash (mash (mash (mash (mash (mash 4022871197 [32]) [32]) [32]) seed) seed) seed)
  refine ⟨⟨a, [b, c], 1, ha, ?_, by decide⟩, ⟨?_, ?_⟩, rfl⟩
  · rintro digit (_ | ⟨_, _ | ⟨_, hnil⟩⟩)
    · exact hb
    · exact hc
    · cases hnil
  · rw [MultiplyWithCarry.digits, List.map_cons, List.map_cons, List.map_singleton, ← hfirst,
      ← hsecond, ← hthird]
    rfl
  · simp [seeded]

theorem Spells.draw {s : State} {m : Generator} (h : Spells s m) :
    s.draw.1 = fraction m.output ∧ Spells s.draw.2 m.next := by
  obtain ⟨hdigits, hcarry⟩ := h
  rw [MultiplyWithCarry.digits, List.map_cons, List.cons.injEq] at hdigits
  obtain ⟨holdest, hnewer⟩ := hdigits
  have hbase := m.oldest_lt
  have hmultiplier := m.carry_lt
  have hsum := m.sum_lt
  have hproduct : (s.a : ℚ) * 2091639 = fraction ((2091639 * m.oldest : ℕ) : ℤ) := by
    rw [holdest, fraction, fraction]
    push_cast
    ring
  have hcarryPart : s.x * scale = fraction (m.carry : ℤ) := by
    rw [hcarry, scale_eq, fraction, mul_one_div]
    push_cast
    rfl
  have hy : nearest (nearest (s.x * scale) + nearest (s.a * 2091639)) = fraction (m.sum : ℤ) := by
    have hadd : fraction (m.carry : ℤ) + fraction ((2091639 * m.oldest : ℕ) : ℤ) =
        fraction (m.sum : ℤ) := by
      rw [fraction, fraction, fraction, MultiplyWithCarry.sum]
      push_cast
      ring
    rw [hcarryPart, hproduct, nearest_fraction, nearest_fraction, hadd, nearest_fraction] <;>
      rw [abs_lt] <;> constructor <;> omega
  have hx : toInt32 (fraction (m.sum : ℤ)) = (m.sum / 2 ^ 32 : ℕ) := by
    have hfloor : ⌊fraction (m.sum : ℤ)⌋ = (m.sum / 2 ^ 32 : ℕ) := by
      rw [fraction]
      exact_mod_cast Rat.floor_intCast_div_natCast (m.sum : ℤ) (2 ^ 32)
    have hnonneg : 0 ≤ fraction (m.sum : ℤ) := by
      rw [fraction]
      positivity
    have hlt := m.sum_div_lt
    rw [toInt32, if_pos hnonneg, hfloor, Int.bmod_eq_of_le (by omega) (by omega)]
  have hc : nearest (fraction (m.sum : ℤ) - (m.sum / 2 ^ 32 : ℕ)) = fraction (m.output : ℤ) := by
    have hsub : fraction (m.sum : ℤ) - (m.sum / 2 ^ 32 : ℕ) = fraction (m.output : ℤ) := by
      have hsplit : (m.sum : ℚ) = m.output + 2 ^ 32 * (m.sum / 2 ^ 32 : ℕ) := by
        exact_mod_cast (Nat.mod_add_div m.sum (2 ^ 32)).symm
      rw [fraction, fraction, Int.cast_natCast, Int.cast_natCast, hsplit]
      field_simp
      ring
    have hout := m.output_lt
    rw [hsub, nearest_fraction]
    rw [abs_lt]
    constructor <;> omega
  rw [State.draw]
  simp only [hy, hx, Int.cast_natCast, hc]
  refine ⟨trivial, ⟨?_, ?_⟩⟩
  · rw [MultiplyWithCarry.digits_next, List.map_append, ← hnewer]
    rfl
  · rw [MultiplyWithCarry.carry_next]

theorem Spells.after {s : State} {m : Generator} (h : Spells s m) (draws : ℕ) :
    Spells (s.after draws) (m.after draws) := by
  induction draws with
  | zero => exact h
  | succ draws ih =>
    rw [State.after, MultiplyWithCarry.after, Function.iterate_succ_apply',
      Function.iterate_succ_apply']
    exact ih.draw.2

theorem length_digits {s : State} {m : Generator} (h : Spells s m) : m.digits.length = 3 := by
  rw [← List.length_map, ← h.digits]
  rfl

theorem moving_of_carry {m : Generator} (hlength : m.digits.length = 3) (hcarry : m.carry = 1) :
    m.Moving := by
  have hdigits := Nat.ofDigits_lt_base_pow_length (b := 2 ^ 32) (by decide) fun _ => m.digit_lt
  rw [hlength] at hdigits
  rw [MultiplyWithCarry.Moving, MultiplyWithCarry.residue, MultiplyWithCarry.modulus, hlength,
    hcarry]
  omega

/-- The number that is drawn after the given number of draws. -/
def drawn (seed : List UInt16) (draws : ℕ) : ℚ := ((seeded seed).after draws).draw.1

theorem next_ne_of_moving {m : Generator} (hlength : m.digits.length = 3) (h : m.Moving) :
    m.next ≠ m := by
  refine h.next_ne ?_
  rw [hlength]
  decide +kernel

/-- What is drawn are the digits of an integer generator, as fractions. Nothing was ever rounded
away, the generator moves on for ever, and each draw divides its residue by the base. -/
theorem drawn_exact (seed : List UInt16) : ∃ m : Generator, ∀ draws,
    drawn seed draws = fraction (m.after draws).output ∧
      0 ≤ drawn seed draws ∧ drawn seed draws < 1 ∧
      (m.after draws).Moving ∧ (m.after draws).next ≠ m.after draws ∧
      (2 ^ 32) ^ draws * (m.after draws).residue ≡ m.residue [MOD 2091639 * (2 ^ 32) ^ 3 - 1] := by
  obtain ⟨m, hspells, hcarry⟩ := exists_spells_seeded seed
  have hlength := length_digits hspells
  refine ⟨m, fun draws => ?_⟩
  have hdrawn : drawn seed draws = fraction (m.after draws).output := (hspells.after draws).draw.1
  have hout : ((m.after draws).output : ℚ) < 2 ^ 32 := by exact_mod_cast (m.after draws).output_lt
  have hmoving : (m.after draws).Moving :=
    (moving_of_carry hlength hcarry).after (by decide) draws
  refine ⟨hdrawn, ?_, ?_, hmoving,
    next_ne_of_moving ((m.length_digits_after draws).trans hlength) hmoving, ?_⟩
  · rw [hdrawn, fraction]
    positivity
  · rw [hdrawn, fraction, Int.cast_natCast, div_lt_one (by positivity)]
    exact hout
  · have hmod := m.base_pow_mul_residue_after draws
    rwa [hlength] at hmod

end Exactness

section Choices

/-- The number that the state is about to give is a digit of a word. -/
def State.Ready (s : State) : Prop := ∃ m : Generator, Spells s m

theorem ready_seeded (seed : List UInt16) : (seeded seed).Ready :=
  let ⟨m, h, _⟩ := exists_spells_seeded seed
  ⟨m, h⟩

variable {s : State}

theorem State.Ready.draw (h : s.Ready) :
    (∃ digit : ℕ, digit < 2 ^ 32 ∧ s.draw.1 = fraction digit) ∧ s.draw.2.Ready := by
  obtain ⟨m, hspells⟩ := h
  exact ⟨⟨m.output, m.output_lt, hspells.draw.1⟩, m.next, hspells.draw.2⟩

/-- A number between two doubles whose difference is a double, too. -/
theorem State.Ready.uniform (h : s.Ready) {min max : ℚ} (hmin : nearest min = min)
    (hmax : nearest max = max) (hwidth : nearest (max - min) = max - min) (hle : min ≤ max) :
    (min ≤ (s.uniform min max).1 ∧ (s.uniform min max).1 ≤ max) ∧ (s.uniform min max).2.Ready := by
  obtain ⟨⟨digit, hdigit, hdraw⟩, hready⟩ := h.draw
  refine ⟨?_, hready⟩
  have hfraction0 : 0 ≤ fraction digit := by
    rw [fraction]
    positivity
  have hfraction1 : fraction digit ≤ 1 := by
    have hcast : (digit : ℚ) ≤ 2 ^ 32 := by exact_mod_cast hdigit.le
    rw [fraction, Int.cast_natCast, div_le_one (by positivity)]
    exact hcast
  have hproduct0 : 0 ≤ nearest (fraction digit * (max - min)) :=
    nearest_nonneg (mul_nonneg hfraction0 (by linarith))
  have hproduct1 : nearest (fraction digit * (max - min)) ≤ max - min :=
    nearest_le hwidth (mul_le_of_le_one_left (by linarith) hfraction1)
  rw [State.uniform]
  simp only [hdraw, hwidth]
  exact ⟨le_nearest hmin (by linarith), nearest_le hmax (by linarith)⟩

/-- A number from a range of less than `2 ^ 21` numbers. -/
theorem State.Ready.randrange (h : s.Ready) {min max : ℕ} (hmin : min < max) (hmax : max ≤ 2 ^ 21) :
    (∃ n : ℕ, min ≤ n ∧ n < max ∧ (s.randrange min max).1 = n) ∧
      (s.randrange min max).2.Ready := by
  obtain ⟨⟨digit, hdigit, hdraw⟩, hready⟩ := h.draw
  refine ⟨?_, hready⟩
  obtain ⟨width, rfl⟩ := Nat.exists_eq_add_of_lt hmin
  have hwidth : nearest (((min + width + 1 : ℕ) : ℚ) - (min : ℚ)) = (width + 1 : ℕ) := by
    have hsub : ((min + width + 1 : ℕ) : ℚ) - (min : ℚ) = ((width + 1 : ℕ) : ℤ) := by
      push_cast
      ring
    rw [hsub, nearest_intCast]
    · push_cast
      rfl
    · rw [abs_lt]
      constructor <;> omega
  have hproduct : digit * (width + 1) < 2 ^ 32 * (width + 1) :=
    Nat.mul_lt_mul_of_pos_right hdigit (Nat.succ_pos _)
  have hscaled : nearest (fraction digit * (width + 1 : ℕ)) =
      fraction ((digit * (width + 1) : ℕ) : ℤ) := by
    have hmul : fraction digit * (width + 1 : ℕ) = fraction ((digit * (width + 1) : ℕ) : ℤ) := by
      rw [fraction, fraction]
      push_cast
      ring
    rw [hmul, nearest_fraction]
    rw [abs_lt]
    constructor <;> omega
  have hfloor : ⌊fraction ((digit * (width + 1) : ℕ) : ℤ)⌋ =
      (digit * (width + 1) / 2 ^ 32 : ℕ) := by
    rw [fraction]
    exact_mod_cast Rat.floor_intCast_div_natCast ((digit * (width + 1) : ℕ) : ℤ) (2 ^ 32)
  have hquotient : digit * (width + 1) / 2 ^ 32 < width + 1 := Nat.div_lt_of_lt_mul hproduct
  refine ⟨digit * (width + 1) / 2 ^ 32 + min, by omega, by omega, ?_⟩
  have hceil : ⌈(min : ℚ)⌉ = min := Int.ceil_natCast min
  have hfloorMax : ⌊((min + width + 1 : ℕ) : ℚ)⌋ = (min + width + 1 : ℕ) := Int.floor_natCast _
  rw [State.randrange]
  simp only [hceil, hfloorMax, hdraw, Int.cast_natCast, hwidth, hscaled, hfloor]
  have hsum : ((digit * (width + 1) / 2 ^ 32 : ℕ) : ℚ) + (min : ℚ) =
      ((digit * (width + 1) / 2 ^ 32 + min : ℕ) : ℤ) := by push_cast; rfl
  rw [hsum, nearest_intCast]
  · push_cast
    rfl
  · rw [abs_lt]
    constructor <;> omega

theorem elementAt_natCast {α : Type} (arr : List α) (n : ℕ) : elementAt arr n = arr[n]? := by
  simp [elementAt]

/-- A choice among at most `2 ^ 21` elements is one of them. -/
theorem State.Ready.choice (h : s.Ready) {α : Type} {arr : List α} (hne : arr ≠ [])
    (hlength : arr.length ≤ 2 ^ 21) :
    (∃ a ∈ arr, (s.choice arr).1 = some a) ∧ (s.choice arr).2.Ready := by
  obtain ⟨⟨n, -, hlt, hn⟩, hready⟩ :=
    h.randrange (List.length_pos_iff.mpr hne) hlength
  refine ⟨⟨arr[n], List.getElem_mem hlt, ?_⟩, by exact_mod_cast hready⟩
  have hidx : (s.randrange 0 arr.length).1 = n := by exact_mod_cast hn
  rw [State.choice]
  simp only [hidx, elementAt_natCast, List.getElem?_eq_getElem hlt]

end Choices

end RandomArt.Alea
