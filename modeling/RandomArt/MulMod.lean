import RandomArt.FindG
import Mathlib.Data.Nat.Bitwise
import Mathlib.Data.Nat.ModEq
import Mathlib.Tactic.Ring

/-!
# Products modulo a number of one word

The loop reads the bits of one factor from the top of its word. After each round the sum is the
product of the other factor with the bits read so far, reduced.
-/

namespace RandomArt.FindG

variable {a b d m : ℕ}

def topBit (a : ℕ) : ℕ := a / 2 ^ 63 % 2

theorem topBit_le_one (a : ℕ) : topBit a ≤ 1 := Nat.le_of_lt_succ (Nat.mod_lt _ two_pos)

theorem add_of_highBit (a b d : ℕ) :
    (if a &&& 0x8000000000000000 ≠ 0 then d + b else d) = d + topBit a * b := by
  rw [show 0x8000000000000000 = 2 ^ 63 from rfl, Nat.and_two_pow, Nat.testBit_eq_decide_div_mod_eq]
  change (if (decide (topBit a = 1)).toNat * 2 ^ 63 ≠ 0 then d + b else d) = d + topBit a * b
  rcases Nat.le_one_iff_eq_zero_or_eq_one.mp (topBit_le_one a) with hzero | hone
  · simp [hzero]
  · simp [hone]

/-- What the loop subtracts is as much as a division would take off. -/
theorem reduce_eq_mod (h : d < 2 * m) : (if m ≤ d then d - m else d) = d % m := by
  split_ifs with hle
  · rw [Nat.mod_eq_sub_mod hle, Nat.mod_eq_of_lt (by omega)]
  · rw [Nat.mod_eq_of_lt (by omega)]

/-- Doubling comes out below the modulus or, when half of an even modulus is doubled, at it. -/
theorem double_le (h : d < m) :
    (if m >>> 1 < d then (d <<< 1) - m else d <<< 1) ≤ m ∧
      (if m >>> 1 < d then (d <<< 1) - m else d <<< 1) ≡ 2 * d [MOD m] := by
  rw [Nat.shiftRight_one, Nat.shiftLeft_eq, pow_one, Nat.mul_comm d 2]
  split_ifs with hhalf
  · constructor
    · omega
    · have hle : m ≤ 2 * d := by omega
      exact (Nat.mod_eq_sub_mod hle).symm
  · exact ⟨by omega, rfl⟩

/-- The bits at the top of a word. -/
def topBits (a count : ℕ) : ℕ := a % 2 ^ 64 / 2 ^ (64 - count)

theorem topBits_zero (a : ℕ) : topBits a 0 = 0 :=
  Nat.div_eq_of_lt (Nat.mod_lt a (by decide))

theorem topBits_of_lt (h : a < 2 ^ 64) : topBits a 64 = a := by
  rw [topBits, Nat.sub_self, pow_zero, Nat.div_one, Nat.mod_eq_of_lt h]

theorem topBits_succ (a : ℕ) {count : ℕ} (h : count < 64) :
    topBits a (count + 1) = topBit a * 2 ^ count + topBits (a <<< 1) count := by
  have hword : a % 2 ^ 64 = a % 2 ^ 63 + 2 ^ 63 * topBit a :=
    Nat.mod_mul
  have hshift : a <<< 1 % 2 ^ 64 = 2 * (a % 2 ^ 63) := by
    rw [Nat.shiftLeft_eq, pow_one, Nat.mul_comm]
    exact Nat.mul_mod_mul_left 2 a (2 ^ 63)
  have htop : (2 : ℕ) ^ 63 = 2 ^ (63 - count) * 2 ^ count := by
    rw [← pow_add, Nat.sub_add_cancel (by omega)]
  have hlow : (2 : ℕ) ^ (64 - count) = 2 * 2 ^ (63 - count) := by
    rw [← pow_succ']
    congr 1
    omega
  rw [topBits, topBits, hword, hshift, hlow, Nat.mul_div_mul_left _ _ two_pos,
    show 64 - (count + 1) = 63 - count by omega, htop, Nat.mul_assoc,
    Nat.add_mul_div_left _ _ (Nat.two_pow_pos _), Nat.add_comm, Nat.mul_comm (2 ^ count)]

theorem mulRounds_eq (hb : b < m) {rounds : ℕ} (hrounds : rounds ≤ 64) (hd : d < m) :
    mulRounds b m rounds a d = (d * 2 ^ rounds + topBits a rounds * b) % m := by
  induction rounds generalizing a d with
  | zero => rw [mulRounds, pow_zero, mul_one, topBits_zero, zero_mul, add_zero, Nat.mod_eq_of_lt hd]
  | succ rounds ih =>
    obtain ⟨hle, hdouble⟩ := double_le hd
    rw [mulRounds]
    generalize (if m >>> 1 < d then (d <<< 1) - m else d <<< 1) = double at hle hdouble
    have hlt : double + topBit a * b < 2 * m := by
      have := Nat.mul_le_mul_right b (topBit_le_one a)
      omega
    rw [add_of_highBit, reduce_eq_mod hlt, ih (by omega) (Nat.mod_lt _ (by omega)),
      topBits_succ a (by omega)]
    calc ((double + topBit a * b) % m * 2 ^ rounds + topBits (a <<< 1) rounds * b) % m
        = ((2 * d + topBit a * b) * 2 ^ rounds + topBits (a <<< 1) rounds * b) % m :=
          Nat.ModEq.add_right _ (((Nat.mod_modEq _ m).trans (hdouble.add_right _)).mul_right _)
      _ = (d * 2 ^ (rounds + 1) +
            (topBit a * 2 ^ rounds + topBits (a <<< 1) rounds) * b) % m := by
          congr 1
          ring

theorem mulLoop_eq (hm : 0 < m) (hword : m ≤ 2 ^ 64) : mulLoop a b m = a * b % m := by
  have hreduce (x : ℕ) : (if m ≤ x then x % m else x) = x % m := by
    split_ifs with hle
    · rfl
    · exact (Nat.mod_eq_of_lt (by omega)).symm
  rw [mulLoop, hreduce, hreduce, mulRounds_eq (Nat.mod_lt b hm) le_rfl hm,
    topBits_of_lt ((Nat.mod_lt a hm).trans_le hword), zero_mul, zero_add, ← Nat.mul_mod]

/-- The product comes out exactly, on the fast path and in the loop. -/
theorem mulMod_exact (hm : 0 < m) (hword : m ≤ 2 ^ 64) :
    mulMod a b m = a * b % m ∧ mulLoop a b m = a * b % m := by
  refine ⟨?_, mulLoop_eq hm hword⟩
  rw [mulMod]
  split_ifs with hfast
  · rfl
  · exact mulLoop_eq hm hword

theorem mulMod_exact_word : mulMod (2 ^ 64 - 1) (2 ^ 63) (2 ^ 64) = 2 ^ 63 ∧
    mulLoop (2 ^ 64 - 1) (2 ^ 63) (2 ^ 64) = 2 ^ 63 :=
  mulMod_exact (by decide) (by decide)

end RandomArt.FindG
