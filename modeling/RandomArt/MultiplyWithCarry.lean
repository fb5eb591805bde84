import Mathlib.Data.Nat.Digits.Defs
import Mathlib.Data.Nat.ModEq
import Mathlib.Tactic.Ring

/-!
# Multiply-with-carry generators

A generator of this kind keeps some digits and a carry. A step multiplies the oldest digit, adds
the carry, and splits the sum into a new digit and a new carry. The digits and the carry together
spell a residue, which a step divides by the base: the generator never leaves the residues it
started among, and never gets stuck.
-/

namespace RandomArt

/-- The state of a generator. The oldest digit comes first. -/
structure MultiplyWithCarry (multiplier base : ℕ) where
  oldest : ℕ
  newer : List ℕ
  carry : ℕ
  oldest_lt : oldest < base
  newer_lt : ∀ digit ∈ newer, digit < base
  carry_lt : carry < multiplier

namespace MultiplyWithCarry

variable {multiplier base : ℕ} (m : MultiplyWithCarry multiplier base)

def sum : ℕ := multiplier * m.oldest + m.carry

theorem sum_lt : m.sum < base * multiplier := by
  have hmul : multiplier * (m.oldest + 1) ≤ multiplier * base := Nat.mul_le_mul_left _ m.oldest_lt
  calc m.sum < multiplier * m.oldest + multiplier := Nat.add_lt_add_left m.carry_lt _
    _ ≤ base * multiplier := by rwa [← Nat.mul_succ, Nat.mul_comm base]

theorem base_pos (m : MultiplyWithCarry multiplier base) : 0 < base :=
  Nat.zero_lt_of_lt m.oldest_lt

/-- The digit that a step gives. -/
def output : ℕ := m.sum % base

theorem output_lt : m.output < base := Nat.mod_lt _ m.base_pos

theorem sum_div_lt : m.sum / base < multiplier := Nat.div_lt_of_lt_mul m.sum_lt

/-- A step of the generator. The new digit is the oldest one only if there is no other. -/
def next : MultiplyWithCarry multiplier base :=
  match h : m.newer with
  | [] => ⟨m.output, [], m.sum / base, m.output_lt, by simp, m.sum_div_lt⟩
  | digit :: digits => {
      oldest := digit
      newer := digits ++ [m.output]
      carry := m.sum / base
      oldest_lt := m.newer_lt digit (h ▸ List.mem_cons_self)
      newer_lt := fun d hd => by
        rcases List.mem_append.mp hd with hd | hd
        · exact m.newer_lt d (h ▸ List.mem_cons_of_mem _ hd)
        · exact List.mem_singleton.mp hd ▸ m.output_lt
      carry_lt := m.sum_div_lt }

def after (steps : ℕ) : MultiplyWithCarry multiplier base := next^[steps] m

def digits : List ℕ := m.oldest :: m.newer

/-- The number that the digits spell, the carry on top. -/
def residue : ℕ := Nat.ofDigits base m.digits + base ^ m.digits.length * m.carry

/-- What residues are taken modulo. -/
def modulus (multiplier base lag : ℕ) : ℕ := multiplier * base ^ lag - 1

theorem digits_next : m.next.digits = m.newer ++ [m.output] := by
  rw [next]
  split <;> simp_all [digits]

theorem carry_next : m.next.carry = m.sum / base := by
  rw [next]
  split <;> rfl

@[simp] theorem length_digits_next : m.next.digits.length = m.digits.length := by
  rw [digits_next, digits, List.length_append, List.length_singleton, List.length_cons]

@[simp] theorem length_digits_after (steps : ℕ) :
    (m.after steps).digits.length = m.digits.length := by
  induction steps with
  | zero => rfl
  | succ steps ih => rw [after, Function.iterate_succ_apply', length_digits_next, ← after, ih]

/-- A step divides the residue by the base, modulo the modulus. -/
theorem base_mul_residue_next :
    base * m.next.residue =
      m.residue + m.oldest * modulus multiplier base m.digits.length := by
  have hsplit : m.output + base * (m.sum / base) = m.sum := Nat.mod_add_div _ _
  have hpos : 1 ≤ multiplier * base ^ m.digits.length :=
    Nat.mul_pos (Nat.zero_lt_of_lt m.carry_lt) (Nat.pow_pos m.base_pos)
  obtain ⟨k, hk⟩ := Nat.exists_eq_add_of_le' hpos
  have hspell : m.next.residue =
      Nat.ofDigits base m.newer + base ^ m.newer.length * (m.output + base * (m.sum / base)) := by
    rw [residue, length_digits_next, digits_next, carry_next, digits, Nat.ofDigits_append,
      Nat.ofDigits_singleton, List.length_cons]
    ring
  rw [hspell, hsplit, residue, modulus, hk, Nat.add_sub_cancel]
  have hmultiplier : multiplier * base ^ m.digits.length = k + 1 := hk
  rw [digits, List.length_cons] at hmultiplier ⊢
  rw [Nat.ofDigits_cons]
  calc base * (Nat.ofDigits base m.newer + base ^ m.newer.length * m.sum)
      = base * Nat.ofDigits base m.newer +
          (m.oldest * (multiplier * base ^ (m.newer.length + 1)) +
            base ^ (m.newer.length + 1) * m.carry) := by
        rw [sum]
        ring
    _ = _ := by
      rw [hmultiplier]
      ring

theorem base_pow_mul_residue_after (steps : ℕ) :
    base ^ steps * (m.after steps).residue ≡ m.residue
      [MOD modulus multiplier base m.digits.length] := by
  induction steps with
  | zero => simp [after, Nat.ModEq]
  | succ steps ih =>
    have hstep := (m.after steps).base_mul_residue_next
    rw [length_digits_after] at hstep
    have hmod : base * (m.after (steps + 1)).residue ≡ (m.after steps).residue
        [MOD modulus multiplier base m.digits.length] := by
      rw [after, Function.iterate_succ_apply', ← after, hstep]
      exact Nat.add_mul_mod_self_right _ _ _
    calc base ^ (steps + 1) * (m.after (steps + 1)).residue
        = base ^ steps * (base * (m.after (steps + 1)).residue) := by rw [pow_succ, Nat.mul_assoc]
      _ ≡ base ^ steps * (m.after steps).residue
          [MOD modulus multiplier base m.digits.length] := hmod.mul_left _
      _ ≡ m.residue [MOD modulus multiplier base m.digits.length] := ih

theorem digit_lt {digit : ℕ} (h : digit ∈ m.digits) : digit < base := by
  rcases List.mem_cons.mp h with rfl | h
  · exact m.oldest_lt
  · exact m.newer_lt digit h

theorem residue_le (hbase : 1 < base) : m.residue ≤ modulus multiplier base m.digits.length := by
  have hdigits := Nat.ofDigits_lt_base_pow_length hbase fun _ => m.digit_lt
  have hcarry : base ^ m.digits.length * (m.carry + 1) ≤ base ^ m.digits.length * multiplier :=
    Nat.mul_le_mul_left _ m.carry_lt
  rw [Nat.mul_succ, Nat.mul_comm _ multiplier] at hcarry
  rw [residue, modulus]
  omega

/-- The residue is neither the least nor the greatest: neither all digits and the carry are zero,
nor are all as large as they can be. Both would be their own successors. -/
def Moving : Prop := 0 < m.residue ∧ m.residue < modulus multiplier base m.digits.length

theorem Moving.next (hbase : 1 < base) {m : MultiplyWithCarry multiplier base} (h : m.Moving) :
    m.next.Moving := by
  obtain ⟨hpos, hlt⟩ := h
  have hstep := m.base_mul_residue_next
  have hle := m.next.residue_le hbase
  rw [Moving, length_digits_next]
  rw [length_digits_next] at hle
  refine ⟨Nat.pos_of_mul_pos_left (a := base) (by omega), lt_of_le_of_ne hle fun heq => ?_⟩
  have holdest : (m.oldest + 1) * modulus multiplier base m.digits.length ≤
      base * modulus multiplier base m.digits.length := Nat.mul_le_mul_right _ m.oldest_lt
  rw [heq] at hstep
  rw [Nat.succ_mul] at holdest
  omega

/-- Where the base divides off nothing else, a moving state is not its own successor. -/
theorem Moving.next_ne {m : MultiplyWithCarry multiplier base} (h : m.Moving)
    (hcoprime : (base - 1).Coprime (modulus multiplier base m.digits.length)) : m.next ≠ m := by
  obtain ⟨hpos, hlt⟩ := h
  intro hnext
  have hstep := m.base_mul_residue_next
  rw [hnext] at hstep
  have hturned : (base - 1) * m.residue =
      m.oldest * modulus multiplier base m.digits.length := by
    rw [Nat.sub_mul, hstep, one_mul, Nat.add_sub_cancel_left]
  have hdvd : modulus multiplier base m.digits.length ∣ m.residue :=
    hcoprime.symm.dvd_of_dvd_mul_left (hturned ▸ Nat.dvd_mul_left _ _)
  exact absurd (Nat.le_of_dvd hpos hdvd) (not_le.mpr hlt)

theorem Moving.after (hbase : 1 < base) {m : MultiplyWithCarry multiplier base} (h : m.Moving)
    (steps : ℕ) : (m.after steps).Moving := by
  induction steps with
  | zero => exact h
  | succ steps ih =>
    rw [MultiplyWithCarry.after, Function.iterate_succ_apply', ← MultiplyWithCarry.after]
    exact ih.next hbase

end MultiplyWithCarry

end RandomArt
