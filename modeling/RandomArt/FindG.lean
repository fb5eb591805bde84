import RandomArt.Looping
import Mathlib.Algebra.Ring.Nat

/-!
# Sequences from the powers of a primitive root

The powers of a primitive root modulo a power of a prime are the numbers that are no multiples of
the prime. The pairs and the dense sequence are read off their digits in the base of the prime.
-/

namespace RandomArt.FindG

open Looping

section MulMod

def highWord : ℕ := 0xFFFFFFFF <<< 32

/-- The rounds of the loop over the bits of `a`, from the highest bit of a word. -/
def mulRounds (b m : ℕ) : ℕ → ℕ → ℕ → ℕ
  | 0, _, d => d
  | rounds + 1, a, d =>
    let mp2 := m >>> 1
    let d := if mp2 < d then (d <<< 1) - m else d <<< 1
    let d := if a &&& 0x8000000000000000 ≠ 0 then d + b else d
    let d := if m ≤ d then d - m else d
    mulRounds b m rounds (a <<< 1) d

def mulLoop (a b m : ℕ) : ℕ :=
  let a := if m ≤ a then a % m else a
  let b := if m ≤ b then b % m else b
  mulRounds b m 64 a 0

def mulMod (a b m : ℕ) : ℕ :=
  if (a ||| b) &&& highWord = 0 then a * b % m else mulLoop a b m

end MulMod

section OrderPairs

def pairOf (p i : ℕ) : ℤ × ℤ :=
  let x : ℤ := (i / p : ℕ)
  let y : ℤ := i - x * p
  (x, if y ≤ x then y - 1 else y)

def orderRound (g p : ℕ) :
    ℕ × List (ℤ × ℤ) → Looping (Round (ℕ × List (ℤ × ℤ)) (List (ℤ × ℤ))) :=
  fun (i, pairs) =>
    let p2 := p * p
    pure (if i ≠ 1 then .next (i * g % p2, pairs ++ [pairOf p i]) else .done pairs)

/-- The pairs that the generator yields up to its end. -/
def orderPairs (g p : ℕ) : Looping (List (ℤ × ℤ)) := loop (orderRound g p) (g, [(0, 1)])

end OrderPairs

section DenseWind

def windFrom (g pToE : ℕ) : ℕ → ℕ → List ℕ
  | 0, _ => []
  | rounds + 1, x => x * g % pToE :: windFrom g pToE rounds (x * g % pToE)

/-- What the generator yields. The text that it raises for a small `p` is no exception, which the
language answers with an error of its own. -/
def windGForPToE (g p e : ℕ) (x2 : Bool) : Except String (List ℕ) :=
  if p ≤ 2 then throw "exceptions must derive from BaseException"
  else
    let order := if 1 < e then p ^ (e - 1) * (p - 1) else p - 1
    let pToE := p ^ e * if x2 then 2 else 1
    return 1 :: g :: windFrom g pToE (order - 2) g

/-- The table that starts with `first`, where every entry is `p` times the one before it. -/
def timesTable (p first rounds : ℕ) : List ℕ :=
  (List.range rounds).foldl (fun table index => table ++ [table.getD index 0 * p]) [first]

/-- Go over the digits below the given number of them, the highest one first. -/
def compact (outer inner : List ℕ) : ℕ → ℕ → ℕ → ℕ → ℕ
  | 0, _, adjX, remainder => adjX + remainder
  | i + 1, x, adjX, _ =>
    let remainder := x % outer.getD i 0
    let adjX := adjX + (x - remainder) / outer.getD i 0 * inner.getD i 0
    compact outer inner i remainder adjX remainder

def denseWindGForPToE (g p e : ℕ) : Except String (List ℕ) := do
  let outer := timesTable p p (e - 1)
  let inner := timesTable p (p - 1) (e - 1)
  let numbers ← windGForPToE g p e false
  return numbers.map fun x => compact outer inner e x 0 0

end DenseWind

/-- A last digit and what stands above it, read back in the base `p`. -/
theorem digits_of_lt {p q r n : ℕ} (hr : r < p) (hq : q < n) :
    (p * q + r) / p = q ∧ (p * q + r) % p = r ∧ p * q + r < p * n := by
  have hp : 0 < p := Nat.zero_lt_of_lt hr
  refine ⟨?_, ?_, ?_⟩
  · rw [Nat.mul_add_div hp, Nat.div_eq_of_lt hr, add_zero]
  · rw [Nat.mul_add_mod, Nat.mod_eq_of_lt hr]
  · calc p * q + r < p * q + p := Nat.add_lt_add_left hr (p * q)
      _ = p * (q + 1) := (Nat.mul_succ p q).symm
      _ ≤ p * n := Nat.mul_le_mul_left p hq

end RandomArt.FindG
