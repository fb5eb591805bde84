import RandomArt.DecimalText
import RandomArt.Looping
import Mathlib.Data.Nat.Sqrt
import Mathlib.Data.Rat.Floor

/-!
# A field of random prime order

Primes are tested by Miller and Rabin's method, `p - 1` is factored with an incremental sieve, and
powers of a primitive root modulo a power of `p` give a sequence of numbers. Modular powers come
from a library.
-/

namespace RandomArt.RandomPrimeField

open Looping

def BIG_MAX_SAFE : ℕ := 2 ^ 53 - 1

def BIAS_PADDING : ℕ := 64

/-- What the library promises of its modular powers. -/
def IsModPow (modPow : ℕ → ℕ → ℕ → ℕ) : Prop := ∀ base exponent n, 0 < n →
  modPow base exponent n = base ^ exponent % n

section Randomness

/-- What one call of `Math.random` gives. -/
structure Random where
  value : ℚ
  nonneg : 0 ≤ value
  lt_one : value < 1

def Random.below (random : Random) (n : ℕ) : ℕ := ⌊random.value * n⌋₊

def randBelow (n : ℕ) (first second : Random) : ℕ :=
  let slice := (n - n % BIG_MAX_SAFE) / BIG_MAX_SAFE
  let scale := first.below BIG_MAX_SAFE
  let skew := second.below slice
  skew + n * scale / BIG_MAX_SAFE

end Randomness

variable (modPow : ℕ → ℕ → ℕ → ℕ)

section MillerRabin

def halveRound : ℕ × ℕ → Looping (Round (ℕ × ℕ) (ℕ × ℕ)) := fun (r, d) =>
  pure (if d % 2 = 0 then .next (r + 1, d / 2) else .done (r, d))

def halve (d : ℕ) : Looping (ℕ × ℕ) := loop halveRound (0, d)

/-- Whether `n - 1` comes up within the given number of squarings. -/
def broken (n : ℕ) : ℕ → ℕ → Bool
  | 0, _ => false
  | rounds + 1, x =>
    let x := modPow x 2 n
    if x = n - 1 then true else broken n rounds x

/-- The rounds of the test, one for each number drawn; all of them pass when none is broken. -/
def passesRounds (n r d : ℕ) : List ℕ → Bool
  | [] => true
  | draw :: draws =>
    let a := 2 + draw
    let x := modPow a d n
    if x = 1 ∨ x = n - 1 then passesRounds n r d draws
    else if broken modPow n (r - 1) x then false
    else passesRounds n r d draws

/-- The test with the numbers below `n - 4` that are drawn in its rounds. -/
def isMillerRabinPassed (n : ℕ) (draws : List ℕ) : Looping Bool :=
  if n < 2 then pure false
  else if n = 2 ∨ n = 3 then pure true
  else if n % 2 = 0 then pure false
  else do
    let (r, d) ← halve (n - 1)
    return passesRounds modPow n r d draws

end MillerRabin

section LargePrime

def candidate (bitLength : ℕ) (first second : Random) : ℕ :=
  let max := (1 <<< bitLength) - 1
  let min := 1 <<< (bitLength - 1)
  let spread := max - min
  (randBelow spread first second + min) ||| 1

/-- The outcomes of one round: those of its candidate, and those of the bases of its test. -/
structure Draws where
  first : Random
  second : Random
  bases : List (Random × Random)

/-- The first candidate that passes both tests, none when the draws run out, and the candidates
that were tested on the way. -/
def generateLargePrime (checkPrimeSync : ℕ → Bool) (bitLength : ℕ) :
    List Draws → Looping (Option ℕ × List ℕ)
  | [] => pure (none, [])
  | draws :: rest => do
    let p := candidate bitLength draws.first draws.second
    let bases := draws.bases.map fun (first, second) => randBelow (p - 4) first second
    let passed ← isMillerRabinPassed modPow p bases
    if passed && checkPrimeSync p then return (some p, [p])
    else
      let (result, tested) ← generateLargePrime checkPrimeSync bitLength rest
      return (result, p :: tested)

end LargePrime

section Factors

/-- Where the iteration for a root begins. The root of a number below `2 ^ 52` is computed with
floating point numbers, of which only the whole part is used. -/
def firstGuess (value : ℕ) : ℕ :=
  if value < 4503599627370496 then Nat.sqrt value - 3
  else
    let vLen := (DecimalText.print value).length
    if vLen % 2 = 0 then 10 ^ (vLen / 2) else 4 * 10 ^ (vLen / 2)

def sqrtRound (value x0 : ℕ) : Looping (Round ℕ ℕ) :=
  let x1 := (value / x0 + x0) >>> 1
  pure (if x0 ≠ x1 ∧ x0 + 1 ≠ x1 then .next x1 else .done x0)

def sqrt (value : ℕ) : Looping ℕ :=
  if value < 2 then pure value
  else if value < 16 then pure (Nat.sqrt value)
  else loop (sqrtRound value) (firstGuess value)

/-- Where the generator of primes stands: before its first prime, or at an odd number with the
steps of the primes found so far, each at the multiple that it strikes next. -/
inductive PrimeGen where
  | start
  | sieving (D : ℕ → Option ℕ) (q : ℕ)

def strikeRound (D : ℕ → Option ℕ) (p x : ℕ) : Looping (Round ℕ ℕ) :=
  pure (if (D x).isSome then .next (x + p) else .done x)

/-- The first of `x`, `x + p`, `x + 2 * p` and so on that is no key. -/
def firstFree (D : ℕ → Option ℕ) (p x : ℕ) : Looping ℕ := loop (strikeRound D p) x

def sieveRound : (ℕ → Option ℕ) × ℕ → Looping (Round ((ℕ → Option ℕ) × ℕ) (ℕ × PrimeGen)) :=
  fun (D, q) =>
    match D q with
    | none => pure (.done (q, .sieving (Function.update D (q * q) (some (2 * q))) (q + 2)))
    | some p => do
      let D := Function.update D q none
      let x ← firstFree D p (q + p)
      return .next (Function.update D x (some p), q + 2)

def PrimeGen.next : PrimeGen → Looping (ℕ × PrimeGen)
  | .start => pure (2, .sieving (fun _ => none) 3)
  | .sieving D q => loop sieveRound (D, q)

def PrimeGen.take : ℕ → PrimeGen → Looping (List ℕ)
  | 0, _ => pure []
  | count + 1, primes => do
    let (prime, primes) ← primes.next
    return prime :: (← take count primes)

def divideRound (prime : ℕ) : ℕ × ℕ → Looping (Round (ℕ × ℕ) (ℕ × ℕ)) := fun (n, limit) =>
  if n % prime = 0 then do
    let n := (n - n % prime) / prime
    let limit ← sqrt n
    return .next (n, limit)
  else pure (.done (n, limit))

def divideOut (prime n limit : ℕ) : Looping (ℕ × ℕ) := loop (divideRound prime) (n, limit)

/-- Add to a set, whose members are listed as they came. -/
def addFactor (factors : List ℕ) (factor : ℕ) : List ℕ :=
  if factor ∈ factors then factors else factors ++ [factor]

structure Factoring where
  n : ℕ
  factors : List ℕ
  limit : ℕ
  primes : PrimeGen

def factorRound (state : Factoring) : Looping (Round Factoring Factoring) := do
  let (prime, primes) ← state.primes.next
  if state.limit < prime then return .done { state with primes }
  else if state.n % prime = 0 then
    let factors := addFactor state.factors prime
    let (n, limit) ← divideOut prime state.n state.limit
    return .next ⟨n, factors, limit, primes⟩
  else return .next { state with primes }

def factorizePMinusOne (p : ℕ) : Looping (List ℕ) := do
  let n := p - 1
  let limit ← sqrt n
  let state ← loop factorRound ⟨n, [], limit, .start⟩
  return if 1 < state.n then addFactor state.factors state.n else state.factors

end Factors

section PrimitiveRoot

/-- The first candidate that passes the test for every factor; none when the draws run out. -/
def findPrimitiveRoot (p : ℕ) (factorsOfPMinusOne : List ℕ) : List (Random × Random) → Option ℕ
  | [] => none
  | (first, second) :: draws =>
    let phi := p - 1
    let g := randBelow (p - 3) first second + 2
    if factorsOfPMinusOne.all fun q => modPow g ((phi - phi % q) / q) p ≠ 1 then some g
    else findPrimitiveRoot p factorsOfPMinusOne draws

/-- The state of the sequence after the given number of steps. -/
def rollState (g pToE : ℕ) : ℕ → ℕ
  | 0 => g
  | steps + 1 => rollState g pToE steps * g % pToE

def rollExponent (nBits bitLength : ℕ) : ℕ := ⌈((nBits + BIAS_PADDING : ℕ) : ℚ) / bitLength⌉₊

/-- The first numbers of the sequence for the primitive root `g`. -/
def rollSequence (p g bitLength nBits count : ℕ) : List ℕ :=
  let e := rollExponent nBits bitLength
  (List.range count).map fun k => rollState g (p ^ e) (k + 1) % 2 ^ nBits

end PrimitiveRoot

end RandomArt.RandomPrimeField
