import RandomArt.Achieving
import RandomArt.Alea
import RandomArt.ArtPalettes
import RandomArt.JsNumber

/-!
# Expression trees

The formula of a picture is grown from a seed: operators are drawn for the inner nodes, by the
depth they may stand at, until the maximal depth is reached, where only terminals are drawn. The
constants are drawn as the nodes are built, and the colours come from one palette, in turn.
-/

namespace RandomArt.Formula
open Binary64

/-- The classes of expressions that may be drawn. -/
inductive Operator where
  | varX | varY | varT | palette | bw | random
  | not | sum | mul | mod | tent | well | sin | mix | level | closest
  deriving DecidableEq

namespace Operator

def arity : Operator → ℕ
  | varX | varY | varT | palette | bw | random => 0
  | not | tent | well | sin => 1
  | sum | mul | mod => 2
  | mix | level | closest => 3

def mindepth : Operator → ℕ
  | varX | varY | varT | bw | random => 4
  | palette | not | closest => 3
  | sum | mul | mod => 2
  | tent | well | sin => 1
  | mix | level => 0

end Operator

def operators : List Operator :=
  [.varX, .varY, .varT, .palette, .bw, .random, .not, .sum, .mul, .mod, .tent, .well, .sin, .mix,
    .level, .closest]

def terminals : List Operator := operators.filter fun i => i.arity = 0

def nonterminals : List Operator := operators.filter fun i => 0 < i.arity

structure Channels (N : Type) where
  r : N
  g : N
  b : N
  deriving DecidableEq

inductive ExpressionTree where
  | varX
  | varY
  | varT
  | palette (hex : String) (c : Channels ℚ)
  | bw (c : ℚ)
  | random (c : Channels ℚ)
  | not (e : ExpressionTree)
  | sum (e1 e2 : ExpressionTree)
  | mul (e1 e2 : ExpressionTree)
  | mod (e1 e2 : ExpressionTree)
  | tent (e : ExpressionTree)
  | well (e : ExpressionTree)
  | sin (phase freq : ℚ) (e : ExpressionTree)
  | mix (w e1 e2 : ExpressionTree)
  | level (treshold : ℚ) (level e1 e2 : ExpressionTree)
  | closest (tgt e1 e2 : ExpressionTree)

section Colors

/-- `parseInt(text, 16)`, none for NaN. -/
def parseHex (text : List Char) : Option ℚ :=
  let signed := DecimalText.splitSign (text.dropWhile DecimalText.isBlank)
  let digits := match signed.2 with
    | '0' :: 'x' :: rest | '0' :: 'X' :: rest => rest
    | rest => rest
  match digits.map JsNumber.digitValue |>.takeWhile Option.isSome with
  | [] => none
  | values =>
    let num := nearest (values.foldl (fun acc v => acc * 16 + v.getD 0) 0 : ℕ)
    some (if signed.1 then -num else num)

def parseColor (s : String) : Channels ℤ :=
  let s := match s.toList with
    | '#' :: rest => rest
    | s => s
  let num := Alea.toInt32 ((parseHex s).getD 0)
  ⟨num / 2 ^ 16 % 256, num / 2 ^ 8 % 256, num % 256⟩

/-- A channel between minus one and one. -/
def centered (i : ℤ) : ℚ := nearest (nearest (i / 128) - 1)

def Channels.map {M N : Type} (f : M → N) (c : Channels M) : Channels N := ⟨f c.r, f c.g, f c.b⟩

end Colors

section Generation

/-- What the module keeps between the constructors. -/
structure Gen where
  random : Alea.State
  palette : Option (List String)
  paletteIdx : ℕ

/-- A constructor or a choice, which throws where something is undefined. -/
abbrev Drawing := StateT Gen Option

def uniform (min max : ℚ) : Drawing ℚ := fun s =>
  let (c, random) := s.random.uniform min max
  some (c, { s with random })

/-- A choice that is used at once, as a class is when it is instantiated. -/
def choice {α : Type} (arr : List α) : Drawing α := fun s =>
  let (chosen, random) := s.random.choice arr
  chosen.map fun a => (a, { s with random })

/-- `palette[paletteIdx++]`, with the index brought back to the start at the end. -/
def nextHex : Drawing String := fun s =>
  s.palette.bind fun palette =>
    palette[s.paletteIdx]?.map fun hex =>
      (hex, { s with
        paletteIdx := if palette.length ≤ s.paletteIdx + 1 then 0 else s.paletteIdx + 1 })

/-- The literal `0.8` and `Math.PI`. -/
def fourFifths : ℚ := nearest (8 / 10)

def pi : ℚ := nearest (3141592653589793 / 10 ^ 15)

def Operator.construct : Operator → List ExpressionTree → Drawing ExpressionTree
  | .varX, [] => pure .varX
  | .varY, [] => pure .varY
  | .varT, [] => pure .varT
  | .palette, [] => do
    let hex ← nextHex
    pure (.palette hex ((parseColor hex).map centered))
  | .bw, [] => do
    let c ← uniform (-fourFifths) fourFifths
    pure (.bw c)
  | .random, [] => do
    let r ← uniform (-1) 1
    let g ← uniform (-1) 1
    let b ← uniform (-1) 1
    pure (.random ⟨r, g, b⟩)
  | .not, [e] => pure (.not e)
  | .sum, [e1, e2] => pure (.sum e1 e2)
  | .mul, [e1, e2] => pure (.mul e1 e2)
  | .mod, [e1, e2] => pure (.mod e1 e2)
  | .tent, [e] => pure (.tent e)
  | .well, [e] => pure (.well e)
  | .sin, [e] => do
    let phase ← uniform 0 pi
    let freq ← uniform 1 6
    pure (.sin phase freq e)
  | .mix, [w, e1, e2] => pure (.mix w e1 e2)
  | .level, [e, e1, e2] => do
    let treshold ← uniform (-fourFifths) fourFifths
    pure (.level treshold e e1 e2)
  | .closest, [tgt, e1, e2] => pure (.closest tgt e1 e2)
  -- No class is instantiated with another number of arguments.
  | _, _ => failure

/-- Grow a tree whose remaining levels are counted. -/
def generateLevels : ℕ → ℕ → Drawing ExpressionTree
  | 0, _ => do
    let op ← choice terminals
    op.construct []
  | levels + 1, depth => do
    let op ← choice (nonterminals.filter fun i => i.mindepth ≤ depth)
    let args ← (List.range op.arity).mapM fun _ => generateLevels levels (depth + 1)
    op.construct args

def generateTree (k : ℚ) (depth : ℕ) : Drawing ExpressionTree :=
  generateLevels (⌈k⌉ - depth).toNat depth

/-- Grow the tree of a seed; none if an exception is thrown. -/
def generate (seed : List UInt16) : Option ExpressionTree :=
  let random := Alea.seeded seed
  let (palette, random) := random.choice palettes
  let (maxdepth, random) := random.randrange 4 8
  (generateTree maxdepth 0 { random, palette, paletteIdx := 0 }).map Prod.fst

theorem generateTree_eq (k : ℚ) (depth : ℕ) : generateTree k depth =
    if k ≤ depth then do
      let op ← choice terminals
      op.construct []
    else (do
      let op ← choice (nonterminals.filter fun i => i.mindepth ≤ depth)
      let args ← (List.range op.arity).mapM fun _ => generateTree k (depth + 1)
      op.construct args) := by
  rw [generateTree]
  have hceil : k ≤ depth ↔ ⌈k⌉ ≤ (depth : ℤ) := by
    rw [Int.ceil_le]
    norm_cast
  rw [if_congr hceil rfl rfl]
  split_ifs with h
  · rw [show (⌈k⌉ - (depth : ℤ)).toNat = 0 by omega, generateLevels]
  · obtain ⟨levels, hlevels⟩ := Int.eq_ofNat_of_zero_le (a := ⌈k⌉ - depth - 1) (by omega)
    have hnext : generateTree k (depth + 1) = generateLevels levels (depth + 1) := by
      rw [generateTree]
      congr 1
      omega
    simp only [hnext]
    rw [show (⌈k⌉ - (depth : ℤ)).toNat = levels + 1 by omega, generateLevels]

end Generation

end RandomArt.Formula
