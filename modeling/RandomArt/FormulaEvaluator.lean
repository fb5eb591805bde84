import RandomArt.FormulaText

/-!
# Evaluating a formula

The text of a formula is made a function of a point by compiling it next to its helpers. What is
compiled from the text of an expression tree computes, over any arithmetic, what the tree means,
with its constants rounded to four decimal places.
-/

namespace RandomArt.Formula
open Binary64 DecimalText JsNumber CallExpression

/-- What formulas compute with. -/
class Arithmetic (N : Type) extends Add N, Sub N, Mul N, Div N, Neg N where
  literal : ℚ → N
  sqrt : N → N
  sin : N → N
  abs : N → N
  floor : N → N
  pow : N → N → N
  lt : N → N → Bool
  eq : N → N → Bool

open Arithmetic

namespace Helper

variable {N : Type} [Arithmetic N]

def average (c1 c2 : Channels N) (w : N) : Channels N :=
  ⟨w * c1.r + (literal 1 - w) * c2.r, w * c1.g + (literal 1 - w) * c2.g,
    w * c1.b + (literal 1 - w) * c2.b⟩

def brightness (c : Channels N) : N :=
  let R := literal 1 + c.r
  let G := literal 1 + c.g
  let B := literal 1 + c.b
  sqrt (literal (299 / 1000) * (R * R) + literal (587 / 1000) * (G * G) +
    literal (114 / 1000) * (B * B)) - literal 1

def well (x : N) : N := literal 1 - literal 2 / pow (literal 1 + x * x) (literal 8)

def tent (x : N) : N := literal 1 - literal 2 * abs x

def modulo (x y : N) : N := x - y * floor (x / y)

def BW (v : N) : Channels N := ⟨v, v, v⟩

def Const (r g b : N) : Channels N := ⟨r, g, b⟩

def RGB (c1 c2 c3 : Channels N) : Channels N := ⟨brightness c1, brightness c2, brightness c3⟩

def Sum (c1 c2 : Channels N) : Channels N := average c1 c2 (literal (1 / 2))

def Mul (c1 c2 : Channels N) : Channels N := ⟨c1.r * c2.r, c1.g * c2.g, c1.b * c2.b⟩

def Not (c1 : Channels N) : Channels N := ⟨-c1.r, -c1.g, -c1.b⟩

def Mod (c1 c2 : Channels N) : Channels N :=
  if eq c2.r (literal 0) || eq c2.g (literal 0) || eq c2.b (literal 0) then
    ⟨literal 0, literal 0, literal 0⟩
  else ⟨modulo c1.r c2.r, modulo c1.g c2.g, modulo c1.b c2.b⟩

def Tent (c1 : Channels N) : Channels N := c1.map tent

def Well (c1 : Channels N) : Channels N := c1.map well

def Sin (phase freq : N) (c1 : Channels N) : Channels N :=
  ⟨sin (phase + freq * c1.r), sin (phase + freq * c1.g), sin (phase + freq * c1.b)⟩

def Mix (w c1 c2 : Channels N) : Channels N :=
  let w := brightness w
  let w := literal (1 / 2) * (w + literal 1)
  average c1 c2 w

def Level (treshold : N) (level c1 c2 : Channels N) : Channels N :=
  ⟨if lt level.r treshold then c1.r else c2.r, if lt level.g treshold then c1.g else c2.g,
    if lt level.b treshold then c1.b else c2.b⟩

def Closest (tgt c1 c2 : Channels N) : Channels N :=
  let distance (c : Channels N) : N :=
    sqrt (pow (c.r - tgt.r) (literal 2) + pow (c.g - tgt.g) (literal 2) +
      pow (c.b - tgt.b) (literal 2))
  if lt (distance c1) (distance c2) then c1 else c2

end Helper

section Evaluation

variable {N : Type} [Arithmetic N]

inductive Value (N : Type) where
  | number (n : N)
  | channels (c : Channels N)

/-- A call of a helper with as many arguments as it has parameters. -/
def callHelper (function : List Char) (args : List (Value N)) : Option (Channels N) :=
  match String.ofList function, args with
  | "BW", [.number v] => some (Helper.BW v)
  | "Const", [.number r, .number g, .number b] => some (Helper.Const r g b)
  | "RGB", [.channels c1, .channels c2, .channels c3] => some (Helper.RGB c1 c2 c3)
  | "Sum", [.channels c1, .channels c2] => some (Helper.Sum c1 c2)
  | "Mul", [.channels c1, .channels c2] => some (Helper.Mul c1 c2)
  | "Not", [.channels c1] => some (Helper.Not c1)
  | "Mod", [.channels c1, .channels c2] => some (Helper.Mod c1 c2)
  | "Tent", [.channels c1] => some (Helper.Tent c1)
  | "Well", [.channels c1] => some (Helper.Well c1)
  | "Sin", [.number phase, .number freq, .channels c1] => some (Helper.Sin phase freq c1)
  | "Mix", [.channels w, .channels c1, .channels c2] => some (Helper.Mix w c1 c2)
  | "Level", [.number treshold, .channels level, .channels c1, .channels c2] =>
    some (Helper.Level treshold level c1 c2)
  | "Closest", [.channels tgt, .channels c1, .channels c2] => some (Helper.Closest tgt c1 c2)
  | _, _ => none

mutual

/-- The value of an expression; none where it is neither a number nor a colour. -/
def eval (scope : List Char → Option N) : Expr → Option (Value N)
  | .name text => (scope text).map .number
  | .number text => (unsignedDecimal text).map fun q => .number (literal q)
  | .neg e =>
    match eval scope e with
    | some (.number n) => some (.number (-n))
    | _ => none
  | .array es =>
    match evalAll scope es with
    | some [.number r, .number g, .number b] => some (.channels ⟨r, g, b⟩)
    | _ => none
  | .call function args =>
    (evalAll scope args).bind fun values => (callHelper function values).map .channels

def evalAll (scope : List Char → Option N) : List Expr → Option (List (Value N))
  | [] => some []
  | e :: es => (eval scope e).bind fun v => (evalAll scope es).map (v :: ·)

end

/-- The parameters of the compiled function. -/
def parameters (x y : N) (text : List Char) : Option N :=
  if text = ['x'] then some x else if text = ['y'] then some y else none

/-- Compile a formula to a function of a point; none if the formula does not parse. The function
gives none where it throws or returns something else than a colour. -/
def getEvaluator (formula : List Char) : Option (N → N → Option (Channels N)) :=
  ((lex (substitute formula)).bind parse).map fun e x y =>
    match eval (parameters x y) e with
    | some (.channels c) => some c
    | _ => none

end Evaluation

section Meaning

variable {N : Type} [Arithmetic N]

/-- A number of ten thousandths, written with a minus sign if it is negative. -/
def fixedValue (k : ℤ) : N :=
  if k < 0 then -literal (k.natAbs / 10 ^ 4) else literal (k.natAbs / 10 ^ 4)

def constantValue (c : ℚ) : N := fixedValue (tenThousandths c)

/-- What a tree means at a point. -/
def ExpressionTree.color (x y : N) : ExpressionTree → Channels N
  | varX => ⟨x, x, x⟩
  | varY => ⟨y, y, y⟩
  | varT => ⟨literal 1, literal 1, literal 1⟩
  | palette _ c | random c => c.map constantValue
  | bw c => Helper.BW (constantValue c)
  | not e => Helper.Not (e.color x y)
  | sum e1 e2 => Helper.Sum (e1.color x y) (e2.color x y)
  | mul e1 e2 => Helper.Mul (e1.color x y) (e2.color x y)
  | mod e1 e2 => Helper.Mod (e1.color x y) (e2.color x y)
  | tent e => Helper.Tent (e.color x y)
  | well e => Helper.Well (e.color x y)
  | sin phase freq e => Helper.Sin (constantValue phase) (constantValue freq) (e.color x y)
  | mix w e1 e2 => Helper.Mix (w.color x y) (e1.color x y) (e2.color x y)
  | level treshold e e1 e2 =>
    Helper.Level (constantValue treshold) (e.color x y) (e1.color x y) (e2.color x y)
  | closest tgt e1 e2 => Helper.Closest (tgt.color x y) (e1.color x y) (e2.color x y)

theorem eval_fixedExpr (scope : List Char → Option N) (k : ℤ) :
    eval scope (fixedExpr k) = some (.number (fixedValue k)) := by
  have hliteral : eval scope (.number (print (k.natAbs / 10 ^ 4) ++
      '.' :: lastDigits 4 (k.natAbs % 10 ^ 4))) =
      some (.number (literal (k.natAbs / 10 ^ 4) : N)) := by
    rw [eval, unsignedDecimal_lastDigits]
    rfl
  rw [fixedExpr, fixedValue]
  split_ifs
  · rw [eval, hliteral]
  · exact hliteral

theorem eval_constantExpr (scope : List Char → Option N) (c : ℚ) :
    eval scope (constantExpr c) = some (.number (constantValue c)) := eval_fixedExpr scope _

theorem eval_call {scope : List Char → Option N} {function : List Char} {args : List Expr}
    {values : List (Value N)} {c : Channels N} (hargs : evalAll scope args = some values)
    (h : callHelper function values = some c) :
    eval scope (.call function args) = some (.channels c) := by
  rw [eval, hargs, Option.bind_some, h]
  rfl

/-- The expression of a tree has the value that the tree means. -/
theorem eval_expr (x y : N) (t : ExpressionTree) :
    eval (parameters x y) t.expr = some (.channels (t.color x y)) := by
  have hone : unsignedDecimal ['1'] = some 1 := by decide +kernel
  induction t with
  | varX => simp [ExpressionTree.expr, ExpressionTree.color, eval, evalAll, parameters]
  | varY => simp [ExpressionTree.expr, ExpressionTree.color, eval, evalAll, parameters]
  | varT => simp [ExpressionTree.expr, ExpressionTree.color, eval, evalAll, hone]
  | palette _ c | random c | bw c =>
    exact eval_call (by simp only [evalAll, eval_constantExpr]; rfl) rfl
  | not e ih | tent e ih | well e ih => exact eval_call (by simp only [evalAll, ih]; rfl) rfl
  | sum e1 e2 ih1 ih2 | mul e1 e2 ih1 ih2 | mod e1 e2 ih1 ih2 =>
    exact eval_call (by simp only [evalAll, ih1, ih2]; rfl) rfl
  | sin phase freq e ih => exact eval_call (by simp only [evalAll, eval_constantExpr, ih]; rfl) rfl
  | mix e e1 e2 ih ih1 ih2 | closest e e1 e2 ih ih1 ih2 =>
    exact eval_call (by simp only [evalAll, ih, ih1, ih2]; rfl) rfl
  | level treshold e e1 e2 ih ih1 ih2 =>
    exact eval_call (by simp only [evalAll, eval_constantExpr, ih, ih1, ih2]; rfl) rfl

/-- What is compiled from the text of a tree computes what the tree means. -/
theorem getEvaluator_toString {t : ExpressionTree} (h : t.ConstantsLe (2 ^ 34)) :
    getEvaluator (N := N) t.toString = some fun x y => some (t.color x y) := by
  rw [getEvaluator, lex_toString h, Option.bind_some, parse_tokens]
  simp only [Option.map_some, eval_expr]

end Meaning

section Doubles

/-- The numbers of the host language. What is not exact about `Math` is a parameter. -/
@[reducible] def doubles (sqrt sin : JsNumber → JsNumber) (pow : JsNumber → JsNumber → JsNumber) :
    Arithmetic JsNumber where
  add a b := (a.sub ((finite 0).sub b)).toDouble
  sub a b := (a.sub b).toDouble
  mul a b := (a.mul b).toDouble
  div a b := (a.div b).toDouble
  neg a := (finite 0).sub a
  literal q := (finite q).toDouble
  sqrt := sqrt
  sin := sin
  abs a := if a.ge (finite 0) then a else (finite 0).sub a
  floor
    | finite q => finite ⌊q⌋
    | a => a
  pow := pow
  lt a b := b.ge a && !a.ge b
  eq a b := a.ge b && b.ge a

example : letI := doubles id id fun a _ => a
    ((getEvaluator (N := JsNumber) "Mul(Const(-0.5000, 0.2500, 1.0000), posX)".toList).bind
      fun f => f (finite (1 / 2)) (finite 0)) =
        some ⟨finite (-1 / 4), finite (1 / 8), finite (1 / 2)⟩ := by decide +kernel

end Doubles

end RandomArt.Formula
